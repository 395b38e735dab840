/-!
# Help

What the program says about itself.

The `skhost` program of `SPEC_FULL.md` §10.6 (Runner).
-/

namespace EventScripts.CommandLine

def versionLine : String := "skhost 0.1.0-beta"

def helpLines : List String := [
  "Script lifecycle host with priority-based event dispatch",
  "",
  "Usage: skhost [OPTIONS]",
  "",
  "Options:",
  "  -d, --debug...                 Enables debug logging",
  "  -c, --config <CONFIG>          Config file to use instead of the default location",
  "  -s, --script-dir <SCRIPT_DIR>  Directory to load scripts from (overrides config file)",
  "  -w, --workers <WORKERS>        Number of construction workers (overrides config file)",
  "      --init-config              Write an example config file and exit",
  "  -h, --help                     Print help",
  "  -V, --version                  Print version"]

end EventScripts.CommandLine
