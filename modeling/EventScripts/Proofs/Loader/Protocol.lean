import EventScripts.Demo.Grammar
import EventScripts.Probe.Grammar
import EventScripts.Proofs.FileSystem.Resolution
import EventScripts.Proofs.Loader.Loading
/-!
# The protocol of a batch

What is seen of a batch whose scope opens and closes: the structures that are
called, phase by phase and in order; one report of every file, block and
structure that drops out, and of nothing else; and in the registry the scripts
with exactly the structures that have stayed in all three phases.

It is the activation of `SPEC_FULL.md` §4.2; the first three properties of §8 are
parts of it.
-/

namespace EventScripts

variable {σ : Type} [Structure σ]

namespace Runtime

end Runtime

end EventScripts
