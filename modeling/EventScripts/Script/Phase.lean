/-!
# Phases

The moments of a structure's life at which its script may act: three phases of
activation, two of teardown, and the execution of its statements for an event.

The lifecycle callbacks of a structure in `SPEC_FULL.md` §3, and the phase `execute`
of §10.6.
-/

namespace EventScripts

inductive Phase where
  | preLoad
  | load
  | postLoad
  | unload
  | postUnload
  | execute
deriving DecidableEq, Repr

namespace Phase

def name : Phase → String
  | preLoad => "preLoad"
  | load => "load"
  | postLoad => "postLoad"
  | unload => "unload"
  | postUnload => "postUnload"
  | execute => "execute"

/-- The phases in which a structure may still be turned away. -/
def isActivation : Phase → Bool
  | preLoad | load | postLoad => true
  | unload | postUnload | execute => false

end Phase

end EventScripts
