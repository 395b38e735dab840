import EventScripts.Script.Structure
/-!
# Handlers

A handler is the structure that keeps a trigger bound while its script is
loaded: it binds the trigger when it is loaded and releases it when it is
unloaded.

`SPEC_FULL.md` §3: a trigger is a structure that is bound to events.
-/

namespace EventScripts

structure Handler where
  trigger : Trigger
  priority : Int := standardPriority

namespace Handler

/-- What a handler does in a phase. A trigger that cannot be bound is a failure. -/
def act (phase : Phase) (self : Handler) : Action Handler :=
  match phase with
  | .load =>
    .bind self.trigger fun
      | .ok () => .finish (.ok true) self
      | .error e => .finish (.error (.failure e.message)) self
  | .unload => .release self.trigger.id fun _ => .finish (.ok true) self
  | .preLoad | .postLoad | .postUnload | .execute => .finish (.ok true) self

instance : Structure Handler where
  name self := self.trigger.name
  priority := Handler.priority
  act phase _ self := self.act phase

end Handler

end EventScripts
