import EventScripts.Event.Catalog
import EventScripts.Ordered
import EventScripts.Router.Trigger
/-!
# The router

The router keeps, for each pair of a handler list and a tier that some trigger
needs, the triggers in the order in which they were bound. It asks the host to
listen on a pair when the first trigger is bound to it and to stop when the
last one is released; these requests are the second result of `bind` and
`release`.

The `EventDispatchRouter` of `SPEC_FULL.md` §4.5. A `Channel` is a pair of a handler
list and a tier, and a `Binding` is the `PriorityBinding` of §3.
-/

namespace EventScripts

/-- A pair that the host can listen on. -/
structure Channel where
  list : Nat
  tier : Tier
deriving DecidableEq, Repr

/-- A request to the host. -/
inductive HostCall where
  | listen (channel : Channel)
  | stop (channel : Channel)
deriving DecidableEq, Repr

/-- The triggers bound to a channel, in order. -/
structure Binding where
  channel : Channel
  triggers : List Trigger

/-- The catalog and the bindings, in the order in which the host was asked to listen. -/
structure Router where
  catalog : Catalog
  bindings : List Binding := []

/-- Why a trigger cannot be bound. -/
inductive BindError where
  | noKinds (trigger : String)
  | alreadyBound (trigger : String)
  | unknownKind (trigger : String) (kind : Kind)
deriving DecidableEq, Repr

def BindError.message : BindError → String
  | noKinds trigger => s!"trigger '{trigger}' is not bound to any event"
  | alreadyBound trigger => s!"trigger '{trigger}' is already registered"
  | unknownKind trigger kind => s!"trigger '{trigger}' listens to unknown event '{kind}'"

namespace Router

/-- The triggers bound to a channel. -/
def bound (router : Router) (channel : Channel) : List Trigger :=
  ((router.bindings.find? fun b => b.channel == channel).map (·.triggers)).getD []

/-- Whether a trigger is bound to any channel. -/
def contains (router : Router) (id : TriggerId) : Bool :=
  router.bindings.any fun b => b.triggers.any fun t => t.id == id

/-- Whether the host has been asked to listen on a channel. -/
def isListening (router : Router) (channel : Channel) : Bool :=
  router.bindings.any fun b => b.channel == channel

/-- How many channels the host has been asked to listen on. -/
def channelCount (router : Router) : Nat := router.bindings.length

/-- The bound triggers, without repetition. -/
def triggerIds (router : Router) : List TriggerId :=
  (router.bindings.flatMap fun b => b.triggers.map (·.id)).eraseDups

def triggerCount (router : Router) : Nat := router.triggerIds.length

/-- The handler lists of some kinds, ascending and without repetition; or the first kind that is
not declared. -/
def listsOf (catalog : Catalog) : List Kind → Except Kind (List Nat)
  | [] => .ok []
  | kind :: kinds =>
    match catalog.list? kind with
    | none => .error kind
    | some list => (listsOf catalog kinds).map (Ordered.insert compare list)

/-- Binds a trigger to one channel. -/
def attach (trigger : Trigger) (channel : Channel) :
    List Binding → List Binding × List HostCall
  | [] => ([⟨channel, [trigger]⟩], [.listen channel])
  | b :: rest =>
    if b.channel = channel then (⟨channel, b.triggers ++ [trigger]⟩ :: rest, [])
    else
      let (rest, calls) := attach trigger channel rest
      (b :: rest, calls)

/-- Binds a trigger to channels in turn. -/
def attachAll (trigger : Trigger) (bindings : List Binding) :
    List Channel → List Binding × List HostCall
  | [] => (bindings, [])
  | channel :: rest =>
    let (bindings, calls) := attach trigger channel bindings
    let (bindings, more) := attachAll trigger bindings rest
    (bindings, calls ++ more)

/-- Binds a trigger to the handler lists of its kinds at its tier. Nothing changes unless all of
them can be bound. -/
def bind (router : Router) (trigger : Trigger) : Except BindError (Router × List HostCall) :=
  if trigger.kinds.isEmpty then .error (.noKinds trigger.name)
  else if router.contains trigger.id then .error (.alreadyBound trigger.name)
  else
    match listsOf router.catalog trigger.kinds with
    | .error kind => .error (.unknownKind trigger.name kind)
    | .ok lists =>
      let channels := lists.map fun list => ⟨list, trigger.tier⟩
      let (bindings, calls) := attachAll trigger router.bindings channels
      .ok ({ router with bindings }, calls)

/-- A binding without a trigger. -/
def Binding.without (id : TriggerId) (b : Binding) : Binding :=
  { b with triggers := b.triggers.filter fun t => t.id != id }

/-- Releases a trigger from every channel; the flag tells whether it was bound. -/
def release (router : Router) (id : TriggerId) : Router × List HostCall × Bool :=
  let remaining := router.bindings.map (Binding.without id)
  let emptied := remaining.filter (·.triggers.isEmpty)
  ({ router with bindings := remaining.filter (!·.triggers.isEmpty) },
    emptied.map fun b => .stop b.channel, router.contains id)

end Router

end EventScripts
