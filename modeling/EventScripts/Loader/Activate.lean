import EventScripts.Loader.Runtime
/-!
# Activation of a batch

The scripts of a batch are activated in three phases: `preLoad` for every
structure in ascending priority, equal ones in the order of the batch and of
the files; `load` for every structure that stayed, script by script; `postLoad`
in the same order. A structure that does not stay is dropped; after `postLoad`,
when it may already have bound something, it is unloaded at once.

Phases A, B and C of the `LoadPipeline`, `SPEC_FULL.md` §4.2.
-/

namespace EventScripts

/-- A structure with its place in the batch: the number of its script and its number in it. -/
structure Member (σ : Type) where
  script : Nat
  place : Nat
  path : Path
  self : σ

namespace Member

variable {σ : Type}

/-- The structures of a batch in the order of the batch and of the files. -/
def ofBatch (scripts : List (Script σ)) : List (Member σ) :=
  scripts.zipIdx.flatMap fun (script, s) =>
    script.structures.zipIdx.map fun (self, p) => ⟨s, p, script.path, self⟩

/-- The scripts with those of the members that belong to them, in the order of the files. -/
def toBatch (members : List (Member σ)) (scripts : List (Script σ)) : List (Script σ) :=
  scripts.zipIdx.map fun (script, s) =>
    let own := members.filter fun m => m.script == s
    { script with structures := (own.mergeSort fun a b => a.place ≤ b.place).map (·.self) }

/-- In ascending priority, equal ones in the order in which they come. -/
def byPriority [Structure σ] (members : List (Member σ)) : List (Member σ) :=
  members.mergeSort fun a b => Structure.priority a.self ≤ Structure.priority b.self

end Member

namespace Runtime

variable {σ : Type} [Structure σ]

/-- Calls the members in turn for `preLoad`; those that stay are the second result. -/
def preLoadMembers (rt : Runtime σ) : List (Member σ) → Runtime σ × List (Member σ)
  | [] => (rt, [])
  | m :: rest =>
    let (rt, stays, self) := rt.call .preLoad m.path m.self
    let (rt, rest) := rt.preLoadMembers rest
    (rt, if stays then { m with self } :: rest else rest)

/-- The phase `preLoad` of a batch. -/
def preLoad (rt : Runtime σ) (scripts : List (Script σ)) : Runtime σ × List (Script σ) :=
  let (rt, members) := rt.preLoadMembers (Member.byPriority (Member.ofBatch scripts))
  (rt, Member.toBatch members scripts)

/-- Calls structures in turn for `load`; those that stay are the second result. -/
def loadStructures (rt : Runtime σ) (script : Path) : List σ → Runtime σ × List σ
  | [] => (rt, [])
  | self :: rest =>
    let (rt, stays, self) := rt.call .load script self
    let (rt, rest) := rt.loadStructures script rest
    (rt, if stays then self :: rest else rest)

/-- Calls structures in turn for `postLoad`; those that stay are the second result. -/
def postLoadStructures (rt : Runtime σ) (script : Path) : List σ → Runtime σ × List σ
  | [] => (rt, [])
  | self :: rest =>
    match rt.call .postLoad script self with
    | (rt, true, self) =>
      let (rt, rest) := rt.postLoadStructures script rest
      (rt, self :: rest)
    | (rt, false, self) =>
      let (rt, _, self) := rt.call .unload script self
      let (rt, _, _) := rt.call .postUnload script self
      rt.postLoadStructures script rest

/-- Runs a phase script by script. -/
def eachScript (phase : Runtime σ → Path → List σ → Runtime σ × List σ) (rt : Runtime σ) :
    List (Script σ) → Runtime σ × List (Script σ)
  | [] => (rt, [])
  | script :: rest =>
    let (rt, structures) := phase rt script.path script.structures
    let (rt, rest) := eachScript phase rt rest
    (rt, { script with structures } :: rest)

/-- All three phases. The result are the scripts with the structures that stayed. -/
def activate (rt : Runtime σ) (scripts : List (Script σ)) : Runtime σ × List (Script σ) :=
  let (rt, scripts) := rt.preLoad scripts
  let (rt, scripts) := eachScript loadStructures rt scripts
  eachScript postLoadStructures rt scripts

end Runtime

end EventScripts
