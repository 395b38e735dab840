import EventScripts.Loader.Basic
import EventScripts.Proofs.Pool.Untroubled
import EventScripts.Proofs.Router.Renaming
import EventScripts.Script.Handler
/-!
# Batches with other identities

The identities that the structures of a batch are given tell their triggers
apart, and that is all they are for. A `Renaming` says what the structures look
like that have been given other ones. A batch of such structures is activated
and entered in the same way but for the identities (`Renames.finish`).
-/

namespace EventScripts

variable {σ : Type}

/-! ## Structures -/

/-- The script with its structures mapped. -/
def Script.map (f : σ → σ) (script : Script σ) : Script σ :=
  ⟨script.path, script.structures.map f⟩

/-- The two actions are the same but for the identities, and for what the structure is afterwards. -/
inductive Action.Renamed (ids : TriggerId → TriggerId) (self : σ → σ) : Action σ → Action σ → Prop
  | finish (verdict : Except Fault Bool) (s : σ) :
    Renamed ids self (.finish verdict s) (.finish verdict (self s))
  | bind (trigger : Trigger) {next next' : Except BindError Unit → Action σ} :
    (∀ answer, Renamed ids self (next answer) (next' answer)) →
    Renamed ids self (.bind trigger next) (.bind (trigger.renamed ids) next')
  | release (id : TriggerId) {next next' : Bool → Action σ} :
    (∀ answer, Renamed ids self (next answer) (next' answer)) →
    Renamed ids self (.release id next) (.release (ids id) next')
  | enroll (script : Script σ) {next next' : Except Violation Unit → Action σ} :
    (∀ answer, Renamed ids self (next answer) (next' answer)) →
    Renamed ids self (.enroll script next) (.enroll (script.map self) next')
  | look {next next' : Router → Action σ} :
    (∀ router : Router, Renamed ids self (next router) (next' (router.renamed ids))) →
    Renamed ids self (.look next) (.look next')
  | remark (remark : Remark) {next next' : Action σ} : Renamed ids self next next' →
    Renamed ids self (.remark remark next) (.remark remark next')

/-- Other identities, none of them given twice, and the structures that have them: they have the
same names and priorities, and do the same. -/
structure Renaming (σ : Type) [Structure σ] where
  ids : TriggerId → TriggerId
  self : σ → σ
  injective : Function.Injective ids
  name : ∀ s, Structure.name (self s) = Structure.name s
  priority : ∀ s, Structure.priority (self s) = Structure.priority s
  act : ∀ phase path s,
    Action.Renamed ids self (Structure.act phase path s) (Structure.act phase path (self s))

theorem Action.Renamed.refl : ∀ action : Action σ, Renamed id id action action
  | .finish verdict s => .finish verdict s
  | .bind trigger next => .bind trigger fun answer => refl (next answer)
  | .release id next => .release id fun answer => refl (next answer)
  | .enroll script next => by
    have hscript : script.map id = script := by rw [Script.map, List.map_id]
    have henroll := Renamed.enroll script fun answer => refl (next answer)
    rwa [hscript] at henroll
  | .look next => .look fun router => by
    have hrouter : router.renamed id = router := Router.renamed_of_kept fun _ _ => rfl
    rw [hrouter]
    exact refl (next router)
  | .remark line next => .remark line (refl next)

/-- No structure is excluded as long as the identities stay. -/
instance [Structure σ] : Inhabited (Renaming σ) where
  default := ⟨id, id, Function.injective_id, fun _ => rfl, fun _ => rfl, fun _ _ _ => .refl _⟩

/-- Handlers do not care what their triggers are told by. -/
def Handler.renaming (ids : TriggerId → TriggerId) (hids : Function.Injective ids) :
    Renaming Handler where
  ids := ids
  self handler := { handler with trigger := handler.trigger.renamed ids }
  injective := hids
  name _ := rfl
  priority _ := rfl
  act phase _ handler := by
    cases phase with
    | load =>
      refine .bind handler.trigger fun answer => ?_
      cases answer <;> exact .finish _ _
    | unload => exact .release handler.trigger.id fun _ => .finish _ _
    | preLoad | postLoad | postUnload | execute => exact .finish _ _

/-! ## Scripts and the registry -/

/-- The place of a script depends on its path only. -/
theorem Registry.ordered_insert_map (f : σ → σ) (script : Script σ) : ∀ scripts : List (Script σ),
    Ordered.insert (fun a b => Path.keyCompare a.path b.path) (script.map f)
        (scripts.map (Script.map f))
      = (Ordered.insert (fun a b => Path.keyCompare a.path b.path) script scripts).map (Script.map f)
  | [] => rfl
  | other :: rest => by
    have ih := ordered_insert_map f script rest
    have hpath : (script.map f).path = script.path ∧ (other.map f).path = other.path := ⟨rfl, rfl⟩
    simp only [List.map_cons, Ordered.insert, hpath]
    cases Path.keyCompare script.path other.path with
    | lt | eq => rfl
    | gt => simp [ih]

namespace Registry

/-- The registry with the structures of its scripts mapped. -/
def map (f : σ → σ) (registry : Registry σ) : Registry σ :=
  { registry with loaded := registry.loaded.map (Script.map f) }

variable (f : σ → σ) (registry : Registry σ)

/-- Scripts whose structures stay as they are do so as well. -/
theorem map_of_kept {registry : Registry σ}
    (h : ∀ script ∈ registry.loaded, ∀ s ∈ script.structures, f s = s) :
    registry.map f = registry := by
  have hscript : ∀ script ∈ registry.loaded, script.map f = script := by
    intro script hmem
    simp only [Script.map, List.map_congr_left (h script hmem), List.map_id']
  simp only [map, List.map_congr_left hscript, List.map_id']

theorem census_map : (registry.map f).census = registry.census := by
  simp only [census, loadedPaths, map, List.map_map]
  rfl

theorem isLoaded_map (path : Path) : (registry.map f).isLoaded path = registry.isLoaded path := by
  simp only [isLoaded, script?, map, List.find?_map, Option.isSome_map]
  rfl

theorem insert_map (script : Script σ) :
    (registry.map f).insert (script.map f) = (registry.insert script).map (map f) := by
  have hpath : (script.map f).path = script.path := rfl
  unfold insert
  rw [hpath, isLoaded_map]
  split
  · rfl
  · simp only [map, ordered_insert_map]
    rfl

end Registry

/-! ## Members of a batch -/

namespace Member

variable (f : σ → σ)

/-- The member with its structure mapped. -/
def map (m : Member σ) : Member σ := { m with self := f m.self }

theorem ofBatch_map (scripts : List (Script σ)) :
    ofBatch (scripts.map (Script.map f)) = (ofBatch scripts).map (map f) := by
  simp only [ofBatch, List.zipIdx_map, List.flatMap_map, List.map_flatMap, Prod.map_fst,
    Prod.map_snd, Script.map, List.map_map]
  rfl

theorem byPriority_map [Structure σ]
    (hf : ∀ s, Structure.priority (f s) = Structure.priority s) (members : List (Member σ)) :
    byPriority (members.map (map f)) = (byPriority members).map (map f) := by
  refine (List.map_mergeSort fun a _ b _ => ?_).symm
  simp only [map, hf]

theorem toBatch_map (members : List (Member σ)) (scripts : List (Script σ)) :
    toBatch (members.map (map f)) (scripts.map (Script.map f))
      = (toBatch members scripts).map (Script.map f) := by
  simp only [toBatch, List.zipIdx_map, List.map_map]
  refine List.map_congr_left fun indexed _ => ?_
  have hsort : ∀ own : List (Member σ), (own.map (map f)).mergeSort (fun a b => a.place ≤ b.place)
      = (own.mergeSort fun a b => a.place ≤ b.place).map (map f) := by
    intro own
    refine (List.map_mergeSort fun a _ b _ => ?_).symm
    rfl
  simp only [Function.comp_def, Prod.map, Script.map, List.filter_map, hsort, List.map_map]
  rfl

end Member

/-! ## Occurrences -/

namespace Occurrence

/-- The occurrence with other identities. -/
def renamed (ids : TriggerId → TriggerId) : Occurrence → Occurrence
  | bound trigger id => bound trigger (ids id)
  | released id => released (ids id)
  | executed id => executed (ids id)
  | o => o

theorem map_renamed_host (ids : TriggerId → TriggerId) (calls : List HostCall) :
    (calls.map Occurrence.host).map (renamed ids) = calls.map Occurrence.host := by
  rw [List.map_map]
  rfl

end Occurrence

/-! ## Runtimes -/

namespace Runtime

variable [Structure σ]

/-- From where they have started, the same has happened to both runtimes but for the identities, and
they are the same now but for the identities. -/
structure Renames (ρ : Renaming σ) (before before' : List Occurrence) (rt rt' : Runtime σ) : Prop where
  router : rt'.router = rt.router.renamed ρ.ids
  registry : rt'.registry = rt.registry.map ρ.self
  trace : ∃ os, rt.trace = before ++ os ∧ rt'.trace = before' ++ os.map (Occurrence.renamed ρ.ids)

/-- Two results are the same but for the identities: the runtimes, and the values but for `f`. -/
structure Alike {α : Type} (ρ : Renaming σ) (before before' : List Occurrence) (f : α → α)
    (out out' : Runtime σ × α) : Prop where
  runtime : Renames ρ before before' out.1 out'.1
  value : out'.2 = f out.2

variable {ρ : Renaming σ} {before before' : List Occurrence} {rt rt' : Runtime σ}

namespace Renames

theorem census (h : Renames ρ before before' rt rt') :
    rt'.registry.census = rt.registry.census := by
  rw [h.registry, Registry.census_map]

theorem record (h : Renames ρ before before' rt rt') (os : List Occurrence) :
    Renames ρ before before' (rt.record os) (rt'.record (os.map (Occurrence.renamed ρ.ids))) := by
  obtain ⟨since, hrt, hrt'⟩ := h.trace
  refine ⟨h.router, h.registry, since ++ os, ?_, ?_⟩
  · rw [← List.append_assoc, ← hrt]
    rfl
  · rw [List.map_append, ← List.append_assoc, ← hrt']
    rfl

/-- Occurrences without identities are the same for both. -/
theorem recordSame (h : Renames ρ before before' rt rt') (os : List Occurrence)
    (hos : os.map (Occurrence.renamed ρ.ids) = os) :
    Renames ρ before before' (rt.record os) (rt'.record os) := by
  have hrecord := h.record os
  rwa [hos] at hrecord

theorem report (h : Renames ρ before before' rt rt') (problem : Problem) :
    Renames ρ before before' (rt.report problem) (rt'.report problem) := by
  unfold Runtime.report
  rw [h.census]
  exact h.recordSame _ rfl

theorem bind (h : Renames ρ before before' rt rt') (trigger : Trigger) :
    Alike ρ before before' id (rt.bind trigger) (rt'.bind (trigger.renamed ρ.ids)) := by
  unfold Runtime.bind
  rw [h.router, Router.bind_renamed ρ.injective]
  cases rt.router.bind trigger with
  | error e => exact ⟨h, rfl⟩
  | ok out =>
    have hbound : Renames ρ before before' { rt with router := out.1 }
        { rt' with router := out.1.renamed ρ.ids } := ⟨rfl, h.registry, h.trace⟩
    have hrecord := hbound.record (out.2.map Occurrence.host ++ [.bound trigger.name trigger.id])
    rw [List.map_append, Occurrence.map_renamed_host] at hrecord
    exact ⟨hrecord, rfl⟩

theorem release (h : Renames ρ before before' rt rt') (id : TriggerId) :
    Alike ρ before before' (fun found => found) (rt.release id) (rt'.release (ρ.ids id)) := by
  unfold Runtime.release
  rw [h.router, Router.release_renamed ρ.injective]
  obtain ⟨router, calls, found⟩ := rt.router.release id
  have hreleased : Renames ρ before before' { rt with router }
      { rt' with router := router.renamed ρ.ids } := ⟨rfl, h.registry, h.trace⟩
  have hrecord := hreleased.record
    (calls.map Occurrence.host ++ if found then [.released id] else [])
  rw [List.map_append, Occurrence.map_renamed_host] at hrecord
  refine ⟨?_, rfl⟩
  cases found <;> exact hrecord

theorem enter (h : Renames ρ before before' rt rt') (script : Script σ) :
    Alike ρ before before' id (rt.enter script) (rt'.enter (script.map ρ.self)) := by
  unfold Runtime.enter
  rw [h.registry, Registry.insert_map]
  cases rt.registry.insert script with
  | error violation => exact ⟨h, rfl⟩
  | ok registry =>
    have hentered : Renames ρ before before' { rt with registry }
        { rt' with registry := registry.map ρ.self } := ⟨h.router, rfl, h.trace⟩
    exact ⟨hentered.recordSame [.entered script.path] rfl, rfl⟩

/-- **The same action** comes to the same. -/
theorem perform {action action' : Action σ} (ha : Action.Renamed ρ.ids ρ.self action action') :
    ∀ {rt rt' : Runtime σ}, Renames ρ before before' rt rt' →
    Alike ρ before before' (fun out => (out.1, ρ.self out.2)) (rt.perform action) (rt'.perform action') := by
  induction ha with
  | finish verdict s => exact fun h => ⟨h, rfl⟩
  | bind trigger _ ih =>
    intro rt rt' h
    obtain ⟨hbind, hanswer⟩ := h.bind trigger
    simp only [Runtime.perform, hanswer]
    exact ih _ hbind
  | release id _ ih =>
    intro rt rt' h
    obtain ⟨hrelease, hanswer⟩ := h.release id
    simp only [Runtime.perform, hanswer]
    exact ih _ hrelease
  | enroll script _ ih =>
    intro rt rt' h
    obtain ⟨henter, hanswer⟩ := h.enter script
    simp only [Runtime.perform, hanswer]
    exact ih _ henter
  | look _ ih =>
    intro rt rt' h
    simp only [Runtime.perform, h.router]
    exact ih _ h
  | remark remark _ ih => exact fun h => ih (h.recordSame [.remarked remark] rfl)

theorem call (h : Renames ρ before before' rt rt') (phase : Phase) (path : Path) (s : σ) :
    Alike ρ before before' (fun out => (out.1, ρ.self out.2)) (rt.call phase path s)
      (rt'.call phase path (ρ.self s)) := by
  have hcalled := h.recordSame [.called phase path (Structure.name s) rt.registry.census] rfl
  have hacted := perform (ρ.act phase path s) hcalled
  unfold Runtime.call
  simp only [ρ.name, h.census]
  generalize (rt.record _).perform _ = acted at hacted ⊢
  generalize (rt'.record _).perform _ = acted' at hacted ⊢
  obtain ⟨rt₁, verdict, s₁⟩ := acted
  obtain ⟨rt₁', verdict', s₁'⟩ := acted'
  obtain ⟨hperform, hresult⟩ := hacted
  cases hresult
  -- the verdict is the same, and so is what is reported of it
  cases verdict with
  | error fault => exact ⟨hperform.report _, rfl⟩
  | ok stays =>
    simp only
    split
    · exact ⟨hperform, rfl⟩
    · exact ⟨hperform.report _, rfl⟩

/-! ## Activation -/

theorem preLoadMembers : ∀ (members : List (Member σ)) {rt rt' : Runtime σ},
    Renames ρ before before' rt rt' →
    Alike ρ before before' (List.map (Member.map ρ.self)) (rt.preLoadMembers members)
      (rt'.preLoadMembers (members.map (Member.map ρ.self)))
  | [], _, _, h => ⟨h, rfl⟩
  | m :: rest, rt, rt', h => by
    obtain ⟨hcall, hresult⟩ := h.call .preLoad m.path m.self
    obtain ⟨hrest, hmembers⟩ := preLoadMembers rest hcall
    simp only [List.map_cons, Runtime.preLoadMembers, Member.map, hresult]
    refine ⟨hrest, ?_⟩
    simp only [hmembers]
    cases (rt.call .preLoad m.path m.self).2.1 <;> rfl

theorem preLoad (h : Renames ρ before before' rt rt') (scripts : List (Script σ)) :
    Alike ρ before before' (List.map (Script.map ρ.self)) (rt.preLoad scripts)
      (rt'.preLoad (scripts.map (Script.map ρ.self))) := by
  obtain ⟨hcalls, hmembers⟩ := h.preLoadMembers (Member.byPriority (Member.ofBatch scripts))
  rw [← Member.byPriority_map ρ.self ρ.priority, ← Member.ofBatch_map] at hcalls hmembers
  refine ⟨hcalls, ?_⟩
  simp only [Runtime.preLoad, hmembers, Member.toBatch_map]

theorem loadStructures (path : Path) : ∀ (structures : List σ) {rt rt' : Runtime σ},
    Renames ρ before before' rt rt' →
    Alike ρ before before' (List.map ρ.self) (rt.loadStructures path structures)
      (rt'.loadStructures path (structures.map ρ.self))
  | [], _, _, h => ⟨h, rfl⟩
  | s :: rest, rt, rt', h => by
    obtain ⟨hcall, hresult⟩ := h.call .load path s
    obtain ⟨hrest, hstructures⟩ := loadStructures path rest hcall
    simp only [List.map_cons, Runtime.loadStructures, hresult]
    refine ⟨hrest, ?_⟩
    simp only [hstructures]
    cases (rt.call .load path s).2.1 <;> rfl

theorem postLoadStructures (path : Path) : ∀ (structures : List σ) {rt rt' : Runtime σ},
    Renames ρ before before' rt rt' →
    Alike ρ before before' (List.map ρ.self) (rt.postLoadStructures path structures)
      (rt'.postLoadStructures path (structures.map ρ.self))
  | [], _, _, h => ⟨h, rfl⟩
  | s :: rest, rt, rt', h => by
    have hcall := h.call .postLoad path s
    simp only [List.map_cons, Runtime.postLoadStructures]
    generalize rt.call .postLoad path s = called at hcall ⊢
    generalize rt'.call .postLoad path (ρ.self s) = called' at hcall ⊢
    obtain ⟨rt₁, stays, s₁⟩ := called
    obtain ⟨rt₁', stays', s₁'⟩ := called'
    obtain ⟨hcall, hresult⟩ := hcall
    cases hresult
    cases stays with
    | true =>
      obtain ⟨hrest, hstructures⟩ := postLoadStructures path rest hcall
      exact ⟨hrest, congrArg (ρ.self s₁ :: ·) hstructures⟩
    | false =>
      -- the structure is unloaded at once
      obtain ⟨hunload, hself⟩ := hcall.call .unload path s₁
      obtain ⟨hpostUnload, -⟩ := hunload.call .postUnload path (rt₁.call .unload path s₁).2.2
      simp only [hself]
      exact postLoadStructures path rest hpostUnload

/-- A phase that comes to the same for every script does so for the batch. -/
theorem eachScript {phase : Runtime σ → Path → List σ → Runtime σ × List σ}
    (hphase : ∀ (path : Path) (structures : List σ) {rt rt' : Runtime σ},
      Renames ρ before before' rt rt' →
      Alike ρ before before' (List.map ρ.self) (phase rt path structures)
        (phase rt' path (structures.map ρ.self))) :
    ∀ (scripts : List (Script σ)) {rt rt' : Runtime σ}, Renames ρ before before' rt rt' →
    Alike ρ before before' (List.map (Script.map ρ.self)) (Runtime.eachScript phase rt scripts)
      (Runtime.eachScript phase rt' (scripts.map (Script.map ρ.self)))
  | [], _, _, h => ⟨h, rfl⟩
  | script :: rest, rt, rt', h => by
    obtain ⟨hscript, hstructures⟩ := hphase script.path script.structures h
    obtain ⟨hrest, hscripts⟩ := eachScript hphase rest hscript
    simp only [List.map_cons, Runtime.eachScript, Script.map, hstructures]
    refine ⟨hrest, ?_⟩
    rw [List.map_cons, ← hscripts]
    rfl

/-- **Activation** comes to the same. -/
theorem activate (h : Renames ρ before before' rt rt') (scripts : List (Script σ)) :
    Alike ρ before before' (List.map (Script.map ρ.self)) (rt.activate scripts)
      (rt'.activate (scripts.map (Script.map ρ.self))) := by
  obtain ⟨hpre, hpreLoaded⟩ := h.preLoad scripts
  obtain ⟨hload, hloaded⟩ := eachScript loadStructures (rt.preLoad scripts).2 hpre
  rw [← hpreLoaded] at hload hloaded
  obtain ⟨hpost, hpostLoaded⟩ := eachScript postLoadStructures _ hload
  rw [← hloaded] at hpost hpostLoaded
  exact ⟨hpost, hpostLoaded⟩

/-! ## The end of a batch -/

theorem enterAll : ∀ (scripts : List (Script σ)) {rt rt' : Runtime σ},
    Renames ρ before before' rt rt' →
    Alike ρ before before' id (rt.enterAll scripts)
      (rt'.enterAll (scripts.map (Script.map ρ.self)))
  | [], _, _, h => ⟨h, rfl⟩
  | script :: rest, rt, rt', h => by
    have henter := h.enter script
    have hlength : (script.map ρ.self).structures.length = script.structures.length :=
      List.length_map ..
    simp only [List.map_cons, Runtime.enterAll, Script.tally, hlength]
    generalize rt.enter script = entered at henter ⊢
    generalize rt'.enter (script.map ρ.self) = entered' at henter ⊢
    obtain ⟨rt₁, answer⟩ := entered
    obtain ⟨rt₁', answer'⟩ := entered'
    obtain ⟨henter, hanswer⟩ := henter
    cases hanswer
    cases answer with
    | error violation => exact enterAll rest (henter.report (.violated violation))
    | ok _ =>
      obtain ⟨hrest, htally⟩ := enterAll rest
        (henter.recordSame [.scriptLoaded script.path script.structures.length] rfl)
      exact ⟨hrest, congrArg (⟨1, script.structures.length⟩ + ·) htally⟩

end Renames

/-- A scope that never fails has no part in how a batch ends. -/
theorem finish_untroubled {scope : Scope} (hs : scope.Untroubled) (rt : Runtime σ)
    (scripts : List (Script σ)) (use : ScopeUse) :
    rt.finish scope scripts use =
      let activated := (rt.record [.activating, .scopeOpened]).activate scripts
      let entered := (activated.1.record [.scopeClosed]).enterAll activated.2
      (entered.1.record [.batchLoaded entered.2], .ok entered.2) := by
  simp only [finish, Scope.openOnce, Scope.closeOnce, hs.opens, hs.closes]

/-- **The end of a batch** comes to the same, in a scope that never fails. -/
theorem Renames.finish {scope : Scope} (hs : scope.Untroubled)
    (h : Renames ρ before before' rt rt') (scripts : List (Script σ)) (use use' : ScopeUse) :
    Alike ρ before before' id (rt.finish scope scripts use)
      (rt'.finish scope (scripts.map (Script.map ρ.self)) use') := by
  have hactivate := (h.recordSame [.activating, .scopeOpened] rfl).activate scripts
  rw [finish_untroubled hs, finish_untroubled hs]
  generalize (rt.record _).activate scripts = activated at hactivate ⊢
  generalize (rt'.record _).activate (scripts.map _) = activated' at hactivate ⊢
  obtain ⟨rt₁, kept⟩ := activated
  obtain ⟨rt₁', kept'⟩ := activated'
  obtain ⟨hactivate, hkept⟩ := hactivate
  cases hkept
  obtain ⟨henter, htally⟩ := enterAll kept (hactivate.recordSame [.scopeClosed] rfl)
  simp only [htally]
  exact ⟨henter.recordSame [.batchLoaded _] rfl, rfl⟩

end Runtime

end EventScripts
