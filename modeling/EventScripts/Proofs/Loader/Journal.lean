import EventScripts.Proofs.Loader.Kept
import EventScripts.Proofs.Loader.Members
/-!
# The journal of an activation

A phase calls members one after another, each in the runtime that the one before
has left. The journal is the list of these calls, and everything about a phase
can be read off it: how the runtime is afterwards (`Linked`), and which members
stay, as they are by then (`staying`). A `postLoad` that turns a member away
brings two calls with it, which unload the member.
-/

namespace EventScripts

/-- A call: its phase, the member as it is when it is called, and the runtime before. -/
structure Call (σ : Type) where
  phase : Phase
  member : Member σ
  before : Runtime σ

namespace Call

variable {σ : Type} [Structure σ]

def outcome (c : Call σ) : Runtime σ × Bool × σ :=
  c.before.call c.phase c.member.path c.member.self

/-- The runtime after the call. -/
def after (c : Call σ) : Runtime σ := c.outcome.1

def accepted (c : Call σ) : Bool := c.outcome.2.1

/-- The member as the call leaves it. -/
def next (c : Call σ) : Member σ := { c.member with self := c.outcome.2.2 }

/-- The call for `unload` that follows a call. -/
def unloading (c : Call σ) : Call σ := ⟨.unload, c.next, c.after⟩

/-- The call for `postUnload` that follows the one for `unload`. -/
def finishing (c : Call σ) : Call σ := ⟨.postUnload, c.unloading.next, c.unloading.after⟩

/-- The call is a `postLoad` that turns its member away. -/
def refuses (c : Call σ) : Bool := c.phase == .postLoad && !c.accepted

/-- A call with the calls that it brings with it. -/
def whole (c : Call σ) : List (Call σ) :=
  if c.refuses then [c, c.unloading, c.finishing] else [c]

/-- The calls of an activation, with the unloading of what `postLoad` turns away. -/
def journal (pre load post : List (Call σ)) : List (Call σ) := pre ++ load ++ post.flatMap whole

/-- The runtime after a call and the calls that it brings with it. -/
def done (c : Call σ) : Runtime σ := if c.refuses then c.finishing.after else c.after

/-- The calls of a phase. -/
def ofPhase (phase : Phase) (rt : Runtime σ) : List (Member σ) → List (Call σ)
  | [] => []
  | m :: rest => ⟨phase, m, rt⟩ :: ofPhase phase (done ⟨phase, m, rt⟩) rest

/-- The runtime after calls. -/
def endOf (rt : Runtime σ) (calls : List (Call σ)) : Runtime σ := calls.foldl (fun _ c => c.done) rt

/-- The members that calls leave in place, as they are by then. -/
def staying (calls : List (Call σ)) : List (Member σ) := (calls.filter accepted).map next

/-- The calls follow each other from one runtime to another. -/
def Linked (rt : Runtime σ) : List (Call σ) → Runtime σ → Prop
  | [], last => rt = last
  | c :: rest, last => c.before = rt ∧ Linked c.after rest last

theorem linked_append {calls more : List (Call σ)} {rt mid last : Runtime σ}
    (h : Linked rt calls mid) (hm : Linked mid more last) : Linked rt (calls ++ more) last := by
  induction calls generalizing rt with
  | nil =>
    cases h
    exact hm
  | cons c rest ih => exact ⟨h.1, ih h.2⟩

theorem linked_whole (c : Call σ) : Linked c.before c.whole c.done := by
  unfold whole done
  split
  · exact ⟨rfl, rfl, rfl, rfl⟩
  · exact ⟨rfl, rfl⟩

theorem eq_of_linked_whole {c : Call σ} {rt last : Runtime σ} (h : Linked rt c.whole last) :
    c.before = rt ∧ c.done = last := by
  unfold whole at h
  unfold done
  split at h
  · next hr =>
    rw [if_pos hr]
    exact ⟨h.1, h.2.2.2⟩
  · next hr =>
    rw [if_neg hr]
    exact h

/-- The calls of a phase follow each other. -/
theorem linked_ofPhase (phase : Phase) : ∀ (rt : Runtime σ) (ms : List (Member σ)),
    Linked rt ((ofPhase phase rt ms).flatMap whole) (endOf rt (ofPhase phase rt ms))
  | _, [] => rfl
  | rt, m :: rest => by
    rw [ofPhase, List.flatMap_cons]
    exact linked_append (linked_whole ⟨phase, m, rt⟩) (linked_ofPhase phase _ rest)

/-- What structures keep is kept by calls in sequence. -/
theorem kept_linked {P : Runtime σ → Prop} (hk : Runtime.Kept P) : ∀ {calls : List (Call σ)}
    {rt last : Runtime σ}, Linked rt calls last → P rt → P last
  | [], _, _, h, hp => by
    cases h
    exact hp
  | c :: _, _, _, ⟨hb, h⟩, hp => by
    subst hb
    exact kept_linked hk h (hk.call c.phase c.member.path c.member.self hp)

theorem map_member_ofPhase (phase : Phase) : ∀ (rt : Runtime σ) (ms : List (Member σ)),
    (ofPhase phase rt ms).map member = ms
  | _, [] => rfl
  | _, m :: rest => by rw [ofPhase, List.map_cons, map_member_ofPhase]

theorem member_mem_of_mem_ofPhase {phase : Phase} {rt : Runtime σ} {ms : List (Member σ)}
    {c : Call σ} (h : c ∈ ofPhase phase rt ms) : c.member ∈ ms := by
  have hmem : c.member ∈ (ofPhase phase rt ms).map member := List.mem_map_of_mem h
  rwa [map_member_ofPhase] at hmem

theorem phase_of_mem_ofPhase {phase : Phase} {c : Call σ} : ∀ {rt : Runtime σ}
    {ms : List (Member σ)}, c ∈ ofPhase phase rt ms → c.phase = phase
  | _, [], h => by cases h
  | _, m :: rest, h => by
    rcases List.mem_cons.1 h with rfl | h
    · rfl
    · exact phase_of_mem_ofPhase h

theorem ofPhase_append (phase : Phase) : ∀ (rt : Runtime σ) (front back : List (Member σ)),
    ofPhase phase rt (front ++ back)
      = ofPhase phase rt front ++ ofPhase phase (endOf rt (ofPhase phase rt front)) back
  | _, [], _ => rfl
  | rt, m :: front, back => by
    simp only [List.cons_append, ofPhase]
    rw [ofPhase_append phase _ front back]
    rfl

theorem endOf_append (rt : Runtime σ) (calls more : List (Call σ)) :
    endOf rt (calls ++ more) = endOf (endOf rt calls) more := List.foldl_append

theorem staying_append (calls more : List (Call σ)) :
    staying (calls ++ more) = staying calls ++ staying more := by
  simp [staying]

theorem staying_cons (c : Call σ) (calls : List (Call σ)) :
    staying (c :: calls) = if c.accepted then c.next :: staying calls else staying calls := by
  unfold staying
  rw [List.filter_cons]
  split <;> rfl

/-- Only a `postLoad` brings other calls with it. -/
theorem flatMap_whole_of_ne {calls : List (Call σ)} (h : ∀ c ∈ calls, c.phase ≠ .postLoad) :
    calls.flatMap whole = calls := by
  induction calls with
  | nil => rfl
  | cons c rest ih =>
    have hc : c.whole = [c] := by simp [whole, refuses, h c (by simp)]
    rw [List.flatMap_cons, hc, ih fun c hc => h c (by simp [hc])]
    rfl

/-- What stays is what was called, as the call leaves it. -/
theorem mem_staying {calls : List (Call σ)} {m : Member σ} (h : m ∈ staying calls) :
    ∃ c ∈ calls, m = c.next := by
  obtain ⟨c, hc, rfl⟩ := List.mem_map.1 h
  exact ⟨c, (List.mem_filter.1 hc).1, rfl⟩

/-- It belongs to the script that it belonged to when it was called. -/
theorem belongsTo_staying {scripts : List (Script σ)} {calls : List (Call σ)}
    (h : ∀ m ∈ calls.map member, m.BelongsTo scripts) :
    ∀ m ∈ staying calls, m.BelongsTo scripts := by
  intro m hm
  obtain ⟨c, hc, rfl⟩ := mem_staying hm
  exact h c.member (List.mem_map_of_mem hc)

/-- What stays is in the order of what was called, and at the same places. -/
theorem staying_sublist {β : Type} (f : Member σ → β)
    (hf : ∀ (m : Member σ) self, f { m with self } = f m) (calls : List (Call σ)) :
    ((staying calls).map f).Sublist ((calls.map member).map f) := by
  have hn : f ∘ next = f ∘ member := funext fun c => hf c.member _
  rw [staying, List.map_map, List.map_map, hn]
  exact List.filter_sublist.map _

/-- Members that stay are in order if those called were. -/
theorem pairwise_staying {calls : List (Call σ)}
    (h : (calls.map member).Pairwise Member.Precedes) :
    (staying calls).Pairwise Member.Precedes := by
  have hslots : ((calls.map member).map Member.slot).Pairwise
      fun a b => a.1 < b.1 ∨ a.1 = b.1 ∧ a.2 < b.2 := List.pairwise_map.2 h
  have hstay := hslots.sublist (staying_sublist Member.slot (fun _ _ => rfl) calls)
  rwa [List.pairwise_map] at hstay

end Call

/-! ## The phases -/

namespace Runtime

variable {σ : Type} [Structure σ]

theorem preLoadMembers_eq : ∀ (rt : Runtime σ) (ms : List (Member σ)),
    rt.preLoadMembers ms
      = (Call.endOf rt (Call.ofPhase .preLoad rt ms), Call.staying (Call.ofPhase .preLoad rt ms))
  | _, [] => rfl
  | rt, m :: rest => by
    simp only [preLoadMembers, Call.ofPhase, Call.staying_cons]
    rw [preLoadMembers_eq]
    rfl

/-- What a phase does with the structures of one script, seen as calls of members. -/
def Visits (phase : Phase) (visit : Runtime σ → Path → List σ → Runtime σ × List σ) : Prop :=
  ∀ (rt : Runtime σ) (path : Path) (ms : List (Member σ)), (∀ m ∈ ms, m.path = path) →
    visit rt path (ms.map (·.self))
      = (Call.endOf rt (Call.ofPhase phase rt ms),
        (Call.staying (Call.ofPhase phase rt ms)).map (·.self))

theorem visits_loadStructures : Visits (σ := σ) .load loadStructures
  | _, _, [], _ => rfl
  | rt, path, m :: rest, h => by
    have hm : m.path = path := h m (by simp)
    have hrest := visits_loadStructures (rt.call .load path m.self).1 path rest
      fun m hm => h m (by simp [hm])
    subst hm
    simp only [List.map_cons, loadStructures, Call.ofPhase, Call.staying_cons]
    rw [hrest]
    refine Prod.ext rfl ?_
    simp only [apply_ite (List.map _), List.map_cons]
    rfl

theorem visits_postLoadStructures : Visits (σ := σ) .postLoad postLoadStructures
  | _, _, [], _ => rfl
  | rt, path, m :: rest, h => by
    have hm : m.path = path := h m (by simp)
    have hrest := fun rt : Runtime σ => visits_postLoadStructures rt path rest
      fun m hm => h m (by simp [hm])
    subst hm
    simp only [List.map_cons, postLoadStructures, Call.ofPhase, Call.staying_cons]
    split
    · next rt' self heq =>
      have ha : (Call.mk .postLoad m rt).accepted = true := by
        simp [Call.accepted, Call.outcome, heq]
      have hd : (Call.mk .postLoad m rt).done = rt' := by
        simp [Call.done, Call.refuses, ha, Call.after, Call.outcome, heq]
      have hn : (Call.mk .postLoad m rt).next.self = self := by
        simp [Call.next, Call.outcome, heq]
      simp only [ha, if_true, List.map_cons, hn, hd]
      rw [hrest]
      refine Prod.ext ?_ rfl
      show _ = Call.endOf (Call.mk .postLoad m rt).done _
      rw [hd]
    · next rt' self heq =>
      have ha : (Call.mk .postLoad m rt).accepted = false := by
        simp [Call.accepted, Call.outcome, heq]
      have hd : (Call.mk .postLoad m rt).done = (Call.mk .postLoad m rt).finishing.after := by
        simp [Call.done, Call.refuses, ha]
      have hf : (Call.mk .postLoad m rt).finishing.after
          = ((rt'.call .unload m.path self).1.call .postUnload m.path
            (rt'.call .unload m.path self).2.2).1 := by
        simp [Call.finishing, Call.unloading, Call.after, Call.next, Call.outcome, heq]
      rw [← hf, hrest]
      simp only [ha, Bool.false_eq_true, if_false, hd]
      refine Prod.ext ?_ rfl
      show _ = Call.endOf (Call.mk .postLoad m rt).done _
      rw [hd]

end Runtime

end EventScripts
