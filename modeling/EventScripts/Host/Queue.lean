import EventScripts.Host.Basic
/-!
# Working off the queue

Envelopes are handled in the order of the queue; a reload that one of them asks
for is served before the next. Handling may add envelopes, but only
announcements, which add nothing themselves: so the queue runs empty.

`SPEC_FULL.md` §10.6 (Runner): the channel of `ScriptHost`, and `Shutdown`.
-/

namespace EventScripts.Host

variable {σ : Type}

/-- How much work is left that may add envelopes. -/
def pending (host : Host σ) : Nat :=
  (host.queue.filter Envelope.isProductive).length + if host.reloadRequested then 1 else 0

theorem filter_productive_envelopesOf (o : Occurrence) :
    (envelopesOf o).filter Envelope.isProductive = [] := by
  unfold envelopesOf
  split
  · split <;> rfl
  all_goals rfl

/-- What comes back from the runtime adds no work that may add envelopes. -/
theorem pending_take (host : Host σ) (rt : Runtime σ) : (host.take rt).pending = host.pending := by
  have h : (rt.trace.flatMap envelopesOf).filter Envelope.isProductive = [] := by
    rw [List.filter_flatMap]
    simp [filter_productive_envelopesOf]
  show (List.filter _ (host.queue ++ _)).length + _ = _
  rw [List.filter_append, h, List.append_nil]
  rfl

theorem pending_deliverAt (event : Event) (tiers : List Tier) (host : Host σ) :
    (host.deliverAt event tiers).1.pending = host.pending := by
  induction tiers generalizing host with
  | nil => rfl
  | cons tier rest ih =>
    simp only [deliverAt]
    rw [ih, pending_take]

theorem pending_deliver (host : Host σ) (event : Event) :
    (host.deliver event).1.pending = host.pending := by
  unfold deliver
  split
  · rfl
  · exact pending_deliverAt ..

/-- An event whose triggers are run leaves no request behind. -/
theorem pending_handle_event (host : Host σ) (event : Event) :
    (host.handle (.event event)).pending = host.pending := by
  show ((host.deliver event).1.say _ _).pending = _
  rw [show ∀ (h : Host σ) l m, (h.say l m).pending = h.pending from fun _ _ _ => rfl,
    pending_deliver]

variable [Structure σ]

/-- Serving a reload takes the request away and adds none. -/
theorem pending_serveReload (host : Host σ) (env : Surroundings σ) :
    (host.serveReload env).pending = (host.queue.filter Envelope.isProductive).length := by
  have hsay : ∀ (h : Host σ) l m, (h.say l m).pending = h.pending := fun _ _ _ => rfl
  have key : ∀ h : Host σ, h.reloadRequested = false →
      ((h.reload env).1).pending = (h.queue.filter Envelope.isProductive).length := by
    intro h hr
    show (Host.take _ _).pending = _
    rw [pending_take]
    simp [pending, say, hr]
  unfold serveReload
  split
  · have hk := key { host with reloadRequested := false } rfl
    split
    all_goals
      next heq =>
        rw [heq] at hk
        exact hk
  · next h => simp [pending, h]

/-- Handles the envelope that was first in the queue, and serves a reload if that is due. -/
def handleNext (host : Host σ) (env : Surroundings σ) (envelope : Envelope) (rest : List Envelope) :
    Host σ :=
  ({ host with queue := rest }.handle envelope).serveReload env

/-- Each envelope leaves less work that may add envelopes, or as much and a shorter queue. -/
theorem handleNext_lt {host : Host σ} {env : Surroundings σ} {envelope : Envelope}
    {rest : List Envelope} (h : host.queue = envelope :: rest) :
    Prod.Lex (· < ·) (· < ·)
      ((host.handleNext env envelope rest).pending, (host.handleNext env envelope rest).queue.length)
      (host.pending, host.queue.length) := by
  have hp : ∀ (e : Envelope), e.isProductive = true → host.queue = e :: rest →
      host.pending = { host with queue := rest }.pending + 1 := by
    intro e he hq
    simp only [pending, hq, List.filter_cons, he, if_true, List.length_cons]
    omega
  have hle : ∀ k : Host σ, (k.serveReload env).pending ≤ k.pending := by
    intro k
    rw [pending_serveReload]
    exact Nat.le_add_right _ _
  have quiet : ∀ k : Host σ, envelope.isProductive = false →
      { host with queue := rest }.handle envelope = k → k.queue = rest →
      k.reloadRequested = host.reloadRequested →
      Prod.Lex (· < ·) (· < ·) ((k.serveReload env).pending, (k.serveReload env).queue.length)
        (host.pending, host.queue.length) := by
    intro k he _ hkq hkr
    have hpend : host.pending = k.pending := by
      simp only [pending, h, List.filter_cons, he, hkq, hkr]
      rfl
    by_cases hr : k.reloadRequested = true
    · refine Prod.Lex.left _ _ ?_
      rw [pending_serveReload, hpend]
      simp [pending, hr]
    · have : k.serveReload env = k := by simp [serveReload, hr]
      rw [this, hpend, hkq, h]
      exact Prod.Lex.right _ (by simp)
  unfold handleNext
  cases envelope with
  | event event =>
    refine Prod.Lex.left _ _ (Nat.lt_of_le_of_lt (hle _) ?_)
    rw [pending_handle_event, hp _ rfl h]
    exact Nat.lt_succ_self _
  | reload =>
    refine Prod.Lex.left _ _ ?_
    rw [pending_serveReload, hp _ rfl h]
    exact Nat.lt_succ_of_le (Nat.le_add_right _ _)
  | shutdown => exact quiet _ rfl rfl rfl rfl
  | loaded => exact quiet _ rfl rfl rfl rfl
  | unloaded => exact quiet _ rfl rfl rfl rfl
  | trouble => exact quiet _ rfl rfl rfl rfl

/-- Handles everything in the queue, including what comes into it meanwhile. -/
def drain (host : Host σ) (env : Surroundings σ) : Host σ :=
  match _ : host.queue with
  | [] => host
  | envelope :: rest => (host.handleNext env envelope rest).drain env
termination_by (host.pending, host.queue.length)
decreasing_by exact handleNext_lt ‹host.queue = envelope :: rest›

/-- Handles envelopes until one has asked to stop, or the queue is empty. -/
def serve (host : Host σ) (env : Surroundings σ) : Host σ :=
  match _ : host.queue with
  | [] => host
  | envelope :: rest =>
    if host.stopping then host else (host.handleNext env envelope rest).serve env
termination_by (host.pending, host.queue.length)
decreasing_by exact handleNext_lt ‹host.queue = envelope :: rest›

/-- Runs until an envelope asks to stop, and stops. -/
def run (host : Host σ) (env : Surroundings σ) : Host σ := (host.serve env).stop env.files

/-- Runs with a request from outside to stop that is there when the queue is empty. -/
def runUntilShutdown (host : Host σ) (env : Surroundings σ) : Host σ :=
  let host := host.serve env
  (if host.stopping then host else host.say .info "Shutdown requested").stop env.files

end EventScripts.Host
