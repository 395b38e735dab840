import EventScripts.Proofs.Host.Agreement
import EventScripts.Proofs.Loader.Fixpoint
/-!
# Reloading twice

A host that is reloaded again, while no file changes, comes to the same: the
result is the same, and so is everything that is loaded, disabled and bound, but
for the identities of the triggers, which are never given out again. It makes
no difference what has happened to the host before, nor whether it can find
again what it has once loaded (`reload_idempotent`). A fresh host that has been
loaded is reloaded in the same way.
-/

namespace EventScripts.Host

variable {catalog : Catalog} {grammar : Grammar Handler} {host : Host Handler}

theorem untroubled_default : ({} : Scope).Untroubled := ⟨fun _ => rfl, fun _ => rfl⟩

theorem invariant_numbered (catalog : Catalog) (hg : grammar.Faithful) :
    Invariant grammar (Runtime.Numbered catalog) where
  untraced _ h := h.congr rfl rfl rfl
  loading _ _ root h := Runtime.numbered_loadDirectory hg untroubled_default h root
  reloading _ _ root h := Runtime.numbered_reloadDirectory hg untroubled_default h root
  unloading files h := Runtime.numbered_unloadAll h files

theorem numbered_of_reachable (hg : grammar.Faithful) (h : Reachable catalog grammar host) :
    Runtime.Numbered catalog host.runtime :=
  (invariant_numbered catalog hg).of_reachable (Runtime.numbered_fresh catalog) h

/-- A host before its first step. -/
def fresh (catalog : Catalog) (scriptDir : Path) (workers : Nat) : Host Handler :=
  { runtime := { router := { catalog }, workers }, scriptDir }

/-- The second outcome is the first again: the result is the same, and the same scripts are loaded
and disabled and the same triggers bound, but for the identities of the triggers. -/
structure Repeats (first second : Host Handler × Except Interruption Tally) : Prop where
  result : second.2 = first.2
  state : ∃ ids, Runtime.Resembles ids first.1.runtime second.1.runtime

/-- What reloads in the same files come to. -/
structure Idempotent (catalog : Catalog) (grammar : Grammar Handler) (files : FileSystem) :
    Prop where
  /-- Whatever a host has gone through, a second reload comes to what the first has come to. -/
  reload : ∀ {host}, Reachable catalog grammar host → ∀ schedule schedule',
    Repeats (host.reload { grammar, files, schedule })
      ((host.reload { grammar, files, schedule }).1.reload
        { grammar, files, schedule := schedule' })
  /-- So does a reload of a fresh host that has been loaded. -/
  load : ∀ scriptDir workers schedule schedule',
    Repeats ((fresh catalog scriptDir workers).load { grammar, files, schedule })
      (((fresh catalog scriptDir workers).load { grammar, files, schedule }).1.reload
        { grammar, files, schedule := schedule' })

variable {env env' : Surroundings Handler}

/-- A host whose runtime has just loaded the script directory is reloaded. -/
theorem repeats_reload (hwf : env.files.WellFormed) (hg : env.grammar.Faithful)
    (hblind : ∀ ids : TriggerId → TriggerId, ∀ hids : Function.Injective ids,
      env.grammar.Blind (Handler.renaming ids hids))
    (hu : env.scope.Untroubled) (hu' : env'.scope.Untroubled)
    (hgrammar : env'.grammar = env.grammar) (hfiles : env'.files = env.files)
    {rt : Runtime Handler} (h : Runtime.Numbered catalog rt)
    (hreach : Runtime.OutOfReach env.files rt.registry) {first : Host Handler}
    {last : Runtime Handler} {result : Except Interruption Tally} {trace : List Occurrence}
    (hlast : (rt.loadDirectory env first.scriptDir).1 = last)
    (hresult : (rt.loadDirectory env first.scriptDir).2 = result)
    (hfirst : first.runtime = { last with trace }) :
    Repeats (first, result) (first.reload env') := by
  obtain ⟨hsame, ids, hresembles⟩ := Runtime.resembles_reloadDirectory hwf hg hblind hu hu'
    hgrammar hfiles h hreach first.scriptDir trace
  rw [hlast] at hsame hresembles
  rw [hresult] at hsame
  constructor
  case result =>
    show (first.runtime.reloadDirectory env' first.scriptDir).2 = _
    rw [hfirst]
    exact hsame
  case state =>
    refine ⟨ids, ?_⟩
    show Runtime.Resembles ids first.runtime
      { (first.runtime.reloadDirectory env' first.scriptDir).1 with trace := [] }
    rw [hfirst]
    exact ⟨hresembles.injective, hresembles.loaded, hresembles.disabled, hresembles.bound,
      hresembles.listening⟩

/-- What a host is reloaded to is what it would have been loaded to once everything is unloaded. -/
theorem repeats_reload_of_reachable (env env' : Surroundings Handler)
    (hwf : env.files.WellFormed) (hg : env.grammar.Faithful)
    (hblind : ∀ ids : TriggerId → TriggerId, ∀ hids : Function.Injective ids,
      env.grammar.Blind (Handler.renaming ids hids))
    (hu : env.scope.Untroubled) (hu' : env'.scope.Untroubled)
    (hgrammar : env'.grammar = env.grammar) (hfiles : env'.files = env.files)
    (h : Reachable catalog env.grammar host) :
    Repeats (host.reload env) ((host.reload env).1.reload env') := by
  obtain ⟨count, hreload⟩ := Runtime.exists_reloadDirectory host.runtime env host.scriptDir
  have heq : host.reload env
      = ((host.say .info s!"Reloading scripts from {host.scriptDir.text}").take
          (host.runtime.reloadDirectory env host.scriptDir).1,
        (host.runtime.reloadDirectory env host.scriptDir).2) := rfl
  rw [hreload] at heq
  rw [heq]
  exact repeats_reload hwf hg hblind hu hu' hgrammar hfiles
    (Runtime.numbered_unloadAll (numbered_of_reachable hg h) env.files)
    (Runtime.outOfReach_unloadAll keepsAloof_handler host.runtime env.files) rfl rfl rfl

theorem repeats_reload_of_load (env env' : Surroundings Handler) (hwf : env.files.WellFormed)
    (hg : env.grammar.Faithful)
    (hblind : ∀ ids : TriggerId → TriggerId, ∀ hids : Function.Injective ids,
      env.grammar.Blind (Handler.renaming ids hids)) (hu : env.scope.Untroubled)
    (hu' : env'.scope.Untroubled) (hgrammar : env'.grammar = env.grammar)
    (hfiles : env'.files = env.files) (scriptDir : Path) (workers : Nat) :
    Repeats ((fresh catalog scriptDir workers).load env)
      (((fresh catalog scriptDir workers).load env).1.reload env') := by
  have hnumbered := Runtime.numbered_fresh catalog workers
  have hreach : Runtime.OutOfReach env.files (fresh catalog scriptDir workers).runtime.registry :=
    nofun
  cases hexists : env.files.exists? scriptDir with
  | true =>
    rw [load_of_exists hexists]
    exact repeats_reload hwf hg hblind hu hu' hgrammar hfiles hnumbered hreach rfl rfl rfl
  | false =>
    -- nothing is done then, and loading would only have left records
    obtain ⟨os, hnone⟩ : ∃ os, (fresh catalog scriptDir workers).runtime.loadDirectory env scriptDir
        = ((fresh catalog scriptDir workers).runtime.record os, .ok {}) :=
      Runtime.exists_loadDirectory_missing hu rfl hexists
    have hload : (fresh catalog scriptDir workers).load env
        = ((fresh catalog scriptDir workers).say .warn
            s!"Script directory {scriptDir.text} does not exist, no scripts loaded", .ok {}) :=
      if_neg (by rw [fresh, hexists]; nofun)
    rw [hload]
    exact repeats_reload hwf hg hblind hu hu' hgrammar hfiles hnumbered hreach
      (congrArg Prod.fst hnone) (congrArg Prod.snd hnone) rfl

/-- **Reloading is idempotent**, in every state of a host with the demonstration grammar and with
whatever files lie in directories. -/
theorem reload_idempotent (catalog : Catalog) (files : FileSystem) (hwf : files.WellFormed) :
    Idempotent catalog Demo.grammar files := by
  have hblind : ∀ ids : TriggerId → TriggerId, ∀ hids : Function.Injective ids,
      Demo.grammar.Blind (Handler.renaming ids hids) := fun _ hids => Demo.blind_grammar hids
  constructor
  case reload =>
    intro host h schedule schedule'
    exact repeats_reload_of_reachable { grammar := Demo.grammar, files, schedule }
      { grammar := Demo.grammar, files, schedule := schedule' } hwf Demo.faithful_grammar hblind
      untroubled_default untroubled_default rfl rfl h
  case load =>
    intro scriptDir workers schedule schedule'
    exact repeats_reload_of_load { grammar := Demo.grammar, files, schedule }
      { grammar := Demo.grammar, files, schedule := schedule' } hwf Demo.faithful_grammar hblind
      untroubled_default untroubled_default rfl rfl scriptDir workers

/-- The host with one script is reloaded with it, and with it again. -/
theorem reload_idempotent_oneScript :
    (oneScript.WellFormed ∧
      ((fresh Demo.catalog ⟨"/a.sk"⟩ 0).load { grammar := Demo.grammar, files := oneScript }).2
        = .ok ⟨1, 1⟩) ∧
    Idempotent Demo.catalog Demo.grammar oneScript := by
  have hwf : oneScript.WellFormed :=
    FileSystem.wellFormed_of_entries (by decide) (by decide) nofun
  refine ⟨⟨hwf, ?_⟩, reload_idempotent Demo.catalog oneScript hwf⟩
  simp only [fresh, Host.load, Runtime.loadDirectory, Runtime.scan, discover_oneScript]
  cbv

end EventScripts.Host
