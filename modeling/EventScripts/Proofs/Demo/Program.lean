import EventScripts.Proofs.Demo.Rendering
import EventScripts.Proofs.Host.Delivery
import EventScripts.Proofs.Host.Reloading
/-!
# Demonstration scripts that run

A host that has loaded a script runs the sections of it as they are written: for
an event it runs those that are for its kind or an ancestor of that, the lowest
tier first and in the order of the file within a tier, and each of them logs its
lines up to the first `stop` (`runs_as_written`). Here all parts of a host meet:
the text is read as the blocks of the sections (`read_render`), these compile to
triggers, the batch binds them in the order of the file (`Runtime.loading_additions`),
the host listens wherever one is bound (`Host.synced_of_reached`), and what it
delivers runs those that are due (`Host.deliver_of_serves`).
-/

namespace EventScripts.Demo

/-! ## What is to run -/

/-- What lines log for an event: the first `stop` is the end. -/
def linesLog (name : String) (event : Event) (lines : List String) : List Log.Record :=
  (lines.takeWhile (· != "stop")).map fun line =>
    ⟨.info, "runner", s!"[{name}] " ++ interpolate line event⟩

/-- The section is for the kind of the event, or for an ancestor of it. -/
def Section.isFor (event : Event) (s : Section) : Bool :=
  s.kinds.any (catalog.isA event.kind ·)

/-- The sections to run for an event, in turn, each with its number in the file. -/
def dueSections (sections : List Section) (event : Event) : List (Section × TriggerId) :=
  if event.blocked && !catalog.listensBlocked event.kind then []
  else Tier.all.flatMap fun tier =>
    (sections.zipIdx 1).filter fun (s, _) => s.tier == tier && s.isFor event

/-- A run of a section, as it is seen. -/
def Section.occurrences (name : String) (event : Event) (s : Section) (id : TriggerId) :
    List Occurrence :=
  .executed id :: (linesLog name event s.lines).map fun record => .remarked (.logged record)

/-! ## Running a section -/

theorem linesLog_cons (name : String) (event : Event) {line : String} (h : line ≠ "stop")
    (rest : List String) : linesLog name event (line :: rest)
      = ⟨.info, "runner", s!"[{name}] " ++ interpolate line event⟩ :: linesLog name event rest := by
  have hgoes : (line :: rest).takeWhile (· != "stop") = line :: rest.takeWhile (· != "stop") :=
    List.takeWhile_cons_of_pos (bne_iff_ne.2 h)
  rw [linesLog, hgoes, List.map_cons]
  rfl

/-- **The statements of a section log its lines**, and none of them faults. -/
theorem runChain_statements (script : Path) (event : Event) : ∀ lines : List String,
    runChain event (lines.map (statement script))
      = ((linesLog (script.fileName?.getD "") event lines).map .logged, .ok ())
  | [] => rfl
  | line :: rest => by
    have ih := runChain_statements script event rest
    by_cases hstop : line = "stop"
    · subst hstop
      rfl
    · rw [linesLog_cons _ event hstop]
      simp only [List.map_cons, runChain, statement, if_neg hstop, ih]
      rfl

theorem occurrences_run (census : Census) (script : Path) (id : TriggerId) (event : Event)
    (s : Section) : (Router.run event (s.trigger script id)).occurrences census
      = s.occurrences (script.fileName?.getD "") event id := by
  have hexecute := runChain_statements script event s.lines
  simp only [Router.run, Trigger.execute, Section.trigger, Execution.occurrences,
    Execution.problem?, hexecute, Section.occurrences, List.map_map]
  simp only [Option.map_none, Option.toList_none, List.append_nil]
  rfl

/-! ## Which sections are due -/

/-- In the catalog of the demonstration, a kind is delivered through the list of its ancestors. -/
theorem list?_of_isA {kind above : Kind} (habove : catalog.contains above = true)
    (h : catalog.isA kind above = true) :
    catalog.contains kind = true ∧ catalog.list? above = catalog.list? kind := by
  cases hkind : catalog.contains kind with
  | true =>
    have hall : ∀ kind ∈ catalog.kinds, ∀ above ∈ catalog.kinds,
        catalog.isA kind above = true → catalog.list? above = catalog.list? kind := by
      decide +kernel
    exact ⟨rfl, hall kind (Catalog.mem_kinds_of_contains hkind) above
      (Catalog.mem_kinds_of_contains habove) h⟩
  | false =>
    rw [(Catalog.isA_of_not_contains hkind).1 h, hkind] at habove
    cases habove

/-- A section that is for an event shares its handler list. -/
theorem Section.shares_of_isFor {event : Event} {s : Section} (h : s.isFor event = true) :
    catalog.contains event.kind = true ∧
      s.kinds.any (fun kind => catalog.list? kind == catalog.list? event.kind) = true := by
  obtain ⟨kind, hkind, hisA⟩ := List.any_eq_true.1 h
  obtain ⟨hcontains, hlist⟩ := list?_of_isA (s.declared kind hkind) hisA
  exact ⟨hcontains, List.any_eq_true.2 ⟨kind, hkind, beq_iff_eq.2 hlist⟩⟩

theorem isDue_trigger (script : Path) (id : TriggerId) (event : Event) (tier : Tier)
    (s : Section) : (s.trigger script id).isDue catalog event tier
      = (s.tier == tier && s.isFor event) := by
  show (s.tier == tier && s.kinds.any _ && s.isFor event && true) = _
  cases h : s.isFor event with
  | true => rw [(Section.shares_of_isFor h).2]; simp
  | false => simp

/-- The triggers of the sections, in the order of the file. -/
def triggers (script : Path) (sections : List Section) : List Trigger :=
  (sections.zipIdx 1).map fun (s, id) => s.trigger script id

/-- **The triggers that are due are those of the sections that are due.** -/
theorem dueInTurn_triggers (script : Path) (sections : List Section) (event : Event) :
    dueInTurn catalog (triggers script sections) event
      = (dueSections sections event).map fun (s, id) => s.trigger script id := by
  have hfilter : ∀ tier, (triggers script sections).filter (Trigger.isDue catalog event tier)
      = ((sections.zipIdx 1).filter fun (s, _) => s.tier == tier && s.isFor event).map
          fun (s, id) => s.trigger script id := by
    intro tier
    rw [triggers, List.filter_map]
    exact congrArg _ (List.filter_congr fun (s, id) _ => isDue_trigger script id event tier s)
  unfold dueInTurn due dueSections
  cases hk : catalog.contains event.kind with
  | true =>
    have hdelivers : catalog.delivers event
        = !(event.blocked && !catalog.listensBlocked event.kind) := by
      rw [Catalog.delivers, hk, Bool.true_and, Bool.not_and, Bool.not_not]
    rw [hdelivers]
    cases event.blocked && !catalog.listensBlocked event.kind with
    | true => rfl
    | false =>
      simp only [Bool.not_false, Bool.false_eq_true, if_true, if_false, hfilter, List.map_flatMap]
  | false =>
    have hnone : ∀ s : Section, s.isFor event = false := by
      intro s
      cases hs : s.isFor event with
      | false => rfl
      | true =>
        have hcontains := (Section.shares_of_isFor hs).1
        rw [hk] at hcontains
        cases hcontains
    have hdelivers : catalog.delivers event = false := by
      rw [Catalog.delivers, hk, Bool.false_and]
    simp only [hdelivers, hnone, Bool.and_false, Bool.false_eq_true, if_false, List.filter_false]
    split <;> rfl

/-! ## Loading the script -/

variable {env : Surroundings Handler} {rt : Runtime Handler} {scriptDir p resolved : Path}
  {indent : Indent} {sections : List Section}

/-- The batch of the one script adds its sections. -/
theorem additions_render (hg : env.grammar = grammar) (hu : env.scope.Untroubled)
    (hcatalog : rt.router.catalog = catalog) (hloaded : rt.registry.loaded = [])
    (hissued : rt.issued = 1) (hresolved : env.files.canonical p = .ok resolved)
    (htext : env.files.readText resolved = .ok (render indent sections)) :
    rt.registry.violation? [] (Batch.resolved env.files [p]) = none ∧ rt.additions env [p]
      = [⟨resolved, (triggers resolved sections).map fun trigger => { trigger }⟩] := by
  have hpaths : Batch.resolved env.files [p] = [resolved] := Batch.resolved_cons hresolved []
  have hfree : rt.registry.isLoaded resolved = false := by
    rw [Bool.eq_false_iff]
    intro h
    obtain ⟨s, hs, -⟩ := Registry.isLoaded_eq_true_iff.1 h
    rw [hloaded] at hs
    cases hs
  have hadmitted : rt.registry.violation? [] (Batch.resolved env.files [p]) = none := by
    simp [hpaths, Registry.violation?, hfree]
  have htrees : Batch.trees env.files [resolved] = [⟨resolved, nodes 1 sections⟩] := by
    simp [Batch.trees, Runtime.readTree, htext, Source.parse, read_render, Except.map,
      Except.mapError, Except.toOption]
  refine ⟨hadmitted, ?_⟩
  rw [Runtime.additions, hadmitted]
  show (rt.constructed env [p]).2.1 = _
  rw [Runtime.constructed_untroubled hu, hpaths, htrees, hg, hcatalog, hissued]
  simp only [Construct.compiled, List.map_cons, List.map_nil, Construct.scriptOf,
    structuresOf_compileAll, triggers, List.map_map]
  rfl

/-! ## The host -/

/-- The host runs the sections for an event as they are written; nothing else happens, but that an
event of an unknown kind is dropped with a warning. -/
structure RunsAsWritten (name : String) (sections : List Section) (host : Host Handler)
    (event : Event) : Prop where
  /-- The result is the number of the sections that run. -/
  ran : (host.deliver event).2 = (dueSections sections event).length
  /-- They run in turn, and each logs its lines. -/
  seen : (host.deliver event).1.trace = host.trace ++ Host.remarksOn catalog event
    ++ ((dueSections sections event).flatMap fun (s, id) => s.occurrences name event id).map .inner
  /-- So these lines come into the log, in this order. -/
  logged : (host.deliver event).1.trace.flatMap Happening.records
    = (host.trace ++ Host.remarksOn catalog event).flatMap Happening.records
      ++ (dueSections sections event).flatMap fun (s, _) => linesLog name event s.lines

/-- The log has nothing of a run but the lines. -/
theorem records_occurrences (name : String) (event : Event) (s : Section) (id : TriggerId) :
    (s.occurrences name event id).flatMap (fun o => (Happening.inner o).records)
      = linesLog name event s.lines := by
  have hrecord : ∀ record : Log.Record,
      (Happening.inner (.remarked (.logged record))).records = [record] := fun _ => rfl
  rw [Section.occurrences, List.flatMap_cons, List.flatMap_map]
  simp only [hrecord, List.flatMap_singleton']
  rfl

theorem runsAsWritten_of_serves {host : Host Handler} (h : Host.Synced host)
    (hcatalog : host.runtime.router.catalog = catalog)
    (hs : host.runtime.router.Serves (triggers resolved sections)) (event : Event) :
    RunsAsWritten (resolved.fileName?.getD "") sections host event := by
  obtain ⟨hran, htrace⟩ := Host.deliver_of_serves h hs event
  rw [hcatalog, dueInTurn_triggers] at hran htrace
  simp only [List.flatMap_map, occurrences_run] at htrace
  constructor
  case ran => rw [hran, List.length_map]
  case seen => exact htrace
  case logged =>
    rw [htrace, List.flatMap_append, List.flatMap_map, List.flatMap_assoc]
    simp only [records_occurrences]

/-- The host after some events. -/
def deliverAll (host : Host Handler) (events : List Event) : Host Handler :=
  events.foldl (fun host event => (host.deliver event).1) host

/-- Events leave the host in step, with the same triggers bound. -/
theorem synced_deliverAll : ∀ (events : List Event) {host : Host Handler}, Host.Synced host →
    Host.Synced (deliverAll host events) ∧
      (deliverAll host events).runtime.router = host.runtime.router
  | [], _, h => ⟨h, rfl⟩
  | event :: rest, host, h => by
    obtain ⟨hsynced, hrouter⟩ := synced_deliverAll rest (Host.synced_deliver event h)
    exact ⟨hsynced, hrouter.trans (Host.router_deliver host event)⟩

/-- What a runtime has bound that has loaded the one script of its directory. -/
theorem serves_render (env : Surroundings Handler) (hg : env.grammar = grammar)
    (hu : env.scope.Untroubled) (henabled : (discover env.files scriptDir).enabled = [p])
    (hresolved : env.files.canonical p = .ok resolved)
    (htext : env.files.readText resolved = .ok (render indent sections)) (workers : Nat) :
    ((Host.fresh catalog scriptDir workers).runtime.loadDirectory env scriptDir).2
        = .ok ⟨1, sections.length⟩ ∧
      ((Host.fresh catalog scriptDir workers).runtime.loadDirectory env
        scriptDir).1.router.catalog = catalog ∧
      ((Host.fresh catalog scriptDir workers).runtime.loadDirectory env
        scriptDir).1.router.Serves (triggers resolved sections) := by
  generalize hrt : (Host.fresh catalog scriptDir workers).runtime = rt
  have hnumbered : Runtime.Numbered catalog rt := hrt ▸ Runtime.numbered_fresh catalog workers
  obtain ⟨hrouter, hloaded⟩ := Runtime.scan_spec env.files scriptDir rt
  have hscanned := Runtime.numbered_scan hnumbered env.files scriptDir
  have hissued := Runtime.issued_scan rt env.files scriptDir
  have hcatalog := hscanned.catalog
  rw [Runtime.loadDirectory_eq, henabled]
  have hloading := Runtime.loading_additions (hg ▸ faithful_grammar) hu hscanned [p]
  obtain ⟨hadmitted, hadded⟩ := additions_render hg hu hcatalog (hloaded.trans (hrt ▸ rfl))
    (hissued.trans (hrt ▸ rfl)) hresolved htext
  rw [hadded] at hloading
  refine ⟨?_, hloading.settled.catalog.trans hcatalog, ?_⟩
  · rw [hloading.result, hadmitted]
    simp [Tally.sum_eq, Script.tally, triggers]
  · have hnil : (rt.scan env.files scriptDir).1.router.Serves [] := by
      rw [hrouter, ← hrt]
      exact Router.serves_nil catalog
    have hserves := hloading.serves hnil
    rwa [List.nil_append, triggersOf, List.flatMap_singleton, List.map_map,
      show (fun handler : Handler => handler.trigger) ∘ (fun trigger => { trigger }) = id from rfl,
      List.map_id] at hserves

/-- **Scripts run as they are written.** If the one enabled file of the script directory holds what
some sections are written as, a fresh host loads them all, and runs them as they are written for
every event that it is given then, whatever events have come before. -/
theorem runs_as_written (files : FileSystem) (hwf : files.WellFormed) (scriptDir p : Path)
    (indent : Indent) (sections : List Section)
    (henabled : (discover files scriptDir).enabled = [p])
    (htext : files.readText p = .ok (render indent sections)) (workers : Nat)
    (schedule : List Nat) :
    ((Host.fresh catalog scriptDir workers).load { grammar, files, schedule }).2
        = .ok ⟨1, sections.length⟩ ∧
      ∀ (earlier : List Event) (event : Event),
        RunsAsWritten ((files.scriptPath p).fileName?.getD "") sections
          (deliverAll ((Host.fresh catalog scriptDir workers).load
            { grammar, files, schedule }).1 earlier) event := by
  obtain ⟨resolved, hresolved, htext⟩ := FileSystem.exists_canonical_of_readText hwf htext
  have hexists : files.exists? scriptDir = true := by
    cases hfind : files.find scriptDir with
    | ok found =>
      rw [FileSystem.exists?, hfind]
      rfl
    | error e =>
      rw [discover, hfind] at henabled
      cases henabled
  obtain ⟨hresult, hcatalog, hserves⟩ := serves_render { grammar, files, schedule } rfl
    Host.untroubled_default henabled hresolved htext workers
  have hfresh : Host.Synced (Host.fresh catalog scriptDir workers) :=
    Host.synced_of_reached (.fresh scriptDir workers)
  have hsynced := Host.synced_load { grammar, files, schedule } hfresh
  rw [FileSystem.scriptPath_of_canonical hresolved]
  rw [Host.load_of_exists hexists] at hsynced ⊢
  refine ⟨hresult, fun earlier event => ?_⟩
  obtain ⟨hlast, hrouter⟩ := synced_deliverAll earlier hsynced
  refine runsAsWritten_of_serves hlast ?_ ?_ event
  · rw [hrouter]
    exact hcatalog
  · rw [hrouter]
    exact hserves

/-! ## A script of two sections -/

/-- Those who come are welcomed, and those who come for the first time are numbered before. -/
def greetings : List Section := [
  { kinds := ["join"], tier := .high, lines := ["Welcome, {player}!", "stop", "and again"]
    nonempty := by decide
    declared := by decide +kernel
    isLine := by decide +kernel },
  { kinds := ["chat", "first_join"], tier := .low, lines := ["#1 is {player}"]
    nonempty := by decide
    declared := by decide +kernel
    isLine := by decide +kernel }]

def fourSpaces : Indent := ⟨' ', 4, by decide, by decide, by decide⟩

/-- The script that greets, in the root directory. -/
def greetingFiles : FileSystem :=
  { entries := [(["greet.sk"], .file (.text
      "on join with priority high:\n    Welcome, {player}!\n    stop\n    and again
on chat or first_join with priority low:\n    ##1 is {player}\n"))] }

theorem wellFormed_greetingFiles : greetingFiles.WellFormed :=
  FileSystem.wellFormed_of_entries (by decide +kernel) rfl nofun

theorem find_greetingFiles : greetingFiles.find ⟨"/greet.sk"⟩
    = .ok (["greet.sk"], .file (.text (render fourSpaces greetings))) := by
  have hnoSlash : ("greet.sk".toList.any Path.isSlash) = false := by decide +kernel
  have hproper : Path.Proper "greet.sk" :=
    ⟨by decide +kernel, fun c hc => Bool.eq_false_iff.2 (List.any_eq_false.1 hnoSlash c hc)⟩
  have hentry : greetingFiles.entry? ["greet.sk"]
      = some (.file (.text (render fourSpaces greetings))) := by decide +kernel
  refine FileSystem.find_ofNames wellFormed_greetingFiles ?_ hentry nofun
  rintro name (_ | ⟨_, ⟨⟩⟩)
  exact hproper

theorem discover_greetingFiles :
    (discover greetingFiles ⟨"/"⟩).enabled = [⟨"/greet.sk"⟩] := by
  have hfind : greetingFiles.find ⟨"/"⟩ = .ok ([], .directory) := by cbv
  have hnames : greetingFiles.readDirectory ⟨"/"⟩ = .ok ["greet.sk"] := by cbv
  have hjoin : (["greet.sk"].map fun name => Path.join ⟨"/"⟩ ⟨name⟩).filter
      (!Discovery.isHidden ·) = [⟨"/greet.sk"⟩] := by decide +kernel
  have hlist : Discovery.list greetingFiles ⟨"/"⟩ ["greet.sk"]
      = { files := [⟨"/greet.sk"⟩] } := by
    rw [Discovery.list, hjoin]
    simp [Discovery.Listing.add, find_greetingFiles]
  simp only [discover, hfind, Discovery.maxDepth, Discovery.walk, hnames, hlist, Discovery.sorted,
    List.mergeSort_nil, List.mergeSort_singleton]
  decide +kernel

/-- Someone who comes for the first time is numbered, and then welcomed. -/
theorem runs_as_written_greetings :
    (greetingFiles.WellFormed ∧
      (dueSections greetings { kind := "first_join" }).map (·.2) = [2, 1]) ∧
    ((Host.fresh catalog ⟨"/"⟩ 0).load { grammar, files := greetingFiles }).2 = .ok ⟨1, 2⟩ ∧
      ∀ (earlier : List Event) (event : Event),
        RunsAsWritten ((greetingFiles.scriptPath ⟨"/greet.sk"⟩).fileName?.getD "") greetings
          (deliverAll ((Host.fresh catalog ⟨"/"⟩ 0).load
            { grammar, files := greetingFiles }).1 earlier) event := by
  have hwf := wellFormed_greetingFiles
  have htext : greetingFiles.readText ⟨"/greet.sk"⟩ = .ok (render fourSpaces greetings) := by
    rw [FileSystem.readText, find_greetingFiles]
  exact ⟨⟨hwf, by decide +kernel⟩, runs_as_written greetingFiles hwf ⟨"/"⟩ ⟨"/greet.sk"⟩ fourSpaces
    greetings discover_greetingFiles htext 0 []⟩

end EventScripts.Demo
