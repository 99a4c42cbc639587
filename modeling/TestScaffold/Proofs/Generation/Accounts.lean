import Mathlib.Data.List.Basic
import TestScaffold.Proofs.Generation.Completion

/-!
# What a run has done when it is over

When a run is over nothing is on its way any more, so its accounts are settled: every input has been read, every type
found in them has become a unit or an error, and every unit has been stored or reported.

A configuration may ask for more permits than a dispatcher can give. Such a dispatcher breaks down, and what has been
sent to it is lost (`not_balanced_oversized`).

Results:
* `Progress.History.account`: the lists that a finished run is made of.
* `Progress.balanced_of_performAll`: no item is lost or counted twice, whatever the schedule, if all dispatchers can
  give their permits.
-/

namespace TestScaffold.Generation

/-- The stage that reports an error. Errors of the run itself have none. -/
def stageOf? : GenerationError → Option StageName
  | .notFound _ | .read _ _ | .decode _ _ | .parse _ _ => some .load
  | .missingNamespace _ _ => some .synthesize
  | .write _ _ _ => some .write
  | .breakdown stage _ => some stage
  | .configuration _ | .stageClosed _ => none

/-- How many of the errors a stage reports. -/
def errorCount (stage : StageName) (errors : List GenerationError) : Nat :=
  errors.countP fun e => stageOf? e == some stage

theorem stageOf?_of_load {lang : Language} {lookup : Lookup} {root input : String} {e : GenerationError}
    (h : load lang lookup root input = .error e) : stageOf? e = some .load := by
  unfold load at h
  split at h
  · cases h; rfl
  · split at h
    · cases h; rfl
    · split at h
      · cases h; rfl
      · split at h <;> cases h <;> rfl

theorem stageOf?_of_synthesize {lang : Language} {request : TypeRequest} {e : GenerationError}
    (h : synthesize lang request = .error e) : stageOf? e = some .synthesize := by
  unfold synthesize describe at h
  split at h
  · rename_i hd
    split at hd <;> cases hd
    cases h
    rfl
  · split at h <;> cases h
    rfl

theorem failure?_eq_some {ε α : Type} {r : Except ε α} {e : ε} (h : failure? r = some e) : r = .error e := by
  cases r with
  | error e' =>
    cases h
    rfl
  | ok a => cases h

theorem load_eq_ok {lang : Language} {lookup : Lookup} {root input : String} {requests : List TypeRequest}
    (h : load lang lookup root input = .ok requests) : ∃ path contents text tree,
      resolve lookup root input = some path ∧ readFile lookup path = .ok contents ∧ contents.decode = .ok text ∧
      lang.parse text = .ok (.ok tree) ∧ requests = tree.classLikeTypes.map fun node => ⟨path, tree, node⟩ := by
  unfold load at h
  split at h
  · cases h
  · rename_i path hp
    split at h
    · cases h
    · rename_i contents hc
      split at h
      · cases h
      · rename_i text ht
        split at h <;> cases h
        rename_i tree htree
        exact ⟨path, contents, text, tree, hp, hc, ht, htree, rfl⟩

/-- The input fails with one error of the first stage and yields no type. -/
def Reading.Fails (lang : Language) (root : String) (r : Reading) : Prop :=
  r.requests lang root = [] ∧ ∃ e, r.error? lang root = some e ∧ stageOf? e = some .load

/-- The input is found, read, decoded and parsed, and yields the types of its tree. -/
def Reading.Yields (lang : Language) (root : String) (r : Reading) : Prop :=
  r.error? lang root = none ∧ ∃ path contents text tree,
    resolve r.files.lookup root r.input = some path ∧ readFile r.files.lookup path = .ok contents ∧
    contents.decode = .ok text ∧ lang.parse text = .ok (.ok tree) ∧
    r.requests lang root = tree.classLikeTypes.map fun node => ⟨path, tree, node⟩

theorem Reading.fails_or_yields (lang : Language) (root : String) (r : Reading) :
    r.Fails lang root ∨ r.Yields lang root := by
  cases h : r.result lang root with
  | error e =>
    refine .inl ⟨by simp [Reading.requests, h, Except.toOption], e, by simp [Reading.error?, h, failure?], ?_⟩
    exact stageOf?_of_load h
  | ok requests =>
    obtain ⟨path, contents, text, tree, hp, hc, ht, htree, rfl⟩ := load_eq_ok h
    refine .inr ⟨by simp [Reading.error?, h, failure?], path, contents, text, tree, hp, hc, ht, htree, ?_⟩
    simp [Reading.requests, h, Except.toOption]

/-- Every result is a value or an error. -/
theorem length_filterMap_toOption {α β ε : Type} (f : α → Except ε β) (l : List α) :
    l.length = (l.filterMap fun a => (f a).toOption).length + (l.filterMap fun a => failure? (f a)).length := by
  induction l with
  | nil => rfl
  | cons a l ih =>
    cases h : f a with
    | error e =>
      have hv : (f a).toOption = none := by rw [h]; rfl
      have he : failure? (f a) = some e := by rw [h]; rfl
      simp only [List.filterMap_cons, hv, he, List.length_cons]
      omega
    | ok b =>
      have hv : (f a).toOption = some b := by rw [h]; rfl
      have he : failure? (f a) = none := by rw [h]; rfl
      simp only [List.filterMap_cons, hv, he, List.length_cons]
      omega

theorem length_eq_countP_add_errors (storings : List Storing) :
    storings.length = (storings.countP fun s => s.error.isNone) + (storings.filterMap Storing.error).length := by
  induction storings with
  | nil => rfl
  | cons s storings ih =>
    cases h : s.error with
    | none =>
      simp only [List.countP_cons, List.filterMap_cons, h, Option.isNone_none, if_true, List.length_cons]
      omega
    | some e =>
      simp only [List.countP_cons, List.filterMap_cons, h, Option.isNone_some, Bool.false_eq_true, if_false,
        List.length_cons]
      omega

theorem errorCount_append (stage : StageName) (as bs : List GenerationError) :
    errorCount stage (as ++ bs) = errorCount stage as + errorCount stage bs := List.countP_append

/-- Errors of one stage all count for it. -/
theorem errorCount_of_forall {stage : StageName} {errors : List GenerationError}
    (h : ∀ e ∈ errors, stageOf? e = some stage) : errorCount stage errors = errors.length := by
  rw [errorCount, List.countP_eq_length]
  intro e he
  simp [h e he]

/-- Errors of one stage do not count for another. -/
theorem errorCount_of_forall_ne {stage other : StageName} {errors : List GenerationError}
    (h : ∀ e ∈ errors, stageOf? e = some stage) (hs : stage ≠ other) : errorCount other errors = 0 := by
  rw [errorCount, List.countP_eq_zero]
  intro e he
  simp [h e he, hs]

/-- Errors of one stage are all among those of the stage. -/
theorem filter_of_forall {stage : StageName} {errors : List GenerationError}
    (h : ∀ e ∈ errors, stageOf? e = some stage) : (errors.filter fun e => stageOf? e == some stage) = errors := by
  rw [List.filter_eq_self]
  intro e he
  simp [h e he]

/-- Errors of one stage are not among those of another. -/
theorem filter_of_forall_ne {stage other : StageName} {errors : List GenerationError}
    (h : ∀ e ∈ errors, stageOf? e = some stage) (hs : stage ≠ other) :
    (errors.filter fun e => stageOf? e == some other) = [] := by
  rw [List.filter_eq_nil_iff]
  intro e he
  simp [h e he, hs]

/-- Errors in the order of the stages; within a stage they may come in any order. -/
def ByStage (errors loading making storing : List GenerationError) : Prop :=
  ∃ first second third, errors = first ++ second ++ third ∧
    first.Perm loading ∧ second.Perm making ∧ third.Perm storing

namespace ByStage

variable {errors loading making storing : List GenerationError} (h : ByStage errors loading making storing)

include h

theorem perm : errors.Perm (loading ++ making ++ storing) := by
  obtain ⟨first, second, third, rfl, hl, hm, hs⟩ := h
  exact (hl.append hm).append hs

variable (hl : ∀ e ∈ loading, stageOf? e = some .load) (hm : ∀ e ∈ making, stageOf? e = some .synthesize)
  (hs : ∀ e ∈ storing, stageOf? e = some .write)

include hl hm hs

/-- Every error comes from one of the three stages. -/
theorem exists_stageOf? {e : GenerationError} (he : e ∈ errors) : ∃ stage, stageOf? e = some stage := by
  rw [h.perm.mem_iff, List.mem_append, List.mem_append] at he
  rcases he with (he | he) | he
  · exact ⟨_, hl e he⟩
  · exact ⟨_, hm e he⟩
  · exact ⟨_, hs e he⟩

theorem filter_load : (errors.filter fun e => stageOf? e == some .load).Perm loading := by
  refine (h.perm.filter _).trans (.of_eq ?_)
  rw [List.filter_append, List.filter_append, filter_of_forall hl, filter_of_forall_ne hm (by simp),
    filter_of_forall_ne hs (by simp), List.append_nil, List.append_nil]

theorem filter_write : (errors.filter fun e => stageOf? e == some .write).Perm storing := by
  refine (h.perm.filter _).trans (.of_eq ?_)
  rw [List.filter_append, List.filter_append, filter_of_forall_ne hl (by simp), filter_of_forall_ne hm (by simp),
    filter_of_forall hs, List.append_nil, List.nil_append]

theorem errorCount_synthesize : errorCount .synthesize errors = making.length := by
  rw [errorCount, h.perm.countP_eq, ← errorCount, errorCount_append, errorCount_append,
    errorCount_of_forall_ne hl (by simp), errorCount_of_forall hm, errorCount_of_forall_ne hs (by simp)]
  omega

theorem errorCount_write : errorCount .write errors = storing.length := by
  rw [errorCount, h.perm.countP_eq, ← errorCount, errorCount_append, errorCount_append,
    errorCount_of_forall_ne hl (by simp), errorCount_of_forall_ne hm (by simp), errorCount_of_forall hs]
  omega

end ByStage

/-- The lists that a finished run is made of: its readings, the types found, and what it has stored or tried to. -/
structure Account (lang : Language) (config : Config) (inputs : List String) (load synth write : Nat)
    (before : FileSystem) (readings : List Reading) (requests : List TypeRequest) (storings : List Storing)
    (o : Outcome) (after : FileSystem) : Prop where
  read : Rearranged (load = 1) (readings.map Reading.input) inputs
  found : Rearranged (load = 1 ∧ synth = 1) requests (readings.flatMap (Reading.requests lang config.searchRoot))
  units : Rearranged (write = 1) (storings.map Storing.unit) (requests.filterMap (unit? lang))
  ids : Rearranged (write = 1) (storings.map Storing.id) (List.range' 1 storings.length)
  stored : Stored lang config.output before (write = 1) storings (storings.length + 1) after
  errors : ByStage o.errors (readings.filterMap (Reading.error? lang config.searchRoot))
    (requests.filterMap fun r => failure? (synthesize lang r)) (storings.filterMap Storing.error)
  summary : o.summary =
    ⟨inputs.length, requests.length, (requests.filterMap (unit? lang)).length,
      storings.countP fun s => s.error.isNone⟩

namespace Account

variable {lang : Language} {config : Config} {inputs : List String} {load synth write : Nat}
  {before after : FileSystem} {readings : List Reading} {requests : List TypeRequest} {storings : List Storing}
  {o : Outcome}

theorem stageOf?_loading :
    ∀ e ∈ readings.filterMap (Reading.error? lang config.searchRoot), stageOf? e = some .load := by
  intro e he
  obtain ⟨r, -, hr⟩ := List.mem_filterMap.mp he
  exact stageOf?_of_load (failure?_eq_some hr)

theorem stageOf?_making :
    ∀ e ∈ requests.filterMap fun r => failure? (synthesize lang r), stageOf? e = some .synthesize := by
  intro e he
  obtain ⟨r, -, hr⟩ := List.mem_filterMap.mp he
  exact stageOf?_of_synthesize (failure?_eq_some hr)

variable (h : Account lang config inputs load synth write before readings requests storings o after)

include h

theorem stageOf?_storing : ∀ e ∈ storings.filterMap Storing.error, stageOf? e = some .write := by
  intro e he
  obtain ⟨s, hs, hr⟩ := List.mem_filterMap.mp he
  obtain ⟨cause, rfl⟩ := h.stored.refused s hs e hr
  rfl

/-- Every type that is found becomes a unit or an error of the second stage. -/
theorem types_eq :
    o.summary.typesDiscovered = o.summary.unitsRendered + errorCount .synthesize o.errors := by
  rw [h.errors.errorCount_synthesize stageOf?_loading stageOf?_making h.stageOf?_storing, h.summary]
  exact length_filterMap_toOption (synthesize lang) requests

/-- Every unit becomes a file or an error of the third stage. -/
theorem units_eq : o.summary.unitsRendered = o.summary.filesWritten + errorCount .write o.errors := by
  have hlength : storings.length = (requests.filterMap (unit? lang)).length := by
    simpa using h.units.length_eq
  rw [h.errors.errorCount_write stageOf?_loading stageOf?_making h.stageOf?_storing, h.summary]
  show (requests.filterMap (unit? lang)).length = _
  rw [← hlength]
  exact length_eq_countP_add_errors storings

end Account

namespace Progress

variable {lang : Language} {config : Config} {inputs : List String} {load synth write : Nat} {before : FileSystem}
  {p : Progress} {log : Log}

/-- A run that is over has settled its accounts. -/
theorem History.account (h : History lang config (start inputs load synth write before) log p) (hc : p.Closing)
    (hp : p.phase = .over) : Account lang config inputs load synth write before log.readings log.requests
      log.storings p.outcome p.files := by
  obtain ⟨hdl, hds, hdw⟩ := hc.drained hp
  obtain ⟨hl, hs, hw⟩ := h.widths
  obtain ⟨hread, hloadErrors, hinputs⟩ := h.loads
  obtain ⟨hsent, hsynthesized, hdiscovered⟩ := h.requests
  obtain ⟨-, hunitErrors, hunits, hrendered⟩ := h.units
  obtain ⟨hpositive, hids, hstored, hwritten⟩ := h.numbers
  have hunsent : p.unsent = [] := by simp [unsent, hp]
  obtain ⟨hpu, hel, -⟩ := Stage.of_isDrained hdl unread fun x => [x]
  obtain ⟨hpo, -, -⟩ := Stage.of_isDrained hdl owed fun _ => []
  obtain ⟨hph, hes, -⟩ := Stage.of_isDrained hds held fun _ => []
  obtain ⟨hpr, -, -⟩ := Stage.of_isDrained hds (fun job => [job.1]) fun x => [x]
  obtain ⟨hpt, hew, -⟩ := Stage.of_isDrained hdw taken fun _ => []
  obtain ⟨hpw, -, -⟩ := Stage.of_isDrained hdw (fun job => [job.1]) fun x => [x]
  rw [hl, hpu, hunsent, List.append_nil, List.append_nil] at hread
  rw [hl, hs, undone, hpr, hpo, List.append_nil, List.append_nil] at hsent
  rw [hw, undone, hpw, List.append_nil] at hunits
  rw [hw, hpt, List.append_nil] at hids
  have hlength : p.nextId = log.storings.length + 1 := by
    have hlength := hids.length_eq
    rw [List.length_map, List.length_range'] at hlength
    omega
  refine ⟨hread, hsent, hunits, ?_, hlength ▸ h.filed.toStored, ?_, ?_⟩
  · rw [hlength, Nat.add_sub_cancel] at hids
    exact hids
  · refine ⟨p.loader.errors, p.synthesizer.errors, p.writer.errors, ?_, hel ▸ hloadErrors, ?_, ?_⟩
    · simp only [outcome, hc.refused, List.nil_append, hc.loader.report_eq, hc.synthesizer.report_eq,
        hc.writer.report_eq]
    · rw [hes, List.filterMap_congr hunitErrors]
      simpa [List.filterMap_map] using hsynthesized.filterMap fun r => failure? (synthesize lang r)
    · rw [hew]
      refine (hstored.filterMap Finished.error).trans (.of_eq ?_)
      rw [List.filterMap_map]
      rfl
  · rw [hunsent, List.length_nil, Nat.add_zero] at hinputs
    rw [undone, hpr, List.length_nil, Nat.add_zero] at hdiscovered
    rw [hph, List.length_nil, Nat.add_zero] at hrendered
    show p.summary = _
    rw [← hinputs, ← hdiscovered, ← hrendered, ← hwritten]

/-- What the second stage has been given are the types that are done with. -/
theorem History.perm_items (h : History lang config (start inputs load synth write before) log p) (hc : p.Closing)
    (hp : p.phase = .over) : p.synthesizer.items.Perm log.requests := by
  obtain ⟨-, hds, -⟩ := hc.drained hp
  obtain ⟨-, -, hitems⟩ := Stage.of_isDrained hds held fun _ => []
  rw [hitems]
  exact h.requests.ended

/-! ## No item is lost or counted twice -/

/-- The books of a finished run balance. -/
structure Balanced (lang : Language) (config : Config) (inputs : List String) (start : Progress)
    (schedule : List Event) (p : Progress) : Prop where
  counted : p.outcome.summary.inputs = inputs.length
  /-- Each input is read once; what fails is reported, and what is found goes on to the second stage. -/
  readings : ∃ readings : List Reading, (readings.map Reading.input).Perm inputs ∧
    (∀ r ∈ readings, StandDuring lang config start schedule r.files) ∧
    (∀ r ∈ readings, r.Fails lang config.searchRoot ∨ r.Yields lang config.searchRoot) ∧
    (p.outcome.errors.filter fun e => stageOf? e == some .load).Perm
      (readings.filterMap (Reading.error? lang config.searchRoot)) ∧
    p.synthesizer.items.Perm (readings.flatMap (Reading.requests lang config.searchRoot))
  types : p.outcome.summary.typesDiscovered = p.synthesizer.items.length
  units : p.outcome.summary.typesDiscovered =
    p.outcome.summary.unitsRendered + errorCount .synthesize p.outcome.errors
  files : p.outcome.summary.unitsRendered =
    p.outcome.summary.filesWritten + errorCount .write p.outcome.errors
  accepted : ∀ stage, .stageClosed stage ∉ p.outcome.errors
  result : (∃ summary, p.outcome.result = .ok summary) ↔ p.outcome.errors = []
  complete : p.outcome.errors = [] →
    p.outcome.summary.typesDiscovered = p.outcome.summary.unitsRendered ∧
      p.outcome.summary.unitsRendered = p.outcome.summary.filesWritten

/-- No item is lost or counted twice. Whatever has happened, a run can be brought to its end, and when it is over
every input, every type and every unit is accounted for. -/
theorem balanced_of_performAll (hall : AllWorkable load synth write) {schedule : List Event}
    (h : (start inputs load synth write before).performAll lang config schedule = some p) :
    (∃ rest q, p.performAll lang config rest = some q ∧ q.phase = .over) ∧
      (p.phase = .over → Balanced lang config inputs (start inputs load synth write before) schedule p) := by
  refine ⟨exists_completion hall h, fun hp => ?_⟩
  obtain ⟨log, hh, -, hread⟩ := exists_history hall h
  have hc := hh.closing (.start inputs hall before)
  have ha := hh.account hc hp
  have hitems := hh.perm_items hc hp
  have hnone : p.outcome.errors = [] → ∀ stage, errorCount stage p.outcome.errors = 0 := fun he stage => by
    rw [he]
    rfl
  refine ⟨?_, ⟨log.readings, ha.read.perm, hread, fun r _ => r.fails_or_yields lang config.searchRoot, ?_,
    hitems.trans ha.found.perm⟩, ?_, ha.types_eq, ha.units_eq, ?_, ?_, ?_⟩
  · rw [ha.summary]
  · exact ha.errors.filter_load Account.stageOf?_loading Account.stageOf?_making ha.stageOf?_storing
  · rw [ha.summary, hitems.length_eq]
  · intro stage hmem
    obtain ⟨s, hs⟩ :=
      ha.errors.exists_stageOf? Account.stageOf?_loading Account.stageOf?_making ha.stageOf?_storing hmem
    cases hs
  · cases he : p.outcome.errors <;> simp [Outcome.result, he]
  · intro he
    have ht := ha.types_eq
    have hu := ha.units_eq
    rw [hnone he] at ht hu
    exact ⟨ht, hu⟩

end Progress

/-! ## A run with an input that is there and one that is not -/

/-- Every source declares one type. Its name is the text of the source, and so is the text of its unit. -/
def plainLanguage (extension : String) : Language where
  parse text := .ok (.ok (.ofDeclaration ⟨.unit, "", [], .zero,
    [⟨.namespaceBlock, "Plain", [], .zero, [⟨.type .classType, text, [], .zero, []⟩]⟩]⟩))
  render d := .ok ⟨d.name, d.name⟩
  extension := extension

/-- An output directory, and a file. -/
def oneSource : FileSystem where
  working := []
  nodes := [(["out"], .directory), (["A.cs"], .file 1)]
  files := [(1, { contents := .text "A" })]

/-- A schedule that reads the second input first, and lets the jobs of the first stage end in the other order. -/
def backwards : List Event :=
  [.submit, .submit, .loaderTurn .begin, .loaderTurn .take, .loaderTurn .start, .loaderTurn .take, .loaderTurn .start,
    .proceed, .read 1, .read 0, .synthesizerTurn .begin, .emit 0, .endLoad 0, .synthesizerTurn .take,
    .synthesizerTurn .start, .render 0, .loaderTurn (.leave 1), .loaderTurn (.leave 0), .loaderTurn .reap,
    .loaderTurn .reap, .loaderTurn .finish, .proceed,
    .pass 0, .synthesizerTurn (.leave 0), .synthesizerTurn .reap, .synthesizerTurn .finish, .proceed,
    .writerTurn .begin, .writerTurn .take, .writerTurn .start, .number 0, .create 0, .write 0 1, .endStore 0,
    .writerTurn (.leave 0), .writerTurn .reap, .writerTurn .finish, .proceed]

theorem balanced_halfThere : ∃ p,
    (Progress.start ["A.cs", "B.cs"] 2 1 1 oneSource).performAll (plainLanguage "txt") { output := "out" } backwards
      = some p ∧
    p.phase = .over ∧
    Progress.Balanced (plainLanguage "txt") { output := "out" } ["A.cs", "B.cs"]
      (Progress.start ["A.cs", "B.cs"] 2 1 1 oneSource) backwards p := by
  obtain ⟨p, hp, hover⟩ : ∃ p,
      (Progress.start ["A.cs", "B.cs"] 2 1 1 oneSource).performAll (plainLanguage "txt") { output := "out" } backwards
        = some p ∧ p.phase = .over :=
    Option.map_eq_some_iff.mp (by decide +kernel)
  have hall := Progress.balanced_of_performAll (by decide) hp
  exact ⟨p, hp, hover, hall.2 hover⟩

/-! ## A dispatcher that cannot give its permits -/

/-- A configuration that is accepted, and asks for one permit too many. -/
def oversized : Config := { output := "out", loadParallelism := some (Stage.maxPermits + 1) }

/-- The first stage takes the input, and its dispatcher breaks down. -/
def lostInput : List Event :=
  [.submit, .loaderTurn .begin, .proceed, .proceed, .synthesizerTurn .begin, .synthesizerTurn .finish, .proceed,
    .writerTurn .begin, .writerTurn .finish, .proceed]

/-- Loading with this language never breaks down. -/
theorem load_plainLanguage_ne {extension : String} {lookup : Lookup} {root input message : String} {stage : StageName} :
    load (plainLanguage extension) lookup root input ≠ .error (.breakdown stage message) := by
  intro h
  unfold load at h
  split at h
  · cases h
  · split at h
    · cases h
    · split at h
      · cases h
      · simp only [plainLanguage] at h
        cases h

/-- An input that has been sent to a dispatcher that breaks down is neither reported nor read. -/
theorem not_balanced_oversized : oversized.validate oneSource.lookup = .ok () ∧ ∃ p,
    (Progress.start ["A.cs"] (Stage.maxPermits + 1) 1 1 oneSource).performAll (plainLanguage "txt") oversized lostInput
      = some p ∧
    p.phase = .over ∧ p.outcome = ⟨⟨1, 0, 0, 0⟩, [.breakdown .load Stage.permitsRefusal]⟩ ∧
    ¬ Progress.Balanced (plainLanguage "txt") oversized ["A.cs"]
      (Progress.start ["A.cs"] (Stage.maxPermits + 1) 1 1 oneSource) lostInput p := by
  obtain ⟨p, hp, hend⟩ := Option.map_eq_some_iff.mp (show
    ((Progress.start ["A.cs"] (Stage.maxPermits + 1) 1 1 oneSource).performAll (plainLanguage "txt") oversized
      lostInput).map (fun p => (p.phase, p.outcome)) =
        some (.over, ⟨⟨1, 0, 0, 0⟩, [.breakdown .load Stage.permitsRefusal]⟩) by decide +kernel)
  obtain ⟨hover, houtcome⟩ := Prod.mk.inj hend
  refine ⟨by decide +kernel, p, hp, hover, houtcome, fun h => ?_⟩
  obtain ⟨readings, hinputs, -, hall, herrors, -⟩ := h.readings
  -- The one error of the first stage is none that loading an input could end with.
  have hmem : GenerationError.breakdown .load Stage.permitsRefusal ∈
      readings.filterMap (Reading.error? (plainLanguage "txt") oversized.searchRoot) :=
    herrors.mem_iff.mp (List.mem_filter.mpr ⟨by rw [houtcome]; exact List.mem_singleton_self _, rfl⟩)
  obtain ⟨r, -, hr⟩ := List.mem_filterMap.mp hmem
  exact load_plainLanguage_ne (failure?_eq_some hr)

end TestScaffold.Generation
