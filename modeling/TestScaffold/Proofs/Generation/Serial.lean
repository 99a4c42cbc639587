import TestScaffold.Proofs.Generation.Accounts

/-!
# Runs that do not read what they write

If no input is looked for where the run itself stores a file, all inputs read the same at any time as before the run.
What a finished run has done then depends on the files it started from, and the schedule decides only about the
order.

Results:
* `load_congr`: loading depends only on what stands where the input is looked for.
* `Progress.History.reads_before`: every input reads as before the run.
* `exists_serial`: what a finished run has done, told in terms of the files it started from.
-/

namespace TestScaffold.Generation

/-! ## One input -/

/-- The types found in an input. -/
def typesOf (lang : Language) (lookup : Lookup) (root input : String) : List TypeRequest :=
  (load lang lookup root input).toOption.getD []

/-- The units for the types found in an input. -/
def unitsOf (lang : Language) (lookup : Lookup) (root input : String) : List TestUnit :=
  (typesOf lang lookup root input).filterMap (unit? lang)

/-- The number of units for all inputs, read from some files. -/
def unitCount (lang : Language) (lookup : Lookup) (root : String) (inputs : List String) : Nat :=
  (inputs.flatMap (unitsOf lang lookup root)).length

/-- The paths at which an input is looked for. -/
def candidates (lookup : Lookup) (root input : String) : List String :=
  if (lookup input).isOk || Path.isAbsolute input then [input] else [input, Path.join root input]

theorem isOk_eq_isSome {ε α : Type} (r : Except ε α) : r.isOk = r.toOption.isSome := by
  cases r <;> rfl

theorem readFile_eq {l l' : Lookup} {path : String} (h : (l path).toOption = (l' path).toOption)
    (hok : (l path).isOk = true) : readFile l path = readFile l' path := by
  have heq : l path = l' path := by
    cases hl : l path with
    | error e => simp [hl, Except.isOk, Except.toBool] at hok
    | ok entry =>
      cases hl' : l' path with
      | error e => simp [hl, hl', Except.toOption] at h
      | ok entry' => simpa [hl, hl', Except.toOption] using h
  unfold readFile
  rw [heq]

/-- An input that is found stands at one of its candidates. -/
theorem resolve_eq_some {l : Lookup} {root input path : String} (h : resolve l root input = some path) :
    path ∈ candidates l root input ∧ (l path).isOk = true := by
  unfold resolve at h
  unfold candidates
  split at h
  · rename_i hok
    cases h
    exact ⟨by simp [hok], hok⟩
  · rename_i hok
    split at h
    · cases h
    · rename_i habsolute
      dsimp only at h
      split at h
      · rename_i hrooted
        cases h
        exact ⟨by simp [hok, habsolute], hrooted⟩
      · cases h

theorem resolve_congr {l l' : Lookup} {root input : String}
    (h : ∀ path ∈ candidates l root input, (l' path).toOption = (l path).toOption) :
    resolve l' root input = resolve l root input := by
  have hok {path : String} (hp : path ∈ candidates l root input) : (l' path).isOk = (l path).isOk := by
    rw [isOk_eq_isSome, isOk_eq_isSome, h path hp]
  have hinput : (l' input).isOk = (l input).isOk := by
    apply hok
    unfold candidates
    split <;> simp
  unfold resolve
  rw [hinput]
  split
  · rfl
  · split
    · rfl
    · rename_i hfound habsolute
      have hrooted : (l' (Path.join root input)).isOk = (l (Path.join root input)).isOk := by
        apply hok
        simp [candidates, hfound, habsolute]
      simp only [hrooted]

/-- Loading depends only on what stands where the input is looked for. -/
theorem load_congr (lang : Language) {l l' : Lookup} {root input : String}
    (h : ∀ path ∈ candidates l root input, (l' path).toOption = (l path).toOption) :
    load lang l' root input = load lang l root input := by
  unfold load
  rw [resolve_congr h]
  cases hr : resolve l root input with
  | none => rfl
  | some path =>
    obtain ⟨hp, hok⟩ := resolve_eq_some hr
    dsimp only
    rw [readFile_eq (h path hp).symm hok]

/-- No input is looked for where one of the numbers up to `count` leads. -/
def InputsApart (lang : Language) (config : Config) (inputs : List String) (fs : FileSystem) (count : Nat) : Prop :=
  ∀ input ∈ inputs, ∀ path ∈ candidates fs.lookup config.searchRoot input, ∀ place s,
    fs.locate false path = .ok place → fs.spotAt place = some s →
    ∀ i ∈ List.range' 1 count, spotOf? lang config.output fs i ≠ some s

/-- Paths that lead to something else, or nowhere. -/
theorem inputsApart_of_ne {lang : Language} {config : Config} {inputs : List String} {fs : FileSystem} {count : Nat}
    (h : ∀ input ∈ inputs, ∀ path ∈ candidates fs.lookup config.searchRoot input, ∀ i ∈ List.range' 1 count,
      ((fs.locate false path).toOption.bind fs.spotAt) ≠ spotOf? lang config.output fs i) :
    InputsApart lang config inputs fs count := by
  intro input hin path hp place s hplace hs i hi he
  refine h input hin path hp i hi ?_
  rw [hplace, he]
  exact hs

section

variable {lang : Language} {config : Config} {inputs : List String} {before fs : FileSystem} {count next : Nat}
  {one : Prop} {storings : List Storing} {input : String}

/-- Where no input is looked for where a number leads, what is found is as it was before. -/
theorem toOption_lookup_after (h : InputsApart lang config inputs before count)
    (hs : Stored lang config.output before one storings next fs) (hnext : next ≤ count + 1)
    (hin : input ∈ inputs) {path : String} (hp : path ∈ candidates before.lookup config.searchRoot input) :
    (fs.lookup path).toOption = (before.lookup path).toOption := by
  refine hs.evolved.toOption_lookup fun place s hplace hspot => hs.others place s hspot fun id hpos hlt => ?_
  exact h input hin path hp place s hplace hspot id (List.mem_range'_1.mpr ⟨hpos, by omega⟩)

/-- What is loaded then is as it was before, too. -/
theorem load_after (h : InputsApart lang config inputs before count)
    (hs : Stored lang config.output before one storings next fs) (hnext : next ≤ count + 1) (hin : input ∈ inputs) :
    load lang fs.lookup config.searchRoot input = load lang before.lookup config.searchRoot input :=
  load_congr lang fun _ hp => toOption_lookup_after h hs hnext hin hp

end

namespace Progress

variable {lang : Language} {config : Config} {inputs : List String} {load synth write : Nat} {before : FileSystem}
  {p q : Progress} {readings : List Reading} {log more : Log}

/-! ## How many units there can be -/

/-- A job of the third stage has taken one number at most. -/
theorem length_pending_taken_le (w : Stage TestUnit Filing) :
    (w.pending taken fun _ => []).length ≤ (undone w).length := by
  have hrun : ∀ jobs : List (TestUnit × Filing),
      (jobs.flatMap taken).length ≤ (jobs.flatMap fun job => [job.1]).length := by
    intro jobs
    induction jobs with
    | nil => exact Nat.le_refl 0
    | cons job jobs ih =>
      have hjob : (taken job).length ≤ 1 := by
        obtain ⟨u, filing⟩ := job
        cases filing <;> simp [taken, Filing.id?]
      rw [List.flatMap_cons, List.flatMap_cons, List.length_append, List.length_append, List.length_singleton]
      omega
  have hrunning := hrun w.running
  simp only [undone, Stage.pending, List.length_append]
  have hwait : ((w.hand.toList ++ w.queue).flatMap fun _ => ([] : List Nat)) = [] := by simp
  rw [hwait, List.length_nil]
  omega

/-- At any time, no more numbers have been taken than there are units for the inputs that have been read. -/
theorem History.nextId_le (h : History lang config (start inputs load synth write before) log p) :
    p.nextId - 1 ≤
      ((log.readings.flatMap (Reading.requests lang config.searchRoot)).filterMap (unit? lang)).length := by
  have htaken := h.numbers.ids.length_eq
  have hunits := h.units.sent.length_eq
  have hfound := (h.requests.sent.filterMap (unit? lang)).length_eq
  have hwriter := length_pending_taken_le p.writer
  rw [List.length_append, List.length_map, List.length_range'] at htaken
  rw [List.length_append, List.length_map] at hunits
  rw [List.filterMap_append, List.length_append] at hfound
  omega

/-- What is read in a move is an input of the run. -/
theorem Move.mem_inputs (hm : Move lang config p more q)
    (hl : Loads lang config.searchRoot inputs log.readings p.loader p.unsent p.summary.inputs) {r : Reading}
    (hr : r ∈ more.readings) : r.input ∈ inputs := by
  have hmem {i : Nat} {input : String} (hi : p.loader.running[i]? = some (input, none)) : input ∈ inputs := by
    obtain ⟨front, back, hp, -⟩ := Stage.exists_pending_split hi unread fun x => [x]
    refine hl.read.perm.mem_iff.mp ?_
    rw [hp]
    simp [unread]
  cases hm with
  | load hi =>
    rw [List.mem_singleton.mp hr]
    exact hmem hi
  | loadFails hi =>
    rw [List.mem_singleton.mp hr]
    exact hmem hi
  | _ => cases hr

/-- Where all inputs read as before, the readings yield the types that they would have yielded before. -/
theorem flatMap_requests {root : String} {lookup : Lookup}
    (h : ∀ r ∈ readings, r.result lang root = Generation.load lang lookup root r.input) :
    readings.flatMap (Reading.requests lang root) =
      (readings.map Reading.input).flatMap (typesOf lang lookup root) := by
  rw [List.flatMap_map]
  refine List.flatMap_congr fun r hr => ?_
  rw [Reading.requests, typesOf, h r hr]

theorem filterMap_flatMap_typesOf (lang : Language) (lookup : Lookup) (root : String) (inputs : List String) :
    (inputs.flatMap (typesOf lang lookup root)).filterMap (unit? lang) =
      inputs.flatMap (unitsOf lang lookup root) := by
  rw [List.filterMap_flatMap]
  rfl

/-- Every input reads as before the run. -/
theorem History.reads_before (h : History lang config (start inputs load synth write before) log p)
    (hin : InputsApart lang config inputs before (unitCount lang before.lookup config.searchRoot inputs)) :
    ∀ r ∈ log.readings, r.result lang config.searchRoot =
      Generation.load lang before.lookup config.searchRoot r.input := by
  induction h with
  | nil => simp
  | @snoc log more p q h _ hm ih =>
    intro r hr
    rcases List.mem_append.mp hr with hr | hr
    · exact ih r hr
    · have hmem : r.input ∈ inputs := hm.mem_inputs h.loads hr
      -- The inputs read so far are some of all the inputs, so their units are no more than all units.
      have hcount : p.nextId - 1 ≤ unitCount lang before.lookup config.searchRoot inputs := by
        refine Nat.le_trans h.nextId_le ?_
        rw [flatMap_requests ih, filterMap_flatMap_typesOf]
        have hperm := (h.loads.read.perm.flatMap_right (unitsOf lang before.lookup config.searchRoot)).length_eq
        rw [List.flatMap_append, List.length_append] at hperm
        unfold unitCount
        omega
      rw [Reading.result, hm.files_of_mem hr]
      exact load_after hin h.filed.toStored (by omega) hmem

end Progress

/-! ## Whole runs -/

/-- What a finished run has done: the inputs in the order in which they were read, the types in the order in which
they were done with, and the units in the order in which they were stored. -/
structure Serial (lang : Language) (config : Config) (inputs : List String) (load synth write : Nat)
    (before : FileSystem) (read : List String) (requests : List TypeRequest) (storings : List Storing) (o : Outcome)
    (after : FileSystem) : Prop where
  submitted : Rearranged (load = 1) read inputs
  found : Rearranged (load = 1 ∧ synth = 1) requests
    (read.flatMap (typesOf lang before.lookup config.searchRoot))
  units : Rearranged (write = 1) (storings.map Storing.unit) (requests.filterMap (unit? lang))
  ids : Rearranged (write = 1) (storings.map Storing.id) (List.range' 1 storings.length)
  stored : Stored lang config.output before (write = 1) storings (storings.length + 1) after
  errors : ByStage o.errors
    (read.filterMap fun input => failure? (Generation.load lang before.lookup config.searchRoot input))
    (requests.filterMap fun r => failure? (synthesize lang r)) (storings.filterMap Storing.error)
  summary : o.summary = ⟨inputs.length, requests.length, storings.length, storings.countP fun s => s.error.isNone⟩

/-- What a finished run has done depends on the files it started from, not on those it has written. -/
theorem exists_serial {lang : Language} {config : Config} {inputs : List String} {load synth write : Nat}
    {before after : FileSystem} {o : Outcome} (hall : AllWorkable load synth write)
    (h : Ends lang config inputs load synth write before o after)
    (hin : InputsApart lang config inputs before (unitCount lang before.lookup config.searchRoot inputs)) :
    ∃ read requests storings,
      Serial lang config inputs load synth write before read requests storings o after := by
  obtain ⟨schedule, p, hp, hover, rfl, rfl⟩ := h
  obtain ⟨log, hh, -, -⟩ := Progress.exists_history hall hp
  obtain ⟨hread, hfound, hunits, hids, hstored, herrors, hsummary⟩ :=
    hh.account (hh.closing (.start inputs hall before)) hover
  have hbefore := hh.reads_before hin
  have hfailures : log.readings.filterMap (Reading.error? lang config.searchRoot) =
      (log.readings.map Reading.input).filterMap fun input =>
        failure? (Generation.load lang before.lookup config.searchRoot input) := by
    rw [List.filterMap_map]
    refine List.filterMap_congr fun r hr => ?_
    rw [Reading.error?, hbefore r hr]
    rfl
  refine ⟨log.readings.map Reading.input, log.requests, log.storings, hread, ?_, hunits, hids, hstored, ?_, ?_⟩
  · rw [← Progress.flatMap_requests hbefore]
    exact hfound
  · rw [← hfailures]
    exact herrors
  · rw [hsummary, ← hunits.length_eq, List.length_map]

namespace Serial

variable {lang : Language} {config : Config} {inputs : List String} {load synth write : Nat}
  {before after : FileSystem} {read : List String} {requests : List TypeRequest} {storings : List Storing}
  {o : Outcome} (h : Serial lang config inputs load synth write before read requests storings o after)

include h

/-- The units that have been stored, or not, are those for all inputs. -/
theorem rearranged_units : Rearranged (load = 1 ∧ synth = 1 ∧ write = 1) (storings.map Storing.unit)
    (inputs.flatMap (unitsOf lang before.lookup config.searchRoot)) := by
  have hread := (h.submitted.flatMap (typesOf lang before.lookup config.searchRoot)).filterMap (unit? lang)
  rw [Progress.filterMap_flatMap_typesOf lang before.lookup config.searchRoot inputs] at hread
  have hrequests := h.found.filterMap (unit? lang)
  exact ((h.units.mono fun ho => ho.2.2).trans (hrequests.mono fun ho => ⟨ho.1, ho.2.1⟩)).trans
    (hread.mono fun ho => ho.1)

theorem length_storings : storings.length = unitCount lang before.lookup config.searchRoot inputs := by
  have hlength := h.rearranged_units.length_eq
  rw [List.length_map] at hlength
  exact hlength

theorem length_requests :
    requests.length = (inputs.flatMap (typesOf lang before.lookup config.searchRoot)).length := by
  rw [h.found.length_eq]
  exact (h.submitted.perm.flatMap_right _).length_eq

/-- Only the number of files may depend on more than the inputs. -/
theorem summary_eq : o.summary =
    ⟨inputs.length, (inputs.flatMap (typesOf lang before.lookup config.searchRoot)).length,
      unitCount lang before.lookup config.searchRoot inputs, storings.countP fun s => s.error.isNone⟩ := by
  rw [h.summary, h.length_requests, h.length_storings]

theorem id_mem {s : Storing} (hs : s ∈ storings) :
    s.id ∈ List.range' 1 (unitCount lang before.lookup config.searchRoot inputs) := by
  rw [← h.length_storings]
  exact h.ids.perm.mem_iff.mp (List.mem_map_of_mem hs)

/-- A unit that is stored is found under its number when the run is over, if nothing disturbs it. -/
theorem bytesAt?_eq {s : Storing} (hs : s ∈ storings) (he : s.error = none)
    (hq : Undisturbed lang config.output before (write = 1) (storings.length + 1) s.id) :
    after.bytesAt? (outputPath lang config.output s.id) = some (Text.encode s.unit.text) := by
  obtain ⟨number, hheld⟩ := h.stored.stored s hs he
  obtain ⟨found, hfound, heq⟩ := hheld.exists_bytesAt? h.stored.evolved
  rw [hfound, heq hq]

end Serial

end TestScaffold.Generation
