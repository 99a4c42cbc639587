import TestScaffold.Proofs.Generation.Serial

/-!
# Parallelism does not change the result

Which unit gets which number is up to the schedule, and with it the order of the errors. Everything else is the same
for all runs: the counts, the errors up to their order, and, as long as the numbers lead to different files, the
contents of the numbered files up to their order. Where two numbers lead to the same file they are not
(`contents_crossed`).

Results:
* `sameResult_of_ends`: any two runs from the same files have the same result, if both store all their units.
-/

namespace TestScaffold.Generation

namespace Serial

variable {lang : Language} {config : Config} {inputs : List String} {load synth write : Nat}
  {before after : FileSystem} {read : List String} {requests : List TypeRequest} {storings : List Storing}
  {o : Outcome} (h : Serial lang config inputs load synth write before read requests storings o after)

include h

/-- In a run with as many files as units, all of them are stored. -/
theorem error_eq_none (hw : o.summary.filesWritten = o.summary.unitsRendered) : ∀ s ∈ storings, s.error = none := by
  rw [h.summary] at hw
  intro s hs
  simpa using List.countP_eq_length.mp hw s hs

/-- The counts of a run in which all units are stored. -/
theorem summary_of_stored (hall : ∀ s ∈ storings, s.error = none) : o.summary =
    ⟨inputs.length, (inputs.flatMap (typesOf lang before.lookup config.searchRoot)).length,
      unitCount lang before.lookup config.searchRoot inputs,
      unitCount lang before.lookup config.searchRoot inputs⟩ := by
  have hwritten : storings.countP (fun s => s.error.isNone) = storings.length := by
    rw [List.countP_eq_length]
    intro s hs
    rw [hall s hs]
    rfl
  rw [h.summary_eq, hwritten, h.length_storings]

/-- If all units are stored, every number has its file. -/
theorem exists_storing (hall : ∀ s ∈ storings, s.error = none) {i : Nat}
    (hi : i ∈ List.range' 1 (unitCount lang before.lookup config.searchRoot inputs)) :
    (after.bytesAt? (outputPath lang config.output i)).isSome = true := by
  rw [← h.length_storings] at hi
  obtain ⟨s, hs, rfl⟩ := List.mem_map.mp (h.ids.perm.mem_iff.mpr hi)
  obtain ⟨number, hheld⟩ := h.stored.stored s hs (hall s hs)
  obtain ⟨found, hfound, -⟩ := hheld.exists_bytesAt? h.stored.evolved
  rw [hfound]
  rfl

/-- If all units are stored, and in different files, these hold their texts. -/
theorem perm_bytesAt?
    (hout : NumbersApart lang config.output before (unitCount lang before.lookup config.searchRoot inputs))
    (hall : ∀ s ∈ storings, s.error = none) :
    ((List.range' 1 (unitCount lang before.lookup config.searchRoot inputs)).map fun i =>
        after.bytesAt? (outputPath lang config.output i)).Perm
      ((inputs.flatMap (unitsOf lang before.lookup config.searchRoot)).map fun u => some (Text.encode u.text)) := by
  have hids := h.ids.perm.symm.map fun i => after.bytesAt? (outputPath lang config.output i)
  have htexts : (storings.map Storing.id).map (fun i => after.bytesAt? (outputPath lang config.output i))
      = (storings.map Storing.unit).map fun u => some (Text.encode u.text) := by
    rw [List.map_map, List.map_map]
    refine List.map_congr_left fun s hs => h.bytesAt?_eq hs (hall s hs) ?_
    have hid := List.mem_range'_1.mp (h.id_mem hs)
    rw [h.length_storings]
    exact .of_numbersApart hout hid.1 (by omega)
  rw [← h.length_storings]
  rw [htexts] at hids
  exact hids.trans (h.rearranged_units.perm.map _)

/-- Where no number leads, nothing changes. -/
theorem untouched {names : List String}
    (hn : ∀ s, before.spotAt names = some s →
      ∀ i ∈ List.range' 1 (unitCount lang before.lookup config.searchRoot inputs),
        spotOf? lang config.output before i ≠ some s) : Untouched before after names := by
  refine h.stored.untouched fun s hs id hpos hlt => hn s hs id (List.mem_range'_1.mpr ⟨hpos, ?_⟩)
  rw [h.length_storings] at hlt
  omega

/-- The errors of a run in which all units are stored. -/
theorem perm_errors (hall : ∀ s ∈ storings, s.error = none) : o.errors.Perm
    (inputs.filterMap (fun input => failure? (Generation.load lang before.lookup config.searchRoot input))
      ++ (inputs.flatMap (typesOf lang before.lookup config.searchRoot)).filterMap
          fun r => failure? (synthesize lang r)) := by
  have hnone : storings.filterMap Storing.error = [] := by
    rw [List.filterMap_eq_nil_iff]
    exact hall
  have herrors := h.errors.perm
  have hread := h.submitted.perm
  have hfound := h.found.perm.trans (hread.flatMap_right _)
  rw [hnone, List.append_nil] at herrors
  exact herrors.trans ((hread.filterMap _).append (hfound.filterMap _))

end Serial

/-- Two runs have the same result: the same counts and the same errors up to their order. All numbered files are
there, hold the same contents up to their order, and no other file has changed. -/
structure SameResult (lang : Language) (config : Config) (before : FileSystem) (o o' : Outcome)
    (after after' : FileSystem) : Prop where
  summary : o'.summary = o.summary
  errors : o'.errors.Perm o.errors
  files : ∀ i ∈ List.range' 1 o.summary.filesWritten,
    (after.bytesAt? (outputPath lang config.output i)).isSome = true ∧
      (after'.bytesAt? (outputPath lang config.output i)).isSome = true
  others : ∀ names, (∀ s, before.spotAt names = some s → ∀ i ∈ List.range' 1 o.summary.filesWritten,
      spotOf? lang config.output before i ≠ some s) →
    Untouched before after names ∧ Untouched before after' names
  contents : NumbersApart lang config.output before o.summary.filesWritten →
    ((List.range' 1 o.summary.filesWritten).map fun i => after'.bytesAt? (outputPath lang config.output i)).Perm
      ((List.range' 1 o.summary.filesWritten).map fun i => after.bytesAt? (outputPath lang config.output i))

/-- Parallelism and schedule do not change the result of runs that store all their units. -/
theorem sameResult_of_ends {lang : Language} {config : Config} {inputs : List String}
    {before after after' : FileSystem} {o o' : Outcome} {load synth write load' synth' write' : Nat}
    (hin : InputsApart lang config inputs before (unitCount lang before.lookup config.searchRoot inputs))
    (hp : AllWorkable load synth write) (h : Ends lang config inputs load synth write before o after)
    (hp' : AllWorkable load' synth' write') (h' : Ends lang config inputs load' synth' write' before o' after')
    (hw : o.summary.filesWritten = o.summary.unitsRendered)
    (hw' : o'.summary.filesWritten = o'.summary.unitsRendered) : SameResult lang config before o o' after after' := by
  obtain ⟨read, requests, storings, hs⟩ := exists_serial hp h hin
  obtain ⟨read', requests', storings', hs'⟩ := exists_serial hp' h' hin
  have hall := hs.error_eq_none hw
  have hall' := hs'.error_eq_none hw'
  have hsummary := hs.summary_of_stored hall
  have hcount : o.summary.filesWritten = unitCount lang before.lookup config.searchRoot inputs := by rw [hsummary]
  refine ⟨?_, (hs'.perm_errors hall').trans (hs.perm_errors hall).symm, ?_, ?_, ?_⟩
  · rw [hs'.summary_of_stored hall', hsummary]
  · intro i hi
    rw [hcount] at hi
    exact ⟨hs.exists_storing hall hi, hs'.exists_storing hall' hi⟩
  · intro names hn
    rw [hcount] at hn
    exact ⟨hs.untouched hn, hs'.untouched hn⟩
  · intro hout
    rw [hcount] at hout ⊢
    exact (hs'.perm_bytesAt? hout hall').trans (hs.perm_bytesAt? hout hall).symm

/-! ## Two units in two orders -/

/-- Two inputs, and two directories in the output directory. -/
def twoSources : FileSystem where
  working := []
  nodes := [(["out"], .directory), (["out", "1.x"], .directory), (["out", "2.x"], .directory), (["A.cs"], .file 1),
    (["B.cs"], .file 2)]
  files := [(1, { contents := .text "A" }), (2, { contents := .text "B" })]

/-- An input is loaded, and its one type goes on. -/
def loadOne : List Event :=
  [.loaderTurn .take, .loaderTurn .start, .read 0, .emit 0, .endLoad 0, .loaderTurn (.leave 0), .loaderTurn .reap]

/-- A type is made into a unit. -/
def makeOne : List Event :=
  [.synthesizerTurn .take, .synthesizerTurn .start, .render 0, .pass 0, .synthesizerTurn (.leave 0),
    .synthesizerTurn .reap]

/-- A unit of one byte is stored. -/
def storeOne : List Event :=
  [.writerTurn .take, .writerTurn .start, .number 0, .create 0, .write 0 1, .endStore 0, .writerTurn (.leave 0),
    .writerTurn .reap]

/-- Two inputs are loaded and their types made into units, one after the other. -/
def twoUnits : List Event :=
  [.submit, .submit, .proceed, .loaderTurn .begin] ++ loadOne ++ loadOne ++ [.loaderTurn .finish, .proceed] ++
    [.synthesizerTurn .begin] ++ makeOne ++ makeOne ++ [.synthesizerTurn .finish, .proceed] ++ [.writerTurn .begin]

/-- One unit is stored after the other. -/
def inOrder : List Event := twoUnits ++ storeOne ++ storeOne ++ [.writerTurn .finish, .proceed]

/-- The second unit takes the first number. -/
def crossed : List Event := twoUnits ++
  [.writerTurn .take, .writerTurn .start, .writerTurn .take, .writerTurn .start,
    .number 1, .number 0, .create 1, .write 1 1, .endStore 1, .create 0, .write 0 1, .endStore 0,
    .writerTurn (.leave 0), .writerTurn (.leave 0), .writerTurn .reap, .writerTurn .reap,
    .writerTurn .finish, .proceed]

/-- Both units are stored. -/
def twoStored : Outcome := ⟨⟨2, 2, 2, 2⟩, []⟩

/-- Carrying a schedule out shows how a run may end, and what is left behind. -/
theorem exists_ends_of_performAll {lang : Language} {config : Config} {inputs : List String} {load synth write : Nat}
    {before : FileSystem} {o : Outcome} {β : Type} {b : β} (schedule : List Event) (look : FileSystem → β)
    (h : ((Progress.start inputs load synth write before).performAll lang config schedule).map
      (fun p => (p.phase, p.outcome, look p.files)) = some (.over, o, b)) :
    ∃ after, Ends lang config inputs load synth write before o after ∧ look after = b := by
  obtain ⟨p, hp, he⟩ := Option.map_eq_some_iff.mp h
  rw [Prod.mk.injEq, Prod.mk.injEq] at he
  exact ⟨p.files, ⟨schedule, p, hp, he.1, he.2.1, rfl⟩, he.2.2⟩

/-- What the first two numbers lead to. -/
def firstTwo (extension : String) (fs : FileSystem) : List (Option (List UInt8)) :=
  (List.range' 1 2).map fun i => fs.bytesAt? (outputPath (plainLanguage extension) "out" i)

theorem sameResult_crossed : ∃ after after',
    Ends (plainLanguage "txt") { output := "out" } ["A.cs", "B.cs"] 1 1 1 twoSources twoStored after ∧
    Ends (plainLanguage "txt") { output := "out" } ["A.cs", "B.cs"] 1 1 2 twoSources twoStored after' ∧
    firstTwo "txt" after = [some (Text.encode "A"), some (Text.encode "B")] ∧
    firstTwo "txt" after' = [some (Text.encode "B"), some (Text.encode "A")] ∧
    SameResult (plainLanguage "txt") { output := "out" } twoSources twoStored twoStored after after' := by
  have hin : InputsApart (plainLanguage "txt") { output := "out" } ["A.cs", "B.cs"] twoSources 2 :=
    inputsApart_of_ne (by decide +kernel)
  obtain ⟨after, h, hfirst⟩ : ∃ after,
      Ends (plainLanguage "txt") { output := "out" } ["A.cs", "B.cs"] 1 1 1 twoSources twoStored after ∧
        firstTwo "txt" after = [some (Text.encode "A"), some (Text.encode "B")] :=
    exists_ends_of_performAll inOrder (firstTwo "txt") (by decide +kernel)
  obtain ⟨after', h', hfirst'⟩ : ∃ after,
      Ends (plainLanguage "txt") { output := "out" } ["A.cs", "B.cs"] 1 1 2 twoSources twoStored after ∧
        firstTwo "txt" after = [some (Text.encode "B"), some (Text.encode "A")] :=
    exists_ends_of_performAll crossed (firstTwo "txt") (by decide +kernel)
  exact ⟨after, after', h, h', hfirst, hfirst', sameResult_of_ends hin (by decide) h (by decide) h' rfl rfl⟩

/-- Where two numbers lead to the same file, the order of the units shows in it: the unit that is stored last stays. -/
theorem contents_crossed :
    InputsApart (plainLanguage "x/../q") { output := "out" } ["A.cs", "B.cs"] twoSources 2 ∧ ∃ after after',
    Ends (plainLanguage "x/../q") { output := "out" } ["A.cs", "B.cs"] 1 1 1 twoSources twoStored after ∧
    Ends (plainLanguage "x/../q") { output := "out" } ["A.cs", "B.cs"] 1 1 2 twoSources twoStored after' ∧
    ¬ (firstTwo "x/../q" after').Perm (firstTwo "x/../q" after) := by
  obtain ⟨after, h, hfirst⟩ : ∃ after,
      Ends (plainLanguage "x/../q") { output := "out" } ["A.cs", "B.cs"] 1 1 1 twoSources twoStored after ∧
        firstTwo "x/../q" after = [some (Text.encode "B"), some (Text.encode "B")] :=
    exists_ends_of_performAll inOrder (firstTwo "x/../q") (by decide +kernel)
  obtain ⟨after', h', hfirst'⟩ : ∃ after,
      Ends (plainLanguage "x/../q") { output := "out" } ["A.cs", "B.cs"] 1 1 2 twoSources twoStored after ∧
        firstTwo "x/../q" after = [some (Text.encode "A"), some (Text.encode "A")] :=
    exists_ends_of_performAll crossed (firstTwo "x/../q") (by decide +kernel)
  refine ⟨inputsApart_of_ne (by decide +kernel), after, after', h, h', ?_⟩
  rw [hfirst, hfirst']
  decide +kernel

end TestScaffold.Generation
