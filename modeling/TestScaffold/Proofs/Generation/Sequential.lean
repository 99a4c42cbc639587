import TestScaffold.Proofs.Generation.OneByOne
import TestScaffold.Proofs.Generation.Parallelism

/-!
# One worker for each stage

With one worker for each stage no work overtakes any other. Whatever the stages do at the same time, such a run makes
the units that are made one item after the other, in the same order, and stores them under their positions. Only the
jobs themselves may end in another order: one that has given its permit back is over a little later than its work, so
the errors of a stage may come in any order.

Results:
* `Serial.stored_or_reported`: what has become of a unit.
* `inSequence_of_ends`: what has become of every unit, and which errors are told, for every schedule.
-/

namespace TestScaffold.Generation

/-! ## What a run with one worker for each stage does -/

/-- What has become of a unit. -/
def Storing.result (s : Storing) : Except GenerationError Unit := s.error.elim (.ok ()) .error

theorem Storing.failure?_result (s : Storing) : failure? s.result = s.error := by
  unfold result
  cases s.error <;> rfl

/-- As many units are stored as storings have not failed. -/
theorem length_filterMap_result (storings : List Storing) :
    ((storings.map Storing.result).filterMap Except.toOption).length = storings.countP fun s => s.error.isNone := by
  induction storings with
  | nil => rfl
  | cons s storings ih =>
    rw [List.map_cons, List.countP_cons, ← ih, Storing.result]
    cases s.error <;> rfl

theorem filterMap_result (storings : List Storing) :
    (storings.map Storing.result).filterMap failure? = storings.filterMap Storing.error := by
  rw [List.filterMap_map]
  exact List.filterMap_congr fun s _ => s.failure?_result

namespace Serial

variable {lang : Language} {config : Config} {inputs : List String} {before after : FileSystem} {o : Outcome}
  {read : List String} {requests : List TypeRequest} {storings : List Storing}
  (h : Serial lang config inputs 1 1 1 before read requests storings o after)

include h

/-- The stages tell the errors of the inputs, of the types and of the units. -/
theorem byStage_errors : ByStage o.errors
    (inputs.filterMap fun input => failure? (Generation.load lang before.lookup config.searchRoot input))
    ((inputs.flatMap (typesOf lang before.lookup config.searchRoot)).filterMap fun r => failure? (synthesize lang r))
    ((storings.map Storing.result).filterMap failure?) := by
  have hread : read = inputs := h.submitted.eq rfl
  have hrequests : requests = inputs.flatMap (typesOf lang before.lookup config.searchRoot) := by
    rw [h.found.eq ⟨rfl, rfl⟩, hread]
  have herrors := h.errors
  rw [hread, hrequests] at herrors
  rw [filterMap_result]
  exact herrors

/-- The unit with a position, and the storing of it. -/
theorem getElem?_storings {k : Nat} {u : TestUnit}
    (hu : (inputs.flatMap (unitsOf lang before.lookup config.searchRoot))[k]? = some u) :
    ∃ s, storings[k]? = some s ∧ s.unit = u := by
  rw [← h.rearranged_units.eq ⟨rfl, rfl, rfl⟩, List.getElem?_map] at hu
  exact Option.map_eq_some_iff.mp hu

/-- Numbers are given in the order of the units. -/
theorem id_eq {k : Nat} {s : Storing} (hs : storings[k]? = some s) : s.id = k + 1 := by
  have hk : k < storings.length := (List.getElem?_eq_some_iff.mp hs).1
  have hid : (storings.map Storing.id)[k]? = some s.id := by rw [List.getElem?_map, hs, Option.map_some]
  rw [h.ids.eq rfl, List.getElem?_range' hk] at hid
  have heq := Option.some.inj hid
  omega

/-- A unit that is stored is found under its number, if no later number leads to the same file. -/
theorem bytesAt?_of_not_overwritten {k : Nat} {s : Storing} (hs : storings[k]? = some s) (he : s.error = none)
    (hover : ¬ Overwritten lang config.output before
      (unitCount lang before.lookup config.searchRoot inputs) (k + 1)) :
    after.bytesAt? (outputPath lang config.output (k + 1)) = some (Text.encode s.unit.text) := by
  rw [← h.length_storings, ← h.id_eq hs] at hover
  rw [← h.id_eq hs]
  exact h.bytesAt?_eq (List.mem_of_getElem? hs) he (.of_not_overwritten rfl hover)

/-- What has become of a unit, with its number: it is stored, and stays unless a later number leads to the same file,
or it is reported. -/
theorem stored_or_reported {k : Nat} {u : TestUnit}
    (hu : (inputs.flatMap (unitsOf lang before.lookup config.searchRoot))[k]? = some u) :
    (storings.map Storing.result)[k]? = some (.ok ()) ∧
        (after.bytesAt? (outputPath lang config.output (k + 1)) = some (Text.encode u.text) ∨
          Overwritten lang config.output before (unitCount lang before.lookup config.searchRoot inputs) (k + 1)) ∨
      ∃ cause, (storings.map Storing.result)[k]? =
        some (.error (.write (outputPath lang config.output (k + 1)) u.typeName cause)) := by
  obtain ⟨s, hs, rfl⟩ := h.getElem?_storings hu
  rw [List.getElem?_map, hs, Option.map_some]
  cases he : s.error with
  | none =>
    refine .inl ⟨by rw [Storing.result, he]; rfl, ?_⟩
    by_cases hover : Overwritten lang config.output before
        (unitCount lang before.lookup config.searchRoot inputs) (k + 1)
    · exact .inr hover
    · exact .inl (h.bytesAt?_of_not_overwritten hs he hover)
  | some e =>
    obtain ⟨cause, rfl⟩ := h.stored.refused s (List.mem_of_getElem? hs) e he
    rw [h.id_eq hs] at he
    exact .inr ⟨cause, by rw [Storing.result, he]; rfl⟩

end Serial

/-! ## What fails leaves the others alone -/

section

variable {lang : Language}

theorem unitsOf_of_error {lookup : Lookup} {root input : String} {e : GenerationError}
    (h : load lang lookup root input = .error e) : unitsOf lang lookup root input = [] := by
  rw [unitsOf, typesOf, h]
  rfl

theorem flatMap_unitsOf_of_error {lookup : Lookup} {root input : String} {e : GenerationError}
    (h : load lang lookup root input = .error e) (front back : List String) :
    (front ++ input :: back).flatMap (unitsOf lang lookup root) =
      (front ++ back).flatMap (unitsOf lang lookup root) := by
  rw [List.flatMap_append, List.flatMap_cons, unitsOf_of_error h, List.nil_append, List.flatMap_append]

theorem filterMap_unit?_of_error {request : TypeRequest} {e : GenerationError}
    (h : synthesize lang request = .error e) (front back : List TypeRequest) :
    (front ++ request :: back).filterMap (unit? lang) = (front ++ back).filterMap (unit? lang) := by
  have hnone : unit? lang request = none := by
    rw [unit?, h]
    rfl
  rw [List.filterMap_append, List.filterMap_cons_none hnone, List.filterMap_append]

end

/-! ## The sequential reference -/

/-- A run takes its inputs, types and units in their order; `stored` says what has become of each unit. -/
structure InSequence (lang : Language) (config : Config) (inputs : List String) (before : FileSystem) (o : Outcome)
    (after : FileSystem) (stored : List (Except GenerationError Unit)) : Prop where
  summary : o.summary =
    ⟨inputs.length, (inputs.flatMap (typesOf lang before.lookup config.searchRoot)).length,
      unitCount lang before.lookup config.searchRoot inputs, (stored.filterMap Except.toOption).length⟩
  length : stored.length = unitCount lang before.lookup config.searchRoot inputs
  /-- The errors of the inputs, those of the types, and those of the units. -/
  errors : ByStage o.errors
    (inputs.filterMap fun input => failure? (load lang before.lookup config.searchRoot input))
    ((inputs.flatMap (typesOf lang before.lookup config.searchRoot)).filterMap fun r => failure? (synthesize lang r))
    (stored.filterMap failure?)
  /-- Each unit is stored under its number, or reported with it. -/
  units : ∀ k u, (inputs.flatMap (unitsOf lang before.lookup config.searchRoot))[k]? = some u →
    stored[k]? = some (.ok ()) ∧
        (after.bytesAt? (outputPath lang config.output (k + 1)) = some (Text.encode u.text) ∨
          Overwritten lang config.output before (unitCount lang before.lookup config.searchRoot inputs) (k + 1)) ∨
      ∃ cause, stored[k]? = some (.error (.write (outputPath lang config.output (k + 1)) u.typeName cause))
  /-- An input that fails makes no difference to the units of the others. -/
  withoutInput : ∀ front input back e, inputs = front ++ input :: back →
    load lang before.lookup config.searchRoot input = .error e →
    inputs.flatMap (unitsOf lang before.lookup config.searchRoot) =
      (front ++ back).flatMap (unitsOf lang before.lookup config.searchRoot)
  /-- A type that fails makes no difference to the units of the others. -/
  withoutType : ∀ front request back e,
    inputs.flatMap (typesOf lang before.lookup config.searchRoot) = front ++ request :: back →
    synthesize lang request = .error e →
    inputs.flatMap (unitsOf lang before.lookup config.searchRoot) = (front ++ back).filterMap (unit? lang)

/-- A run with one worker for each stage ends, and may do so as `run` does. However it ends, it does so in sequence.
With an extension without separators, and without links, no file is stored in the place of another. -/
theorem inSequence_of_ends {lang : Language} {config : Config} {inputs : List String} {before : FileSystem}
    (hin : InputsApart lang config inputs before (unitCount lang before.lookup config.searchRoot inputs)) :
    (∃ o after, Ends lang config inputs 1 1 1 before o after) ∧
      (NoneBreaksDown config →
        Ends lang config inputs 1 1 1 before (run lang config inputs before).1 (run lang config inputs before).2) ∧
      (∀ o after, Ends lang config inputs 1 1 1 before o after →
        ∃ stored, InSequence lang config inputs before o after stored) ∧
      ('/' ∉ lang.extension.toList → ∀ directory, before.locate false config.output = .ok directory →
        Unshared lang before directory → ∀ count id, 0 < id → ¬ Overwritten lang config.output before count id) := by
  have hall : AllWorkable 1 1 1 := by decide
  refine ⟨exists_ends lang config inputs before hall, fun hwork => ends_run lang hwork inputs before hall,
    fun o after h => ?_, fun hext directory hbase hu count id hid => ?_⟩
  · obtain ⟨read, requests, storings, hs⟩ := exists_serial hall h hin
    refine ⟨storings.map Storing.result, ?_, ?_, hs.byStage_errors, ?_, ?_, ?_⟩
    · rw [hs.summary_eq, length_filterMap_result]
    · rw [List.length_map, hs.length_storings]
    · intro k u hu
      exact hs.stored_or_reported hu
    · rintro front input back e rfl hfail
      exact flatMap_unitsOf_of_error hfail front back
    · intro front request back e htypes hfail
      rw [← Progress.filterMap_flatMap_typesOf, htypes]
      exact filterMap_unit?_of_error hfail front back
  · exact (hu.numbersApart hext hbase count).not_overwritten hid

theorem inSequence_inOrder : ∃ after stored,
    Ends (plainLanguage "txt") { output := "out" } ["A.cs", "B.cs"] 1 1 1 twoSources twoStored after ∧
    firstTwo "txt" after = [some (Text.encode "A"), some (Text.encode "B")] ∧
    InSequence (plainLanguage "txt") { output := "out" } ["A.cs", "B.cs"] twoSources twoStored after stored := by
  have hin : InputsApart (plainLanguage "txt") { output := "out" } ["A.cs", "B.cs"] twoSources 2 :=
    inputsApart_of_ne (by decide +kernel)
  obtain ⟨after, h, hfirst⟩ : ∃ after,
      Ends (plainLanguage "txt") { output := "out" } ["A.cs", "B.cs"] 1 1 1 twoSources twoStored after ∧
        firstTwo "txt" after = [some (Text.encode "A"), some (Text.encode "B")] :=
    exists_ends_of_performAll inOrder (firstTwo "txt") (by decide +kernel)
  obtain ⟨stored, hstored⟩ := (inSequence_of_ends hin).2.2.1 _ _ h
  exact ⟨after, stored, h, hfirst, hstored⟩

/-! ## What may come in another order -/

/-- Two inputs are not found. The job of the first one has given its permit back, but ends after that of the second. -/
def swapped : List Event :=
  [.submit, .submit, .proceed, .loaderTurn .begin, .loaderTurn .take, .loaderTurn .start, .read 0, .loaderTurn .take,
    .loaderTurn .start, .read 0, .loaderTurn (.leave 1), .loaderTurn (.leave 0), .loaderTurn .reap, .loaderTurn .reap,
    .loaderTurn .finish, .proceed, .synthesizerTurn .begin, .synthesizerTurn .finish, .proceed, .writerTurn .begin,
    .writerTurn .finish, .proceed]

/-- The errors of a stage need not come in the order of its items. And where two numbers lead to the same file, the
first unit is neither found under its number nor reported. -/
theorem unordered_swapped : (∃ after,
    Ends (plainLanguage "txt") { output := "out" } ["C.cs", "D.cs"] 1 1 1 twoSources
      ⟨⟨2, 0, 0, 0⟩, [.notFound "D.cs", .notFound "C.cs"]⟩ after ∧
    ["C.cs", "D.cs"].filterMap (fun input => failure? (load (plainLanguage "txt") twoSources.lookup "." input)) =
      [.notFound "C.cs", .notFound "D.cs"]) ∧
    InputsApart (plainLanguage "x/../q") { output := "out" } ["A.cs", "B.cs"] twoSources 2 ∧ ∃ after,
    Ends (plainLanguage "x/../q") { output := "out" } ["A.cs", "B.cs"] 1 1 1 twoSources twoStored after ∧
    (["A.cs", "B.cs"].flatMap (unitsOf (plainLanguage "x/../q") twoSources.lookup "."))[0]? = some ⟨"A", "A"⟩ ∧
    firstTwo "x/../q" after = [some (Text.encode "B"), some (Text.encode "B")] ∧ twoStored.errors = [] := by
  obtain ⟨after, h, -⟩ := exists_ends_of_performAll swapped (fun _ => ()) (show
    ((Progress.start ["C.cs", "D.cs"] 1 1 1 twoSources).performAll (plainLanguage "txt") { output := "out" } swapped).map
      (fun p => (p.phase, p.outcome, ())) =
        some (.over, ⟨⟨2, 0, 0, 0⟩, [.notFound "D.cs", .notFound "C.cs"]⟩, ()) by decide +kernel)
  obtain ⟨after', h', hfirst⟩ : ∃ after,
      Ends (plainLanguage "x/../q") { output := "out" } ["A.cs", "B.cs"] 1 1 1 twoSources twoStored after ∧
        firstTwo "x/../q" after = [some (Text.encode "B"), some (Text.encode "B")] :=
    exists_ends_of_performAll inOrder (firstTwo "x/../q") (by decide +kernel)
  exact ⟨⟨after, h, by decide +kernel⟩, inputsApart_of_ne (by decide +kernel), after', h', by decide +kernel, hfirst, rfl⟩

end TestScaffold.Generation
