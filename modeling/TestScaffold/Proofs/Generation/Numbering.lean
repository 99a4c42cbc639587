import Mathlib.Data.List.Pairwise
import TestScaffold.Proofs.Generation.Parallelism

/-!
# Numbers of a run

A unit takes its number before its file is made. Whether that succeeds or not, the number is not given again, so units
and numbers belong together one to one, in whatever order the workers come to it. With an extension without separators
the same holds of units and files, unless an entry with a number is a link or shares its file with another entry: a
file is made without a look at what stands there, and what is written goes wherever the entry leads.

A unit that is made while the dispatcher of the third stage has broken down takes no number
(`not_allNumbered_oversized`).

Results:
* `Numbered`: the numbers taken so far, and what has become of the files; it holds at any time of a run.
* `OwnFiles`: the same for an output directory in which no numbered entry is a link or shares its file.
* `AllNumbered`: the numbers of a run that is over.
* `Progress.numbered_of_performAll`: all of these, for every schedule.
-/

namespace TestScaffold.Generation

/-! ## Numbers, units and files -/

/-- The numbers that units have taken by some time of a run, and the files that these lead to. -/
structure Numbered (lang : Language) (config : Config) (write : Nat) (before : FileSystem) (storings : List Storing)
    (p : Progress) : Prop where
  /-- Each number up to the next one is that of one unit, which has been stored, or not, or is about to be. -/
  taken : (storings.map Storing.id ++ p.writer.pending Progress.taken fun _ => []).Perm
    (List.range' 1 (p.nextId - 1))
  /-- No number is used twice. -/
  ids : storings.Pairwise fun s t => s.id ≠ t.id
  /-- The number of a unit that has been stored leads to a file, and the file holds the text of the unit and nothing
  else, unless another number leads to it. -/
  stored : ∀ s ∈ storings, s.error = none → ∃ bytes,
    p.files.bytesAt? (outputPath lang config.output s.id) = some bytes ∧
      (Undisturbed lang config.output before (write = 1) p.nextId s.id → bytes = Text.encode s.unit.text)
  /-- A unit that has not been stored is reported with its number. -/
  refused : ∀ s ∈ storings, ∀ e, s.error = some e →
    ∃ cause, e = .write (outputPath lang config.output s.id) s.unit.typeName cause
  /-- Where no number leads, nothing is created, changed or removed. -/
  others : ∀ names, (∀ s, before.spotAt names = some s →
    ∀ id, 0 < id → id < p.nextId → spotOf? lang config.output before id ≠ some s) → Untouched before p.files names

/-- Each unit has its own file, in its own entry of the output directory. -/
structure OwnFiles (lang : Language) (config : Config) (before : FileSystem) (directory : List String)
    (storings : List Storing) (p : Progress) : Prop where
  /-- The entry of a unit holds its text and nothing else, whatever stood there before. -/
  stored : ∀ s ∈ storings, s.error = none → ∃ number,
    p.files.node? (entryOf lang directory s.id) = some (.file number) ∧
      (p.files.file number).contents = .bytes (Text.encode s.unit.text) ∧
      p.files.bytesAt? (outputPath lang config.output s.id) = some (Text.encode s.unit.text)
  /-- No two units share a file. -/
  apart : storings.Pairwise fun s t => s.error = none → t.error = none →
    ∀ number, p.files.node? (entryOf lang directory s.id) = some (.file number) →
      p.files.node? (entryOf lang directory t.id) ≠ some (.file number)
  /-- No other entry is created, changed or removed, in the output directory or anywhere else. -/
  others : ∀ names, (∀ id, 0 < id → id < p.nextId → names ≠ entryOf lang directory id) →
    Untouched before p.files names

/-- The numbers of a run that is over are those from one on, and each belongs to one of its units. -/
structure AllNumbered (lang : Language) (storings : List Storing) (p : Progress) : Prop where
  ids : (storings.map Storing.id).Perm (List.range' 1 p.outcome.summary.unitsRendered)
  units : (storings.map Storing.unit).Perm (p.synthesizer.items.filterMap (unit? lang))
  files : p.outcome.summary.filesWritten = storings.countP fun s => s.error.isNone
  errors : (p.outcome.errors.filter fun e => stageOf? e == some .write).Perm (storings.filterMap Storing.error)

namespace Progress

variable {lang : Language} {config : Config} {inputs : List String} {load synth write : Nat} {before : FileSystem}
  {p : Progress} {log : Log}

/-- No number is used twice. -/
theorem Numbers.pairwise_ids {storings : List Storing} {writer : Stage TestUnit Filing} {next written : Nat}
    (h : Numbers storings writer next written) : storings.Pairwise fun s t => s.id ≠ t.id :=
  List.pairwise_map.mp (List.nodup_append.mp (h.ids.perm.nodup_iff.mpr List.nodup_range')).1

/-- The number of a unit that has been stored, or not, has been taken. -/
theorem Numbers.id_lt {storings : List Storing} {writer : Stage TestUnit Filing} {next written : Nat}
    (h : Numbers storings writer next written) {s : Storing} (hs : s ∈ storings) : 0 < s.id ∧ s.id < next := by
  have hmem := List.mem_range'_1.mp (h.ids.perm.mem_iff.mp (List.mem_append_left _ (List.mem_map_of_mem hs)))
  omega

theorem History.numbered (h : History lang config (start inputs load synth write before) log p) :
    Numbered lang config write before log.storings p where
  taken := h.numbers.ids.perm
  ids := h.numbers.pairwise_ids
  stored s hs he := by
    obtain ⟨number, hheld⟩ := h.filed.stored s hs he
    exact hheld.exists_bytesAt? h.filed.evolved
  refused := h.filed.refused
  others _ hn := h.filed.untouched hn

/-- The file of a unit that has been stored, in a directory in which no numbered entry is a link or shares its file. -/
theorem History.exists_file (h : History lang config (start inputs load synth write before) log p)
    (hx : '/' ∉ lang.extension.toList) {directory : List String}
    (hbase : before.locate false config.output = .ok directory) (hu : Unshared lang before directory) {s : Storing}
    (hs : s ∈ log.storings) (he : s.error = none) : ∃ spot number,
      spotOf? lang config.output before s.id = some spot ∧ before.spotAt (entryOf lang directory s.id) = some spot ∧
      p.files.number? spot = some number ∧ p.files.node? (entryOf lang directory s.id) = some (.file number) ∧
      (p.files.file number).contents = .bytes (Text.encode s.unit.text) := by
  obtain ⟨number, ⟨spot, hspot, hnumber⟩, hcontents⟩ := h.filed.stored s hs he
  obtain ⟨hpos, hlt⟩ := h.numbers.id_lt hs
  have hentry := hu.spotAt_entryOf hx hbase hspot
  have hquiet : Undisturbed lang config.output before (write = 1) p.nextId s.id :=
    (Undisturbed.of_numbersApart (hu.numbersApart hx hbase p.nextId) hpos (Nat.le_of_lt hlt)).mono (Nat.le_succ _)
  exact ⟨spot, number, hspot, hentry, hnumber, h.filed.evolved.node?_of_number? hentry hnumber, hcontents hquiet⟩

theorem History.ownFiles (h : History lang config (start inputs load synth write before) log p)
    (hx : '/' ∉ lang.extension.toList) {directory : List String}
    (hbase : before.locate false config.output = .ok directory) (hu : Unshared lang before directory) :
    OwnFiles lang config before directory log.storings p where
  stored s hs he := by
    obtain ⟨spot, number, hspot, -, hnumber, hnode, hcontents⟩ := h.exists_file hx hbase hu hs he
    refine ⟨number, hnode, hcontents, ?_⟩
    rw [h.filed.evolved.bytesAt?_eq hspot hnumber, hcontents]
    rfl
  apart := by
    refine h.numbers.pairwise_ids.imp_of_mem fun {s t} hs ht hne hes het number hfile hfile' => hne ?_
    obtain ⟨spot, known, hspot, hentry, hknown, hnode, -⟩ := h.exists_file hx hbase hu hs hes
    obtain ⟨spot', known', hspot', hentry', hknown', hnode', -⟩ := h.exists_file hx hbase hu ht het
    rw [hnode] at hfile
    rw [hnode'] at hfile'
    cases hfile
    cases hfile'
    rw [h.filed.evolved.spot_eq_of_number? hentry hentry' hknown hknown'] at hspot
    exact hu.id_eq hx hbase hspot hspot'
  others names hn := h.filed.untouched fun s hs id hpos hlt hid => hu.spotAt_ne hx hbase hid (hn id hpos hlt) hs

theorem History.allNumbered (h : History lang config (start inputs load synth write before) log p) (hc : p.Closing)
    (hp : p.phase = .over) : AllNumbered lang log.storings p := by
  have ha := h.account hc hp
  have hlength : p.outcome.summary.unitsRendered = log.storings.length := by
    rw [ha.summary]
    simpa using ha.units.length_eq.symm
  refine ⟨?_, ?_, ?_, ha.errors.filter_write Account.stageOf?_loading Account.stageOf?_making ha.stageOf?_storing⟩
  · rw [hlength]
    exact ha.ids.perm
  · exact ha.units.perm.trans ((h.perm_items hc hp).symm.filterMap _)
  · rw [ha.summary]

/-- Whatever the order in which the workers come to it, the units of a run take the numbers from one on, each its own,
and leave nothing in the file system but the files that the numbers lead to. -/
theorem numbered_of_performAll (hx : '/' ∉ lang.extension.toList) (hall : AllWorkable load synth write)
    {schedule : List Event} (h : (start inputs load synth write before).performAll lang config schedule = some p) :
    Numbered lang config write before ((start inputs load synth write before).storings lang config schedule) p ∧
      (∀ directory, before.locate false config.output = .ok directory → Unshared lang before directory →
        OwnFiles lang config before directory
          ((start inputs load synth write before).storings lang config schedule) p) ∧
      (∃ rest q, p.performAll lang config rest = some q ∧ q.phase = .over) ∧
      (p.phase = .over →
        AllNumbered lang ((start inputs load synth write before).storings lang config schedule) p) := by
  obtain ⟨log, hh, hstorings, -⟩ := exists_history hall h
  rw [← hstorings]
  exact ⟨hh.numbered, fun _ hbase hu => hh.ownFiles hx hbase hu, exists_completion hall h,
    hh.allNumbered (hh.closing (.start inputs hall before))⟩

end Progress

/-! ## A number under which no file can be made -/

/-- Under the first number stands a directory, under the second a file that is longer than the unit. -/
def usedNumbers : FileSystem where
  working := []
  nodes := [(["out"], .directory), (["out", "1.txt"], .directory), (["out", "2.txt"], .file 1),
    (["out", "notes.txt"], .file 2), (["A.cs"], .file 3), (["B.cs"], .file 4)]
  files := [(1, { contents := .text "longer than before" }), (2, { contents := .text "kept" }),
    (3, { contents := .text "A" }), (4, { contents := .text "B" })]

/-- The second unit takes the first number and cannot be stored. The first unit takes the second number all the
same. -/
def passedOver : List Event := twoUnits ++
  [.writerTurn .take, .writerTurn .start, .writerTurn .take, .writerTurn .start,
    .number 1, .number 0, .create 1, .create 0, .write 0 1, .endStore 0,
    .writerTurn (.leave 0), .writerTurn (.leave 0), .writerTurn .reap, .writerTurn .reap,
    .writerTurn .finish, .proceed]

/-- Without links, and with one entry for each file, no entry is a link or shares its file. -/
theorem unshared_of_nodes {lang : Language} {fs : FileSystem} {directory : List String}
    (hnodes : ∀ e ∈ fs.nodes, e.2 = .directory ∨ e.2.number?.isSome)
    (hfiles : (fs.nodes.filterMap fun e => e.2.number?).Nodup) : Unshared lang fs directory := by
  have hmem {names : List String} {node : FileNode} (hnode : fs.node? names = some node) :
      node = .directory ∨ (names, node) ∈ fs.nodes := by
    cases names with
    | nil => exact .inl (Option.some.inj hnode).symm
    | cons name rest =>
      obtain ⟨front, back, hsplit, -⟩ := List.lookup_eq_some_iff.mp hnode
      exact .inr (by simp [hsplit])
  refine ⟨fun id target hnode => ?_, fun id names number hentry hnode => ?_⟩
  · rcases hmem hnode with hdirectory | hnode
    · cases hdirectory
    · rcases hnodes _ hnode with hdirectory | hnumber
      · cases hdirectory
      · cases hnumber
  · rcases hmem hentry with hdirectory | hentry
    · cases hdirectory
    · rcases hmem hnode with hdirectory | hnode
      · cases hdirectory
      · by_contra hne
        have hsymm : Std.Symm fun e f : List String × FileNode =>
            ∀ n, e.2.number? = some n → ∀ m, f.2.number? = some m → n ≠ m :=
          ⟨fun e f hef n hf m he heq => hef m he n hf heq.symm⟩
        have hother : (names, FileNode.file number) ≠ (entryOf lang directory id, FileNode.file number) :=
          fun heq => hne (Prod.mk.inj heq).1
        exact (List.pairwise_filterMap.mp hfiles).forall hnode hentry hother number rfl number rfl rfl

/-- The second unit takes the first number and cannot be stored. The first unit takes the second number all the
same. -/
theorem numbered_passedOver : ∃ p,
    (Progress.start ["A.cs", "B.cs"] 1 1 2 usedNumbers).performAll (plainLanguage "txt") { output := "out" } passedOver
      = some p ∧
    p.phase = .over ∧
    (Progress.start ["A.cs", "B.cs"] 1 1 2 usedNumbers).storings (plainLanguage "txt") { output := "out" } passedOver
      = [⟨1, ⟨"B", "B"⟩, some (.write "out/1.txt" "B" .isADirectory)⟩, ⟨2, ⟨"A", "A"⟩, none⟩] ∧
    p.files = usedNumbers.setFile 1 { contents := .bytes (Text.encode "A") } ∧
    Numbered (plainLanguage "txt") { output := "out" } 2 usedNumbers
      ((Progress.start ["A.cs", "B.cs"] 1 1 2 usedNumbers).storings (plainLanguage "txt") { output := "out" } passedOver)
      p ∧
    OwnFiles (plainLanguage "txt") { output := "out" } usedNumbers ["out"]
      ((Progress.start ["A.cs", "B.cs"] 1 1 2 usedNumbers).storings (plainLanguage "txt") { output := "out" } passedOver)
      p ∧
    AllNumbered (plainLanguage "txt")
      ((Progress.start ["A.cs", "B.cs"] 1 1 2 usedNumbers).storings (plainLanguage "txt") { output := "out" } passedOver)
      p := by
  obtain ⟨p, hp, hend⟩ := Option.map_eq_some_iff.mp (show
    ((Progress.start ["A.cs", "B.cs"] 1 1 2 usedNumbers).performAll (plainLanguage "txt") { output := "out" }
      passedOver).map (fun p => (p.phase, p.files)) =
        some (.over, usedNumbers.setFile 1 { contents := .bytes (Text.encode "A") }) by decide +kernel)
  obtain ⟨hover, hfiles⟩ := Prod.mk.inj hend
  have hx : '/' ∉ (plainLanguage "txt").extension.toList := by decide
  obtain ⟨hnumbered, hown, -, hall⟩ := Progress.numbered_of_performAll hx (by decide) hp
  exact ⟨p, hp, hover, by decide +kernel, hfiles, hnumbered,
    hown ["out"] (by rfl) (unshared_of_nodes (by decide) (by decide)), hall hover⟩

/-! ## Where units and files do not belong together -/

/-- A configuration that is accepted, and asks for one permit too many in the third stage. -/
def oversizedWriter : Config := { output := "out", writeParallelism := some (Stage.maxPermits + 1) }

/-- A unit is made, and the third stage takes it no more. -/
def refusedUnit : List Event :=
  [.submit, .proceed, .writerTurn .begin, .loaderTurn .begin] ++ loadOne ++ [.loaderTurn .finish, .proceed] ++
    [.synthesizerTurn .begin] ++ makeOne ++ [.synthesizerTurn .finish, .proceed, .proceed]

/-- The first number is a link to another entry. -/
def linkedNumber : FileSystem where
  working := []
  nodes := [(["out"], .directory), (["out", "1.txt"], .link "notes.txt"), (["out", "notes.txt"], .file 1),
    (["A.cs"], .file 2)]
  files := [(1, { contents := .text "kept" }), (2, { contents := .text "A" })]

/-- A unit is made and stored. -/
def storedUnit : List Event :=
  [.submit, .proceed, .loaderTurn .begin] ++ loadOne ++ [.loaderTurn .finish, .proceed] ++
    [.synthesizerTurn .begin] ++ makeOne ++ [.synthesizerTurn .finish, .proceed, .writerTurn .begin] ++ storeOne ++
    [.writerTurn .finish, .proceed]

/-- A unit that comes to a dispatcher that has broken down takes no number; and a unit that is stored in an entry that is
a link changes another entry. -/
theorem not_allNumbered_oversized : (oversizedWriter.validate oneSource.lookup = .ok () ∧ ∃ p,
    (Progress.start ["A.cs"] 1 1 (Stage.maxPermits + 1) oneSource).performAll (plainLanguage "txt") oversizedWriter
      refusedUnit = some p ∧
    p.phase = .over ∧
    p.outcome = ⟨⟨1, 1, 1, 0⟩, [.stageClosed .write, .breakdown .write Stage.permitsRefusal]⟩ ∧
    ¬ AllNumbered (plainLanguage "txt")
      ((Progress.start ["A.cs"] 1 1 (Stage.maxPermits + 1) oneSource).storings (plainLanguage "txt") oversizedWriter
        refusedUnit) p) ∧
    ∃ after, Ends (plainLanguage "txt") { output := "out" } ["A.cs"] 1 1 1 linkedNumber ⟨⟨1, 1, 1, 1⟩, []⟩ after ∧
      after.entryAt ["out", "notes.txt"] = .ok (.file (.bytes (Text.encode "A"))) := by
  obtain ⟨p, hp, hend⟩ := Option.map_eq_some_iff.mp (show
    ((Progress.start ["A.cs"] 1 1 (Stage.maxPermits + 1) oneSource).performAll (plainLanguage "txt") oversizedWriter
      refusedUnit).map (fun p => (p.phase, p.outcome)) =
        some (.over, ⟨⟨1, 1, 1, 0⟩, [.stageClosed .write, .breakdown .write Stage.permitsRefusal]⟩) by decide +kernel)
  obtain ⟨hover, houtcome⟩ := Prod.mk.inj hend
  refine ⟨⟨by decide +kernel, p, hp, hover, houtcome, fun h => ?_⟩,
    exists_ends_of_performAll storedUnit (·.entryAt ["out", "notes.txt"]) (by decide +kernel)⟩
  -- No number has been taken, but there is one unit.
  have hlength := h.ids.length_eq
  have hnone : (Progress.start ["A.cs"] 1 1 (Stage.maxPermits + 1) oneSource).storings (plainLanguage "txt")
      oversizedWriter refusedUnit = [] := by decide +kernel
  rw [hnone, houtcome] at hlength
  cases hlength

end TestScaffold.Generation
