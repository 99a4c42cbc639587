import TestScaffold.Proofs.Generation.Ledger
import TestScaffold.Proofs.Generation.NumberedFiles

/-!
# Files of a run

A job of the third stage makes the file that its number leads to, or empties it, and fills it piece by piece while
other jobs do the same with theirs. As long as no other number leads to the same file, the file holds what its job has
written. With a single permit only larger numbers matter, since their jobs come later.

Results:
* `Stored`: what has become of the units that are over, and of all files but theirs.
* `Filed`: the same also for the files that are being written; kept by every move (`Progress.filed_move`).
* `Progress.History.filed`: it holds after every history.
-/

namespace TestScaffold.Generation

open FileSystem (Spot Evolved Changed)

/-- No other number below `next` leads to the same file. Where `one` holds, smaller numbers do not count. -/
def Undisturbed (lang : Language) (output : String) (fs : FileSystem) (one : Prop) (next id : Nat) : Prop :=
  ∀ other s, 0 < other → other < next → other ≠ id → (one → id < other) →
    spotOf? lang output fs id = some s → spotOf? lang output fs other ≠ some s

/-- The file that a number leads to is there, and it holds `bytes` where `quiet` holds. -/
structure Held (lang : Language) (output : String) (before fs : FileSystem) (quiet : Prop) (id number : Nat)
    (bytes : List UInt8) : Prop where
  spot : ∃ s, spotOf? lang output before id = some s ∧ fs.number? s = some number
  contents : quiet → (fs.file number).contents = .bytes bytes

/-- What has become of the units that are over, and of all files but theirs. -/
structure Stored (lang : Language) (output : String) (before : FileSystem) (one : Prop) (storings : List Storing)
    (next : Nat) (fs : FileSystem) : Prop where
  evolved : Evolved before fs
  /-- The file of a unit that has been stored holds its text. -/
  stored : ∀ r ∈ storings, r.error = none → ∃ number,
    Held lang output before fs (Undisturbed lang output before one next r.id) r.id number (Text.encode r.unit.text)
  /-- A unit that has not been stored is reported with its number and the name of its type. -/
  refused : ∀ r ∈ storings, ∀ e, r.error = some e →
    ∃ cause, e = .write (outputPath lang output r.id) r.unit.typeName cause
  /-- A file that no number leads to is as it was. -/
  others : ∀ names s, before.spotAt names = some s →
    (∀ id, 0 < id → id < next → spotOf? lang output before id ≠ some s) → fs.fileOf? s = before.fileOf? s

/-- What has become of all files, also of those that are being written. -/
structure Filed (lang : Language) (output : String) (before : FileSystem) (one : Prop) (storings : List Storing)
    (writer : Stage TestUnit Filing) (next : Nat) (fs : FileSystem) : Prop
    extends Stored lang output before one storings next fs where
  /-- A file that is being written holds what has been written so far. -/
  opened : ∀ u id number written, (u, Filing.opened id number written) ∈ writer.running →
    written ≤ (Text.encode u.text).length ∧
      Held lang output before fs (Undisturbed lang output before one next id) id number
        ((Text.encode u.text).take written)

variable {lang : Language} {output : String} {before fs fs' : FileSystem} {one : Prop} {next id : Nat}

namespace Undisturbed

theorem mono {more : Nat} (h : Undisturbed lang output before one more id) (hle : next ≤ more) :
    Undisturbed lang output before one next id :=
  fun other s hpos hlt => h other s hpos (Nat.lt_of_lt_of_le hlt hle)

theorem of_numbersApart {count : Nat} (h : NumbersApart lang output before count) (hpos : 0 < id) (hle : id ≤ count) :
    Undisturbed lang output before one (count + 1) id := by
  intro other s hother hlt hne _ hs ht
  exact hne (h id (List.mem_range'_1.mpr ⟨hpos, by omega⟩) other (List.mem_range'_1.mpr ⟨hother, by omega⟩) s hs ht).symm

theorem of_not_overwritten {count : Nat} (ho : one) (h : ¬ Overwritten lang output before count id) :
    Undisturbed lang output before one (count + 1) id :=
  fun other s _ hlt _ hlater hs ht => h ⟨other, s, hlater ho, by omega, hs, ht⟩

end Undisturbed

namespace Held

variable {quiet : Prop} {number : Nat} {bytes : List UInt8}

theorem mono {still : Prop} (h : Held lang output before fs quiet id number bytes) (hq : still → quiet) :
    Held lang output before fs still id number bytes := ⟨h.spot, fun hs => h.contents (hq hs)⟩

/-- A file stays as it is while something else changes. -/
theorem changed {t : Spot} (h : Held lang output before fs quiet id number bytes) (hc : Changed before fs fs' t)
    (hne : quiet → spotOf? lang output before id ≠ some t) : Held lang output before fs' quiet id number bytes := by
  obtain ⟨s, hs, hn⟩ := h.spot
  refine ⟨⟨s, hs, hc.numbers s number hn⟩, fun hq => ?_⟩
  obtain ⟨names, -, hspot⟩ := FileSystem.spot?_eq_some_iff.mp hs
  have hother : s ≠ t := fun he => hne hq (by rw [hs, he])
  rw [hc.file_eq hspot hother hn]
  exact h.contents hq

/-- What is there is found under the path of the number. -/
theorem exists_bytesAt? (h : Held lang output before fs quiet id number bytes) (he : Evolved before fs) :
    ∃ found, fs.bytesAt? (outputPath lang output id) = some found ∧ (quiet → found = bytes) := by
  obtain ⟨s, hs, hn⟩ := h.spot
  exact ⟨_, he.bytesAt?_eq hs hn, fun hq => by rw [h.contents hq]; rfl⟩

end Held

/-- An entry is as it was, and so is the file that it leads to. -/
def Untouched (before after : FileSystem) (names : List String) : Prop :=
  after.node? names = before.node? names ∧ after.entryAt names = before.entryAt names

/-- Where no number leads, nothing changes. -/
theorem Stored.untouched {storings : List Storing} {names : List String}
    (h : Stored lang output before one storings next fs)
    (hn : ∀ s, before.spotAt names = some s → ∀ id, 0 < id → id < next → spotOf? lang output before id ≠ some s) :
    Untouched before fs names :=
  ⟨h.evolved.node?_eq fun s hs => h.others names s hs (hn s hs),
    h.evolved.entryAt_congr fun s hs => h.others names s hs (hn s hs)⟩

namespace Progress

/-! ## The number of a job -/

section

variable {storings : List Storing} {writer : Stage TestUnit Filing} {written : Nat}

/-- The number of a running job is its own: no unit that has been stored has it, and no other job. With a single
permit it is larger than all before, and there is no other job. -/
theorem Numbers.exists_own (h : Numbers storings writer next written) {i : Nat} {u : TestUnit} {filing : Filing}
    (hi : writer.running[i]? = some (u, filing)) (hid : filing.id? = some id) :
    (0 < id ∧ id < next) ∧ (∀ r ∈ storings, r.id ≠ id ∧ (writer.width = 1 → r.id < id)) ∧
    ∃ front back, writer.running = front ++ (u, filing) :: back ∧
      (∀ progress, (writer.advance i progress).running = front ++ (u, progress) :: back) ∧
      (∀ error, (writer.finish i error).running = front ++ back) ∧
      ∀ job ∈ front ++ back, job.2.id? ≠ some id ∧ writer.width ≠ 1 := by
  obtain ⟨front, back, hr, ha, hf, ho⟩ := Stage.exists_running_split hi
  have hpending : (writer.pending taken fun _ => []) = front.flatMap taken ++ id :: back.flatMap taken := by
    simp [Stage.pending, hr, taken, hid]
  have hids := h.ids
  rw [hpending] at hids
  have hperm : (id :: (storings.map Storing.id ++ (front.flatMap taken ++ back.flatMap taken))).Perm
      (List.range' 1 (next - 1)) := by
    refine List.Perm.trans ?_ hids.perm
    rw [← List.append_assoc, ← List.append_assoc]
    exact List.perm_middle.symm
  obtain ⟨hnew, -⟩ := List.nodup_cons.mp (hperm.nodup_iff.mpr List.nodup_range')
  refine ⟨?_, fun r hmem => ⟨fun he => ?_, fun hw => ?_⟩, front, back, hr, ha, hf, fun job hjob => ⟨fun he => ?_, ?_⟩⟩
  · have hmem := List.mem_range'_1.mp (hperm.mem_iff.mp List.mem_cons_self)
    omega
  · exact hnew (he ▸ List.mem_append_left _ (List.mem_map_of_mem hmem))
  · have hordered := List.pairwise_lt_range' (s := 1) (n := next - 1)
    rw [← hids.eq hw, List.pairwise_append] at hordered
    exact hordered.2.2 r.id (List.mem_map_of_mem hmem) id (by simp)
  · refine hnew (List.mem_append_right _ ?_)
    rw [← List.flatMap_append]
    exact List.mem_flatMap.mpr ⟨job, hjob, by rw [taken, he]; exact List.mem_singleton_self id⟩
  · intro hw
    obtain ⟨rfl, rfl⟩ := ho hw
    cases hjob

end

/-! ## What every move keeps -/

end Progress

namespace Filed

open Progress (Numbers)

variable {storings : List Storing} {writer w : Stage TestUnit Filing} {written i : Nat} {u : TestUnit}
  {filing : Filing}

/-- Only the jobs that are running matter. -/
theorem of_running (h : Filed lang output before one storings writer next fs)
    (hr : ∀ job ∈ w.running, job ∈ writer.running ∨ job.2 = .unnumbered) :
    Filed lang output before one storings w next fs := by
  refine { h with opened := fun u id number written hmem => ?_ }
  rcases hr _ hmem with hmem | hfresh
  · exact h.opened u id number written hmem
  · cases hfresh

/-- Nothing that has been written is disturbed by a job that has just taken its number. -/
theorem number (h : Filed lang output before one storings writer next fs)
    (hi : writer.running[i]? = some (u, .unnumbered)) :
    Filed lang output before one storings (writer.advance i (.numbered next)) (next + 1) fs := by
  have hmono (id : Nat) : Undisturbed lang output before one (next + 1) id → Undisturbed lang output before one next id :=
    fun hq => hq.mono (Nat.le_succ next)
  obtain ⟨front, back, hr, ha, -, -⟩ := Stage.exists_running_split hi
  refine ⟨⟨h.evolved, fun r hmem he => ?_, h.refused, fun names s hs hfree => ?_⟩, fun v id number written hmem => ?_⟩
  · obtain ⟨number, hheld⟩ := h.stored r hmem he
    exact ⟨number, hheld.mono (hmono r.id)⟩
  · exact h.others names s hs fun id hpos hlt => hfree id hpos (Nat.lt_succ_of_lt hlt)
  · have hbefore : (v, Filing.opened id number written) ∈ writer.running := by
      rw [ha, List.mem_append, List.mem_cons] at hmem
      rw [hr, List.mem_append, List.mem_cons]
      rcases hmem with hmem | heq | hmem
      · exact .inl hmem
      · cases heq
      · exact .inr (.inr hmem)
    obtain ⟨hle, hheld⟩ := h.opened v id number written hbefore
    exact ⟨hle, hheld.mono (hmono id)⟩

/-- A job changes nothing but the file that its number leads to. -/
theorem change (h : Filed lang output before one storings writer next fs) (hn : Numbers storings writer next written)
    (ho : one → writer.width = 1) (hi : writer.running[i]? = some (u, filing)) (hid : filing.id? = some id) {s : Spot}
    (hs : spotOf? lang output before id = some s) (hc : Changed before fs fs' s) {number count : Nat}
    (hcount : count ≤ (Text.encode u.text).length)
    (hheld : Held lang output before fs' (Undisturbed lang output before one next id) id number
      ((Text.encode u.text).take count)) :
    Filed lang output before one storings (writer.advance i (.opened id number count)) next fs' := by
  obtain ⟨⟨hpos, hlt⟩, hstored, front, back, hr, ha, -, hjobs⟩ := hn.exists_own hi hid
  have hkept {other : Nat} (hne : other ≠ id) (hone : one → other < id)
      (hq : Undisturbed lang output before one next other) : spotOf? lang output before other ≠ some s :=
    fun ht => hq id s hpos hlt hne.symm hone ht hs
  refine ⟨⟨hc.evolved, fun r hmem he => ?_, h.refused, fun names t ht hfree => ?_⟩, fun v other number' written' hmem => ?_⟩
  · obtain ⟨number', hheld'⟩ := h.stored r hmem he
    obtain ⟨hne, hless⟩ := hstored r hmem
    exact ⟨number', hheld'.changed hc (hkept hne fun hone => hless (ho hone))⟩
  · have hne : t ≠ s := fun he => hfree id hpos hlt (by rw [hs, he])
    rw [hc.others names t ht hne]
    exact h.others names t ht hfree
  · rw [ha, List.mem_append, List.mem_cons, ← or_left_comm] at hmem
    rcases hmem with heq | hmem
    · cases heq
      exact ⟨hcount, hheld⟩
    · have hjob := List.mem_append.mpr hmem
      obtain ⟨hother, hwidth⟩ := hjobs _ hjob
      have hbefore : (v, Filing.opened other number' written') ∈ writer.running := by
        rw [hr, List.mem_append, List.mem_cons]
        exact hmem.imp (fun hmem => hmem) .inr
      obtain ⟨hle, hheld'⟩ := h.opened v other number' written' hbefore
      exact ⟨hle, hheld'.changed hc (hkept (fun he => hother (by rw [he]; rfl)) fun hone => absurd (ho hone) hwidth)⟩

/-- A job that ends leaves the files as they are. -/
theorem finish (h : Filed lang output before one storings writer next fs) (hi : writer.running[i]? = some (u, filing))
    {error : Option GenerationError}
    (hstored : error = none → ∃ number, Held lang output before fs (Undisturbed lang output before one next id) id
      number (Text.encode u.text))
    (hrefused : ∀ e, error = some e → ∃ cause, e = .write (outputPath lang output id) u.typeName cause) :
    Filed lang output before one (storings ++ [⟨id, u, error⟩]) (writer.finish i error) next fs := by
  obtain ⟨front, back, hr, -, hf, -⟩ := Stage.exists_running_split hi
  refine ⟨⟨h.evolved, fun r hmem he => ?_, fun r hmem e he => ?_, h.others⟩, fun v other number written hmem => ?_⟩
  · rcases List.mem_append.mp hmem with hmem | hmem
    · exact h.stored r hmem he
    · rw [List.mem_singleton.mp hmem] at he ⊢
      exact hstored he
  · rcases List.mem_append.mp hmem with hmem | hmem
    · exact h.refused r hmem e he
    · rw [List.mem_singleton.mp hmem] at he ⊢
      exact hrefused e he
  · refine h.opened v other number written ?_
    rw [hf, List.mem_append] at hmem
    rw [hr, List.mem_append, List.mem_cons]
    exact hmem.imp (fun hmem => hmem) .inr

end Filed

namespace Progress

variable {config : Config} {p q : Progress} {log more : Log}

theorem filed_move (h : Filed lang config.output before one log.storings p.writer p.nextId p.files)
    (hn : Numbers log.storings p.writer p.nextId p.summary.filesWritten) (ho : one → p.writer.width = 1)
    (hm : Move lang config p more q) :
    Filed lang config.output before one (log.append more).storings q.writer q.nextId q.files := by
  cases hm with
  | number hi =>
    simp only [Log.append, List.append_nil]
    exact h.number hi
  | @create i id number u files hi hc =>
    simp only [Log.append, List.append_nil]
    obtain ⟨s, hs, hmade⟩ := h.evolved.create hc
    have hheld : Held lang config.output before files (Undisturbed lang config.output before one p.nextId id) id number
        ((Text.encode u.text).take 0) := ⟨⟨s, hs, hmade.made⟩, fun _ => hmade.empty⟩
    exact h.change hn ho hi rfl hs hmade.toChanged (Nat.zero_le _) hheld
  | @write i id number written count u hi hcount hle =>
    simp only [Log.append, List.append_nil]
    obtain ⟨-, ⟨s, hs, hnumber⟩, hcontents⟩ := h.opened u id number written (List.mem_of_getElem? hi)
    obtain ⟨names, -, hspot⟩ := FileSystem.spot?_eq_some_iff.mp hs
    have hc := h.evolved.writeAt hspot hnumber written (((Text.encode u.text).drop written).take count)
    refine h.change hn ho hi rfl hs hc hle ⟨⟨s, hs, hc.numbers s number hnumber⟩, fun hq => ?_⟩
    rw [FileSystem.contents_writeAt, hcontents hq, FileSystem.overwrite_take _ hle]
  | @endStore i id number u hi =>
    obtain ⟨-, hheld⟩ := h.opened u id number _ (List.mem_of_getElem? hi)
    rw [List.take_length] at hheld
    exact h.finish hi (fun _ => ⟨number, hheld⟩) fun e he => by cases he
  | @refuse i id u filing cause hi =>
    refine h.finish hi (fun he => by cases he) fun e he => ?_
    cases he
    exact ⟨cause, rfl⟩
  | writerTurn ht =>
    simp only [Log.append, List.append_nil]
    exact h.of_running fun _ hj => Stage.mem_running_turn ht hj
  | synthesizerTurn =>
    simp only [Log.append, List.append_nil]
    exact h.of_running fun _ hj => .inl (by simpa using hj)
  | synthesized | pass =>
    simp only [Log.append, List.append_nil]
    exact h.of_running fun _ hj => .inl hj
  | _ =>
    simp only [Log.append, List.append_nil]
    exact h

/-- What becomes of the files holds after every history. -/
theorem History.filed {inputs : List String} {load synth write : Nat}
    (h : History lang config (start inputs load synth write before) log p) :
    Filed lang config.output before (write = 1) log.storings p.writer p.nextId p.files := by
  induction h with
  | nil => exact ⟨⟨.refl before, by simp, by simp, fun _ _ _ _ => rfl⟩, by simp [start]⟩
  | snoc h _ hm ih => exact filed_move ih h.numbers (fun ho => h.widths.2.2.trans ho) hm

end Progress

end TestScaffold.Generation
