import Std.Data.String.ToNat
import TestScaffold.Generation.Run
import TestScaffold.Proofs.Files.Writing

/-!
# Numbered files

Units are stored in files that are called by numbers. With an extension that holds no separator a number leads to an
entry of its own in the output directory, so two numbers lead to the same file only where a link stands there, or where
a file has several entries. With a separator they may do so anyway.

Results:
* `place_eq`: a number leads to its own entry in the output directory, unless that is a link.
* `Unshared.numbersApart`: no two numbers lead to the same file where no numbered entry is a link or shares its file.
* `Unshared.spotAt_ne`: no number leads to the file of another entry then.
-/

namespace TestScaffold

namespace Path

theorem not_isAbsolute {name : String} (hn : '/' ∉ name.toList) : isAbsolute name = false := by
  cases h : name.toList with
  | nil => simp [isAbsolute, h]
  | cons c cs =>
    have hc : c ≠ '/' := by
      rintro rfl
      simp [h] at hn
    simp [isAbsolute, h, hc]

/-- The pieces of a path and a name below it are those of the path, but for an empty one at its end, and the name. -/
theorem pieces_join {base name : String} (hbase : base ≠ "") (hn : '/' ∉ name.toList) : ∃ front,
    pieces (join base name) = front ++ [name] ∧ (pieces base = front ∨ pieces base = front ++ [""]) := by
  have hname : name.toList.splitOn '/' = [name.toList] := List.splitOn_eq_singleton hn
  have hnonempty : base.isEmpty = false := by simpa using hbase
  unfold join
  rw [not_isAbsolute hn, hnonempty]
  simp only [Bool.false_eq_true, if_false, Bool.false_or, beq_iff_eq]
  split
  · next hlast =>
    obtain ⟨front, hfront⟩ := List.getLast?_eq_some_iff.mp hlast
    refine ⟨(front.splitOn '/').map String.ofList, ?_, .inr ?_⟩
    · simp [pieces, hfront, List.splitOn_append_cons_self, hname]
    · simp [pieces, hfront, List.splitOn_append_cons_self]
  · refine ⟨pieces base, ?_, .inl rfl⟩
    simp [pieces, List.splitOn_append_cons_self, hname]

theorem isAbsolute_join {base name : String} (hbase : base ≠ "") (hn : '/' ∉ name.toList) :
    isAbsolute (join base name) = isAbsolute base := by
  have hnonempty : base.toList ≠ [] := by simpa using hbase
  have hhead (cs : List Char) : (base.toList ++ cs).head? = base.toList.head? := by
    cases h : base.toList with
    | nil => exact absurd h hnonempty
    | cons c cs => rfl
  unfold join
  rw [not_isAbsolute hn]
  simp only [Bool.false_eq_true, if_false]
  split <;> simp [isAbsolute, hhead]

end Path

namespace FileSystem

variable {fs : FileSystem} {making : Bool} {base name : String} {directory place : List String}

theorem eq_of_start {path : String} (h : fs.start path = .ok place) :
    path ≠ "" ∧ place = if Path.isAbsolute path then [] else fs.working := by
  unfold start at h
  split at h
  · cases h
  · split at h
    · cases h
    · next hempty =>
      split at h
      · cases h
      · cases h
        exact ⟨by simpa using hempty, rfl⟩

/-- A name below the path of a directory leads to this name in it, unless a link stands there. -/
theorem locate_join (hn : '/' ∉ name.toList) (hname : IsName name) (hbase : fs.locate false base = .ok directory)
    (h : fs.locate making (Path.join base name) = .ok place) :
    place = directory ++ [name] ∨ ∃ target, fs.node? (directory ++ [name]) = some (.link target) := by
  rw [locate, bind_ok_iff] at hbase h
  obtain ⟨p, hp, hwalk⟩ := hbase
  obtain ⟨q, hq, h⟩ := h
  obtain ⟨hne, rfl⟩ := eq_of_start hp
  obtain ⟨-, rfl⟩ := eq_of_start hq
  obtain ⟨front, hpieces, hfront⟩ := Path.pieces_join hne hn
  rw [Path.isAbsolute_join hne hn, hpieces] at h
  obtain ⟨found, hfound, -, hplace⟩ := exists_directory_of_walk hname h
  have hsame : fs.walk false maxLinks (if Path.isAbsolute base then [] else fs.working) front = .ok directory := by
    rcases hfront with hfront | hfront
    · rwa [hfront] at hwalk
    · rw [hfront] at hwalk
      exact walk_of_append_empty hwalk
  rw [hfound] at hsame
  cases hsame
  exact hplace

end FileSystem

namespace Generation

open FileSystem (Spot)

/-! ## Numbers as names -/

theorem toList_fileName (id : Nat) (extension : String) :
    (s!"{id}.{extension}").toList = (Nat.repr id).toList ++ '.' :: extension.toList := by
  simp [toString]

theorem separator_notMem_fileName {extension : String} (h : '/' ∉ extension.toList) (id : Nat) :
    '/' ∉ (s!"{id}.{extension}").toList := by
  rw [toList_fileName, List.mem_append, List.mem_cons]
  rintro (hd | hd | hd)
  · rw [Nat.toList_repr] at hd
    have hdigit : ('/').isDigit = true := Nat.isDigit_of_mem_toDigits (by decide) (by decide) hd
    exact absurd hdigit (by decide)
  · exact absurd hd (by decide)
  · exact h hd

/-- A number with an extension is a name. -/
theorem isName_fileName (id : Nat) (extension : String) : FileSystem.IsName s!"{id}.{extension}" := by
  have hdots {s : String} (hs : ∀ c ∈ s.toList, c = '.') : s!"{id}.{extension}" ≠ s := by
    intro he
    obtain ⟨c, cs, hc⟩ : ∃ c cs, (Nat.repr id).toList = c :: cs := by
      rw [Nat.toList_repr]
      exact List.exists_cons_of_ne_nil Nat.toDigits_ne_nil
    have hmem : c ∈ (Nat.repr id).toList := by simp [hc]
    have hdot : c = '.' := by
      apply hs
      rw [← he, toList_fileName]
      exact List.mem_append_left _ hmem
    rw [Nat.toList_repr] at hmem
    have hdigit : c.isDigit = true := Nat.isDigit_of_mem_toDigits (by decide) (by decide) hmem
    rw [hdot] at hdigit
    exact absurd hdigit (by decide)
  exact ⟨hdots (by simp), hdots (by simp), hdots (by simp)⟩

theorem fileName_inj {i j : Nat} {extension : String} (h : s!"{i}.{extension}" = s!"{j}.{extension}") : i = j := by
  have hlist := congrArg String.toList h
  rw [toList_fileName, toList_fileName] at hlist
  exact Nat.repr_inj.mp (String.toList_inj.mp (List.append_cancel_right hlist))

/-! ## What numbers lead to -/

/-- What the path of a number leads to. -/
def spotOf? (lang : Language) (output : String) (fs : FileSystem) (id : Nat) : Option Spot :=
  fs.spot? (outputPath lang output id)

/-- No two of the numbers up to `count` lead to the same file. -/
def NumbersApart (lang : Language) (output : String) (fs : FileSystem) (count : Nat) : Prop :=
  ∀ i ∈ List.range' 1 count, ∀ j ∈ List.range' 1 count, ∀ s,
    spotOf? lang output fs i = some s → spotOf? lang output fs j = some s → i = j

/-- A larger number up to `count` leads to the same file. -/
def Overwritten (lang : Language) (output : String) (fs : FileSystem) (count id : Nat) : Prop :=
  ∃ later s, id < later ∧ later ≤ count ∧ spotOf? lang output fs id = some s ∧ spotOf? lang output fs later = some s

theorem NumbersApart.not_overwritten {lang : Language} {output : String} {fs : FileSystem} {count id : Nat}
    (h : NumbersApart lang output fs count) (hid : 0 < id) : ¬ Overwritten lang output fs count id := by
  rintro ⟨later, s, hlt, hle, hs, ht⟩
  have heq : id = later := h id (List.mem_range'_1.mpr ⟨hid, by omega⟩) later
    (List.mem_range'_1.mpr ⟨by omega, by omega⟩) s hs ht
  omega

/-- The entry of a number in a directory. -/
def entryOf (lang : Language) (directory : List String) (id : Nat) : List String :=
  directory ++ [s!"{id}.{lang.extension}"]

theorem entryOf_inj {lang : Language} {directory : List String} {i j : Nat}
    (h : entryOf lang directory i = entryOf lang directory j) : i = j :=
  fileName_inj (List.singleton_inj.mp (List.append_cancel_left h))

/-- No numbered entry of a directory is a link, or shares its file with another entry. -/
structure Unshared (lang : Language) (fs : FileSystem) (directory : List String) : Prop where
  noLink : ∀ id target, fs.node? (entryOf lang directory id) ≠ some (.link target)
  own : ∀ id names number, fs.node? (entryOf lang directory id) = some (.file number) →
    fs.node? names = some (.file number) → names = entryOf lang directory id

section

variable {lang : Language} {output : String} {fs : FileSystem} {directory names : List String} {making : Bool}
  {id : Nat}

/-- With an extension without separators a number leads to its entry, unless that is a link. -/
theorem place_eq (hext : '/' ∉ lang.extension.toList) (hbase : fs.locate false output = .ok directory)
    (hlink : ∀ target, fs.node? (entryOf lang directory id) ≠ some (.link target))
    (h : fs.locate making (outputPath lang output id) = .ok names) : names = entryOf lang directory id := by
  rcases FileSystem.locate_join (separator_notMem_fileName hext id) (isName_fileName id lang.extension) hbase h with
    hplace | ⟨target, htarget⟩
  · exact hplace
  · exact absurd htarget (hlink target)

namespace Unshared

variable (h : Unshared lang fs directory) (hext : '/' ∉ lang.extension.toList)
  (hbase : fs.locate false output = .ok directory)

include h hext hbase

theorem spotAt_entryOf {s : Spot} (hs : spotOf? lang output fs id = some s) :
    fs.spotAt (entryOf lang directory id) = some s := by
  obtain ⟨place, hplace, hspot⟩ := FileSystem.spot?_eq_some_iff.mp hs
  rwa [place_eq hext hbase (h.noLink id) hplace] at hspot

/-- The file that a number leads to has no other entry. -/
theorem spotAt_ne {s : Spot} (hs : spotOf? lang output fs id = some s) (hne : names ≠ entryOf lang directory id) :
    fs.spotAt names ≠ some s := by
  intro hnames
  have hentry := h.spotAt_entryOf hext hbase hs
  rcases FileSystem.spotAt_eq_some_iff.mp hnames with ⟨number, hnode, rfl⟩ | ⟨-, rfl⟩
  · rcases FileSystem.spotAt_eq_some_iff.mp hentry with ⟨number', hnode', heq⟩ | ⟨-, heq⟩
    · cases heq
      exact hne (h.own id names number hnode' hnode)
    · cases heq
  · rcases FileSystem.spotAt_eq_some_iff.mp hentry with ⟨number, -, heq⟩ | ⟨-, heq⟩
    · cases heq
    · cases heq
      exact hne rfl

/-- Different numbers lead to different files. -/
theorem id_eq {i j : Nat} {s : Spot} (hi : spotOf? lang output fs i = some s) (hj : spotOf? lang output fs j = some s) :
    i = j := by
  refine Decidable.byContradiction fun hne => ?_
  exact h.spotAt_ne hext hbase hj (fun heq => hne (entryOf_inj heq)) (h.spotAt_entryOf hext hbase hi)

theorem numbersApart (count : Nat) : NumbersApart lang output fs count :=
  fun _ _ _ _ _ hi hj => h.id_eq hext hbase hi hj

end Unshared

end

end Generation

end TestScaffold
