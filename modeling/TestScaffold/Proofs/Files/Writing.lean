import TestScaffold.Proofs.Files.Walk

/-!
# What writing changes

A path for a file leads to a file that is there, or to a place where there is nothing yet. Making a file and writing
into it changes what is there and nothing else: no other file, no directory and no link. A file may have several
entries, which change together.

Results:
* `Evolved`: a file system as it is after files have been made and written.
* `Evolved.create`, `Evolved.writeAt`: what one step changes.
* `Evolved.node?_eq`, `Evolved.entryAt_eq`, `Evolved.toOption_lookup`: what is found then.
* `Evolved.bytesAt?_eq`: what the file holds that a path leads to.
-/

namespace TestScaffold.FileSystem

/-- What a path for a file leads to. -/
inductive Spot
  /-- A file that is there. -/
  | known (number : Nat)
  /-- A place where there is nothing yet. -/
  | new (names : List String)
  deriving DecidableEq, Repr

/-- What there is to write at a place. -/
def spotAt (fs : FileSystem) (place : List String) : Option Spot :=
  match fs.node? place with
  | some (.file number) => some (.known number)
  | none => some (.new place)
  | some _ => none

/-- What a path for a file leads to, if it leads anywhere. -/
def spot? (fs : FileSystem) (path : String) : Option Spot := (fs.locate true path).toOption.bind fs.spotAt

/-- The number of the file at a spot, once there is one. -/
def number? (fs : FileSystem) : Spot → Option Nat
  | .known number => some number
  | .new names => (fs.node? names).bind FileNode.number?

/-- The file at a spot, once there is one. -/
def fileOf? (fs : FileSystem) (s : Spot) : Option File := (fs.number? s).map fs.file

/-- What the file holds that a path leads to. -/
def bytesAt? (fs : FileSystem) (path : String) : Option (List UInt8) := do
  let place ← (fs.locate false path).toOption
  let node ← fs.node? place
  return (fs.file (← node.number?)).contents.toBytes

variable {before fs fs' : FileSystem} {names others : List String} {number : Nat} {path : String} {s t : Spot}

theorem spotAt_eq_some_iff : fs.spotAt names = some s ↔
    (∃ number, fs.node? names = some (.file number) ∧ s = .known number) ∨ (fs.node? names = none ∧ s = .new names) := by
  unfold spotAt
  cases fs.node? names with
  | none => simp [eq_comm]
  | some node => cases node <;> simp [eq_comm]

theorem spot?_eq_some_iff : fs.spot? path = some s ↔ ∃ names, fs.locate true path = .ok names ∧ fs.spotAt names = some s := by
  rw [spot?, Option.bind_eq_some_iff]
  simp only [toOption_eq_some_iff]

/-- A file is at the spot of its place. -/
theorem number?_of_node? (h : fs.node? names = some (.file number)) : fs.number? (.new names) = some number := by
  rw [number?, h]
  rfl

theorem number?_new_eq_some_iff : fs.number? (.new names) = some number ↔ fs.node? names = some (.file number) := by
  rw [number?, Option.bind_eq_some_iff]
  constructor
  · rintro ⟨node, hnode, hnumber⟩
    cases node <;> cases hnumber
    exact hnode
  · intro h
    exact ⟨_, h, rfl⟩

/-! ## Numbers -/

theorem le_foldr_max {n : Nat} {ns : List Nat} (h : n ∈ ns) : n ≤ ns.foldr max 0 := by
  induction ns with
  | nil => cases h
  | cons m ns ih =>
    rw [List.foldr_cons]
    rcases List.mem_cons.mp h with rfl | h
    · exact Nat.le_max_left _ _
    · exact Nat.le_trans (ih h) (Nat.le_max_right _ _)

/-- All numbers are below the next one. -/
theorem lt_fresh (h : fs.node? names = some (.file number)) : number < fs.fresh := by
  have hmem : number ∈ fs.nodes.filterMap fun e => e.2.number? := by
    cases names with
    | nil => cases h
    | cons name rest =>
      obtain ⟨front, back, hnodes, -⟩ := List.lookup_eq_some_iff.mp h
      exact List.mem_filterMap.mpr ⟨(name :: rest, .file number), by simp [hnodes], rfl⟩
  exact Nat.lt_succ_of_le (le_foldr_max hmem)

theorem foldr_max_le_of_subset {ms ns : List Nat} (h : ms ⊆ ns) : ms.foldr max 0 ≤ ns.foldr max 0 := by
  have hmem (n : Nat) (hn : n ∈ ns) : n ≤ ns.foldr max 0 := le_foldr_max hn
  induction ms with
  | nil => exact Nat.zero_le _
  | cons m ms ih =>
    rw [List.foldr_cons]
    exact Nat.max_le.mpr ⟨hmem m (h List.mem_cons_self), ih fun n hn => h (List.mem_cons_of_mem m hn)⟩

theorem ne_nil_of_node?_eq_none (h : fs.node? names = none) : names ≠ [] := by
  rintro rfl
  cases h

/-- An entry that is made takes no other away. -/
theorem nodes_put (h : fs.node? names = none) (node : FileNode) :
    (fs.put names node).nodes = (names, node) :: fs.nodes := by
  obtain ⟨name, rest, rfl⟩ := List.exists_cons_of_ne_nil (ne_nil_of_node?_eq_none h)
  have hkeys : ∀ e ∈ fs.nodes, (e.1 != name :: rest) = true := fun e he => by
    have hne := List.lookup_eq_none_iff.mp h e he
    rw [bne_iff_ne] at hne ⊢
    exact hne.symm
  rw [put, List.filter_eq_self.mpr hkeys]

/-! ## File systems after writing -/

/-- Files have been made and written since `before`, and nothing else has changed. -/
structure Evolved (before fs : FileSystem) : Prop where
  ways : SameWays before fs
  /-- Files keep their entries. -/
  kept : ∀ names number, before.node? names = some (.file number) → fs.node? names = some (.file number)
  /-- New files have new numbers, and one entry each. -/
  made : ∀ names number, before.node? names = none → fs.node? names = some (.file number) → before.fresh ≤ number
  apart : ∀ names others number, before.node? names = none → before.node? others = none →
    fs.node? names = some (.file number) → fs.node? others = some (.file number) → names = others
  fresh : before.fresh ≤ fs.fresh
  /-- No entry is there twice that was not before. -/
  keys : ∀ p : List String → Bool,
    ((before.nodes.map Prod.fst).filter p).Nodup → ((fs.nodes.map Prod.fst).filter p).Nodup

namespace Evolved

theorem refl (fs : FileSystem) : Evolved fs fs where
  ways := .refl fs
  kept _ _ h := h
  made _ _ hnone h := by
    rw [hnone] at h
    cases h
  apart _ _ _ hnone _ h := by
    rw [hnone] at h
    cases h
  fresh := Nat.le_refl _
  keys _ h := h

variable (h : Evolved before fs)

include h

theorem node?_eq_none (hnone : fs.node? names = none) : before.node? names = none := by
  cases hb : before.node? names with
  | none => rfl
  | some node =>
    cases node with
    | file number => rw [h.kept names number hb] at hnone; cases hnone
    | directory => rw [(h.ways.directories names).mp hb] at hnone; cases hnone
    | link target => rw [(h.ways.links names target).mp hb] at hnone; cases hnone

/-- A file has been there before, or has been made since. -/
theorem node?_of_file (hfile : fs.node? names = some (.file number)) :
    before.node? names = some (.file number) ∨ before.node? names = none := by
  cases hb : before.node? names with
  | none => exact .inr rfl
  | some node =>
    cases node with
    | file other =>
      rw [h.kept names other hb] at hfile
      cases hfile
      exact .inl rfl
    | directory => rw [(h.ways.directories names).mp hb] at hfile; cases hfile
    | link target => rw [(h.ways.links names target).mp hb] at hfile; cases hfile

/-- A file is at the spot that its place has been before. -/
theorem exists_spotAt_of_file (hfile : fs.node? names = some (.file number)) :
    ∃ s, before.spotAt names = some s ∧ fs.number? s = some number := by
  rcases h.node?_of_file hfile with hb | hb
  · exact ⟨.known number, spotAt_eq_some_iff.mpr (.inl ⟨number, hb, rfl⟩), rfl⟩
  · exact ⟨.new names, spotAt_eq_some_iff.mpr (.inr ⟨hb, rfl⟩), number?_new_eq_some_iff.mpr hfile⟩

theorem number?_lt (hs : before.spotAt names = some s) (hn : fs.number? s = some number) : number < fs.fresh := by
  rcases spotAt_eq_some_iff.mp hs with ⟨known, hb, rfl⟩ | ⟨-, rfl⟩
  · cases hn
    exact Nat.lt_of_lt_of_le (lt_fresh hb) h.fresh
  · exact lt_fresh (number?_new_eq_some_iff.mp hn)

/-- Different spots have different files. -/
theorem spot_eq_of_number? (hs : before.spotAt names = some s) (ht : before.spotAt others = some t)
    (hn : fs.number? s = some number) (hm : fs.number? t = some number) : s = t := by
  have hdifferent {known : Nat} {names others : List String} (hb : before.node? names = some (.file known))
      (hnone : before.node? others = none) (hm : fs.number? (.new others) = some known) : False := by
    have hlt := lt_fresh hb
    have hle := h.made others known hnone (number?_new_eq_some_iff.mp hm)
    omega
  rcases spotAt_eq_some_iff.mp hs with ⟨known, hb, rfl⟩ | ⟨hb, rfl⟩ <;>
    rcases spotAt_eq_some_iff.mp ht with ⟨known', hb', rfl⟩ | ⟨hb', rfl⟩
  · cases hn
    cases hm
    rfl
  · cases hn
    exact (hdifferent hb hb' hm).elim
  · cases hm
    exact (hdifferent hb' hb hn).elim
  · rw [h.apart names others number hb hb' (number?_new_eq_some_iff.mp hn) (number?_new_eq_some_iff.mp hm)]

theorem setFile (number : Nat) (f : File) : Evolved before (fs.setFile number f) where
  ways := h.ways.trans (.setFile fs number f)
  kept names other hb := by
    rw [node?_setFile]
    exact h.kept names other hb
  made names other hb hfile := by
    rw [node?_setFile] at hfile
    exact h.made names other hb hfile
  apart names others other hb hb' hfile hfile' := by
    rw [node?_setFile] at hfile hfile'
    exact h.apart names others other hb hb' hfile hfile'
  fresh := h.fresh
  keys := h.keys

/-- A new file where there has been nothing. -/
theorem put (hnone : fs.node? names = none) : Evolved before (fs.put names (.file fs.fresh)) := by
  have hnil := ne_nil_of_node?_eq_none hnone
  have hnodes := nodes_put hnone (.file fs.fresh)
  refine ⟨h.ways.trans (.put hnil hnone), ?_, ?_, ?_, ?_, ?_⟩
  · intro others number hb
    have hkept := h.kept others number hb
    rw [node?_put fs hnil]
    split
    · rename_i he
      rw [he, hnone] at hkept
      cases hkept
    · exact hkept
  · intro others number hb hfile
    rw [node?_put fs hnil] at hfile
    split at hfile
    · cases hfile
      exact h.fresh
    · exact h.made others number hb hfile
  · intro a b number ha hb hfile hfile'
    rw [node?_put fs hnil] at hfile hfile'
    split at hfile <;> split at hfile'
    · rename_i hea heb
      rw [hea, heb]
    · cases hfile
      exact absurd (lt_fresh hfile') (Nat.lt_irrefl _)
    · cases hfile'
      exact absurd (lt_fresh hfile) (Nat.lt_irrefl _)
    · exact h.apart a b number ha hb hfile hfile'
  · refine Nat.le_trans h.fresh (Nat.succ_le_succ (foldr_max_le_of_subset ?_))
    rw [hnodes]
    exact List.filterMap_subset _ (List.subset_cons_self _ _)
  · intro p hp
    have hkeys := h.keys p hp
    rw [hnodes, List.map_cons, List.filter_cons]
    split
    · refine List.nodup_cons.mpr ⟨fun hmem => ?_, hkeys⟩
      obtain ⟨e, he, hfst⟩ := List.mem_map.mp (List.mem_filter.mp hmem).1
      obtain ⟨name, rest, rfl⟩ := List.exists_cons_of_ne_nil hnil
      exact absurd hfst.symm (bne_iff_ne.mp (List.lookup_eq_none_iff.mp hnone e he))
    · exact hkeys

end Evolved

/-! ## The file at a spot -/

@[simp] theorem number?_setFile (fs : FileSystem) (number : Nat) (f : File) (s : Spot) :
    (fs.setFile number f).number? s = fs.number? s := by
  cases s with
  | known _ => rfl
  | new names => rw [number?, number?, node?_setFile]

theorem fileOf?_eq_some (hn : fs.number? s = some number) : fs.fileOf? s = some (fs.file number) := by
  rw [fileOf?, hn, Option.map_some]

theorem fileOf?_setFile_of_ne (hn : fs.number? s ≠ some number) (f : File) :
    (fs.setFile number f).fileOf? s = fs.fileOf? s := by
  rw [fileOf?, fileOf?, number?_setFile]
  cases hs : fs.number? s with
  | none => rfl
  | some other =>
    have hne : other ≠ number := fun he => hn (by rw [hs, he])
    rw [Option.map_some, Option.map_some, file_setFile, if_neg hne]

theorem number?_put_self (hnone : fs.node? names = none) (number : Nat) :
    (fs.put names (.file number)).number? (.new names) = some number := by
  rw [number?_new_eq_some_iff, node?_put fs (ne_nil_of_node?_eq_none hnone), if_pos rfl]

theorem number?_put_of_ne (hnone : fs.node? names = none) (number : Nat) (hs : s ≠ .new names) :
    (fs.put names (.file number)).number? s = fs.number? s := by
  cases s with
  | known _ => rfl
  | new others =>
    have hne : others ≠ names := fun he => hs (by rw [he])
    rw [number?, number?, node?_put fs (ne_nil_of_node?_eq_none hnone), if_neg hne]

theorem fileOf?_put_of_ne (hnone : fs.node? names = none) (number : Nat) (hs : s ≠ .new names) :
    (fs.put names (.file number)).fileOf? s = fs.fileOf? s := by
  rw [fileOf?, fileOf?, number?_put_of_ne hnone number hs]
  rfl

/-- What changes at one spot only. -/
structure Changed (before fs fs' : FileSystem) (s : Spot) : Prop where
  evolved : Evolved before fs'
  /-- Files keep their numbers. -/
  numbers : ∀ t n, fs.number? t = some n → fs'.number? t = some n
  others : ∀ names t, before.spotAt names = some t → t ≠ s → fs'.fileOf? t = fs.fileOf? t

/-- Making a file at a spot: it is there, and empty. -/
structure Created (before fs fs' : FileSystem) (s : Spot) (number : Nat) : Prop extends Changed before fs fs' s where
  made : fs'.number? s = some number
  empty : (fs'.file number).contents = .bytes []

/-- Where something else changes, a file stays as it is. -/
theorem Changed.file_eq (h : Changed before fs fs' s) (ht : before.spotAt names = some t) (hne : t ≠ s)
    (hn : fs.number? t = some number) : fs'.file number = fs.file number := by
  have hothers := h.others names t ht hne
  rw [fileOf?_eq_some hn, fileOf?_eq_some (h.numbers t number hn)] at hothers
  exact Option.some.inj hothers

theorem contents_writeAt (fs : FileSystem) (number offset : Nat) (values : List UInt8) :
    ((fs.writeAt number offset values).file number).contents = (fs.file number).contents.overwrite offset values := by
  rw [FileSystem.writeAt, file_setFile, if_pos rfl]

/-- Writing nothing into an empty file changes nothing. -/
theorem writeAt_nil_setFile (fs : FileSystem) (number : Nat) {f : File} (hf : f.contents = .bytes []) :
    (fs.setFile number f).writeAt number 0 [] = fs.setFile number f := by
  have hfile : (fs.setFile number f).file number = f := by rw [file_setFile, if_pos rfl]
  have hsame : { f with contents := f.contents.overwrite 0 [] } = f := by
    rw [hf, show (Contents.bytes []).overwrite 0 [] = .bytes [] from rfl, ← hf]
  rw [FileSystem.writeAt, hfile, hsame]
  simp [setFile]

theorem writeAt_nil_of_create (hc : fs.create path = .ok (fs', number)) : fs'.writeAt number 0 [] = fs' := by
  rw [create, bind_ok_iff] at hc
  obtain ⟨place, -, hc⟩ := hc
  split at hc
  · cases hc
    exact writeAt_nil_setFile fs _ rfl
  · cases hc
    exact writeAt_nil_setFile _ _ rfl
  · cases hc

namespace Evolved

variable (h : Evolved before fs)

include h

/-- A file that is replaced is that of one spot. -/
theorem changed_setFile (hs : before.spotAt names = some s) (hn : fs.number? s = some number) (f : File) :
    Changed before fs (fs.setFile number f) s where
  evolved := h.setFile number f
  numbers t n ht := by rw [number?_setFile, ht]
  others others t ht hne := fileOf?_setFile_of_ne (fun hn' => hne (h.spot_eq_of_number? ht hs hn' hn)) f

theorem created_known {f : File} (hs : before.spotAt names = some s) (hn : fs.number? s = some number)
    (hf : f.contents = .bytes []) : Created before fs (fs.setFile number f) s number where
  toChanged := h.changed_setFile hs hn f
  made := by rw [number?_setFile, hn]
  empty := by rw [file_setFile, if_pos rfl, hf]

theorem created_new {f : File} (hnone : fs.node? names = none) (hf : f.contents = .bytes []) :
    Created before fs ((fs.put names (.file fs.fresh)).setFile fs.fresh f) (.new names) fs.fresh where
  evolved := (h.put hnone).setFile fs.fresh f
  made := by rw [number?_setFile, number?_put_self hnone]
  empty := by rw [file_setFile, if_pos rfl, hf]
  numbers t n ht := by
    rw [number?_setFile]
    by_cases he : t = .new names
    · rw [he, number?_new_eq_some_iff, hnone] at ht
      cases ht
    · rw [number?_put_of_ne hnone fs.fresh he, ht]
  others others t ht hne := by
    have hfresh : (fs.put names (.file fs.fresh)).number? t ≠ some fs.fresh := by
      rw [number?_put_of_ne hnone fs.fresh hne]
      exact fun hn => Nat.lt_irrefl _ (h.number?_lt ht hn)
    rw [fileOf?_setFile_of_ne hfresh, fileOf?_put_of_ne hnone fs.fresh hne]

/-- A file that is made stands where its path has led before. -/
theorem create (hc : fs.create path = .ok (fs', number)) :
    ∃ s, before.spot? path = some s ∧ Created before fs fs' s number := by
  rw [FileSystem.create, bind_ok_iff] at hc
  obtain ⟨place, hplace, hc⟩ := hc
  have hbefore := h.ways.symm.locate_eq_ok hplace
  split at hc
  · rename_i known hfile
    cases hc
    obtain ⟨s, hs, hn⟩ := h.exists_spotAt_of_file hfile
    exact ⟨s, spot?_eq_some_iff.mpr ⟨place, hbefore, hs⟩, h.created_known hs hn rfl⟩
  · rename_i hnone
    cases hc
    have hs : before.spotAt place = some (.new place) :=
      spotAt_eq_some_iff.mpr (.inr ⟨h.node?_eq_none hnone, rfl⟩)
    exact ⟨.new place, spot?_eq_some_iff.mpr ⟨place, hbefore, hs⟩, h.created_new hnone rfl⟩
  · cases hc

/-- Bytes written into a file change this file only. -/
theorem writeAt (hs : before.spotAt names = some s) (hn : fs.number? s = some number) (offset : Nat)
    (values : List UInt8) : Changed before fs (fs.writeAt number offset values) s :=
  h.changed_setFile hs hn _

/-! ### What is found -/

/-- Where there is something to write, what is found is the file there. -/
theorem entryAt_eq (hs : before.spotAt names = some s) :
    fs.entryAt names = (fs.fileOf? s).elim (.error .notFound) fun f => .ok f.entry := by
  rcases spotAt_eq_some_iff.mp hs with ⟨number, hb, rfl⟩ | ⟨hb, rfl⟩
  · rw [entryAt, h.kept names number hb]
    rfl
  · cases hn : fs.node? names with
    | none =>
      rw [entryAt, hn, fileOf?, number?, hn]
      rfl
    | some node =>
      cases node with
      | file number =>
        rw [entryAt, hn, fileOf?, number?, hn]
        rfl
      | directory =>
        rw [(h.ways.directories names).mpr hn] at hb
        cases hb
      | link target =>
        rw [(h.ways.links names target).mpr hn] at hb
        cases hb

/-- Where there is nothing to write, what is found is as it was. -/
theorem entryAt_eq_of_none (hs : before.spotAt names = none) : fs.entryAt names = before.entryAt names := by
  cases hb : before.node? names with
  | none =>
    rw [spotAt, hb] at hs
    cases hs
  | some node =>
    cases node with
    | file number =>
      rw [spotAt, hb] at hs
      cases hs
    | directory => rw [entryAt, entryAt, hb, (h.ways.directories names).mp hb]
    | link target => rw [entryAt, entryAt, hb, (h.ways.links names target).mp hb]

theorem node?_of_number? (hs : before.spotAt names = some s) (hn : fs.number? s = some number) :
    fs.node? names = some (.file number) := by
  rcases spotAt_eq_some_iff.mp hs with ⟨known, hb, rfl⟩ | ⟨-, rfl⟩
  · cases hn
    exact h.kept names _ hb
  · exact number?_new_eq_some_iff.mp hn

/-- An entry is made only where a file is. -/
theorem node?_eq (hs : ∀ s, before.spotAt names = some s → fs.fileOf? s = before.fileOf? s) :
    fs.node? names = before.node? names := by
  cases hb : before.node? names with
  | none =>
    have hnumber : (before.number? (.new names)) = none := by rw [number?, hb]; rfl
    have hfile := hs (.new names) (spotAt_eq_some_iff.mpr (.inr ⟨hb, rfl⟩))
    rw [fileOf?, fileOf?, hnumber, Option.map_none, Option.map_eq_none_iff] at hfile
    cases hfs : fs.node? names with
    | none => rfl
    | some node =>
      cases node with
      | file number => rw [number?_of_node? hfs] at hfile; cases hfile
      | directory => rw [(h.ways.directories names).mpr hfs] at hb; cases hb
      | link target => rw [(h.ways.links names target).mpr hfs] at hb; cases hb
  | some node =>
    cases node with
    | file number => exact h.kept names number hb
    | directory => exact (h.ways.directories names).mp hb
    | link target => exact (h.ways.links names target).mp hb

/-- What is found at a place changes only where the file there does. -/
theorem entryAt_congr (hs : ∀ s, before.spotAt names = some s → fs.fileOf? s = before.fileOf? s) :
    fs.entryAt names = before.entryAt names := by
  cases hb : before.spotAt names with
  | none => exact h.entryAt_eq_of_none hb
  | some s => rw [h.entryAt_eq hb, (refl before).entryAt_eq hb, hs s hb]

/-- What is found at a path changes only where the file there does. -/
theorem toOption_lookup (hs : ∀ names s, before.locate false path = .ok names → before.spotAt names = some s →
    fs.fileOf? s = before.fileOf? s) : (fs.lookup path).toOption = (before.lookup path).toOption := by
  have hways := h.ways.toOption_locate false path
  unfold lookup
  cases hb : before.locate false path with
  | error e =>
    cases hf : fs.locate false path with
    | error e' => rfl
    | ok place =>
      rw [hb, hf] at hways
      cases hways
  | ok place =>
    rw [h.ways.locate_eq_ok hb]
    show (fs.entryAt place).toOption = (before.entryAt place).toOption
    rw [h.entryAt_congr fun s => hs place s hb]

/-- The file that a path for a file leads to holds what the file at its spot does. -/
theorem bytesAt?_eq (hs : before.spot? path = some s) (hn : fs.number? s = some number) :
    fs.bytesAt? path = some (fs.file number).contents.toBytes := by
  obtain ⟨place, hplace, hspot⟩ := spot?_eq_some_iff.mp hs
  have hfound : fs.locate false path = .ok place := locate_of_making (h.ways.locate_eq_ok hplace)
  rw [bytesAt?, hfound]
  show (fs.node? place).bind _ = _
  rw [h.node?_of_number? hspot hn]
  rfl

end Evolved

/-! ## Bytes in a row -/

/-- Bytes written behind those that are there. -/
theorem overwrite_take (values : List UInt8) {offset count : Nat} (h : offset + count ≤ values.length) :
    (Contents.bytes (values.take offset)).overwrite offset ((values.drop offset).take count) =
      .bytes (values.take (offset + count)) := by
  have hlength : (values.take offset).length = offset := List.length_take_of_le (by omega)
  have hrest (n : Nat) : (values.take offset).drop (offset + n) = [] :=
    List.drop_eq_nil_of_le (by rw [hlength]; exact Nat.le_add_right offset n)
  rw [Contents.overwrite]
  simp only [Contents.toBytes, hlength, Nat.sub_self, List.replicate_zero, List.append_nil, List.take_take,
    Nat.min_self, hrest, List.take_add]

end TestScaffold.FileSystem
