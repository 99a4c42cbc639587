import Mathlib.Data.List.Nodup
import TestScaffold.Proofs.Files.Walk

/-!
# What a directory lists

A directory lists the entries whose names are one longer than its own, each with the text that is found there.

Results:
* `FileSystem.list?_eq_some_iff`: a path lists what the directory does that it leads to.
* `FileSystem.mem_map_fst_list_iff`: a name is listed exactly if something stands under it.
* `FileSystem.nodup_map_fst_list`: no name is listed twice where no entry is there twice.
-/

namespace TestScaffold.FileSystem

variable {fs : FileSystem} {directory : List String} {name path : String}

/-- Whether an entry is one of a directory. -/
def isBelow (directory names : List String) : Bool := names.getLast?.isSome && names.dropLast == directory

theorem isBelow_iff {names : List String} : isBelow directory names = true ↔ ∃ name, names = directory ++ [name] := by
  rw [isBelow, Bool.and_eq_true, Option.isSome_iff_exists, beq_iff_eq]
  constructor
  · rintro ⟨⟨name, hname⟩, rfl⟩
    obtain ⟨front, rfl⟩ := List.getLast?_eq_some_iff.mp hname
    exact ⟨name, by rw [List.dropLast_concat]⟩
  · rintro ⟨name, rfl⟩
    exact ⟨⟨name, List.getLast?_concat⟩, List.dropLast_concat⟩

/-- The names of the entries of a directory, in the order in which they are kept. -/
def below (fs : FileSystem) (directory : List String) : List (List String) :=
  (fs.nodes.map Prod.fst).filter (isBelow directory)

/-- A directory lists the names of its entries. -/
theorem perm_map_fst_list (fs : FileSystem) (directory : List String) :
    ((fs.list directory).map Prod.fst).Perm ((fs.below directory).map fun names => names.getLast?.getD "") := by
  refine ((List.mergeSort_perm _ _).map Prod.fst).trans (.of_eq ?_)
  rw [below, List.filter_map, List.map_map, List.map_filterMap, ← List.filterMap_eq_map, List.filterMap_filter]
  refine List.filterMap_congr fun e _ => ?_
  obtain ⟨names, node⟩ := e
  rcases List.eq_nil_or_concat names with rfl | ⟨front, name, rfl⟩
  · rfl
  · simp [isBelow]

theorem mem_below_iff : directory ++ [name] ∈ fs.below directory ↔ fs.node? (directory ++ [name]) ≠ none := by
  have hnode : fs.node? (directory ++ [name]) = fs.nodes.lookup (directory ++ [name]) := by
    cases directory <;> rfl
  rw [below, List.mem_filter, hnode, Ne, List.lookup_eq_none_iff]
  constructor
  · rintro ⟨hmem, -⟩ hall
    obtain ⟨e, he, heq⟩ := List.mem_map.mp hmem
    exact bne_iff_ne.mp (hall e he) heq.symm
  · intro hnot
    refine ⟨?_, isBelow_iff.mpr ⟨name, rfl⟩⟩
    by_contra hmem
    exact hnot fun e he => bne_iff_ne.mpr fun heq => hmem (List.mem_map.mpr ⟨e, he, heq.symm⟩)

/-- A name is listed exactly if something stands under it. -/
theorem mem_map_fst_list_iff : name ∈ (fs.list directory).map Prod.fst ↔ fs.node? (directory ++ [name]) ≠ none := by
  rw [(fs.perm_map_fst_list directory).mem_iff, List.mem_map, ← mem_below_iff]
  constructor
  · rintro ⟨names, hmem, heq⟩
    obtain ⟨other, rfl⟩ := isBelow_iff.mp (List.mem_filter.mp hmem).2
    rw [List.getLast?_concat, Option.getD_some] at heq
    rwa [← heq]
  · intro hmem
    exact ⟨_, hmem, by rw [List.getLast?_concat, Option.getD_some]⟩

/-- Where no entry is there twice, no name is listed twice. -/
theorem nodup_map_fst_list (h : (fs.below directory).Nodup) : ((fs.list directory).map Prod.fst).Nodup := by
  refine (fs.perm_map_fst_list directory).nodup_iff.mpr (h.map_on ?_)
  intro names hnames others hothers heq
  obtain ⟨name, rfl⟩ := isBelow_iff.mp (List.mem_filter.mp hnames).2
  obtain ⟨other, rfl⟩ := isBelow_iff.mp (List.mem_filter.mp hothers).2
  rw [List.getLast?_concat, List.getLast?_concat, Option.getD_some, Option.getD_some] at heq
  rw [heq]

theorem below_eq_nil (h : fs.list directory = []) : fs.below directory = [] := by
  have hperm := fs.perm_map_fst_list directory
  rw [h, List.map_nil, List.nil_perm, List.map_eq_nil_iff] at hperm
  exact hperm

/-- Below a directory that lists nothing there is nothing. -/
theorem node?_of_list_eq_nil (h : fs.list directory = []) (name : String) : fs.node? (directory ++ [name]) = none := by
  by_contra hnode
  have hmem := mem_below_iff.mpr hnode
  rw [below_eq_nil h] at hmem
  cases hmem

/-- A path lists what the directory does that it leads to. -/
theorem list?_eq_some_iff {files : List (String × Option String)} : fs.list? path = some files ↔
    ∃ directory, fs.locate false path = .ok directory ∧ fs.node? directory = some .directory ∧
      files = fs.list directory := by
  rw [list?, Option.bind_eq_bind, Option.bind_eq_some_iff]
  constructor
  · rintro ⟨directory, hd, hfiles⟩
    split at hfiles
    · rename_i hdirectory
      exact ⟨directory, toOption_eq_some_iff.mp hd, hdirectory, (Option.some.inj hfiles).symm⟩
    · cases hfiles
  · rintro ⟨directory, hd, hdirectory, rfl⟩
    exact ⟨directory, toOption_eq_some_iff.mpr hd, if_pos hdirectory⟩

end TestScaffold.FileSystem
