import TestScaffold.Proofs.Text.Characters
import TestScaffold.TestUnit.Render
import TestScaffold.Vocabulary

/-!
# Names in a test unit are names

The names of a unit are made from names by putting a fixed word and digits behind them. They are names again, and no
keyword is spelled like one of them.

Results:
* `testTypeName_isIdentifier`, `stubNames_isIdentifier`: the made names are names.
* `ofSpelling?_testTypeName`, `ofSpelling?_of_mem_stubNames`: none of them is a keyword.
-/

namespace TestScaffold.Naming

open Text (IsIdentifier isIdentifierPart isIdentifierPart_of_isDigit isIdentifier_append)

/-- No keyword is spelled with a capital letter. -/
theorem ofSpelling?_of_mem {name : String} (h : 'T' ∈ name.toList) : Keyword.ofSpelling? name = none := by
  cases hk : Keyword.ofSpelling? name with
  | none => rfl
  | some k =>
    have hno : ∀ k ∈ Keyword.all, 'T' ∉ k.spelling.toList := by decide
    rw [← Keyword.spelling_of_ofSpelling? hk] at h
    exact absurd h (hno k (Keyword.mem_all k))

/-! ## The name of the class -/

theorem testTypeName_isIdentifier {name : String} (h : IsIdentifier name.toList) :
    IsIdentifier (testTypeName name).toList := by
  rw [testTypeName, String.toList_append]
  exact isIdentifier_append h (List.all_eq_true.mp (by decide +kernel))

theorem ofSpelling?_testTypeName (name : String) : Keyword.ofSpelling? (testTypeName name) = none := by
  apply ofSpelling?_of_mem
  rw [testTypeName, String.toList_append]
  exact List.mem_append_right _ (by decide)

/-! ## The names of the stubs -/

theorem stubName_isIdentifier {method : String} (h : IsIdentifier method.toList) (n : Nat) :
    IsIdentifier (stubName method n).toList := by
  have hbase : IsIdentifier (method ++ "Test").toList := by
    rw [String.toList_append]
    exact isIdentifier_append h (List.all_eq_true.mp (by decide +kernel))
  have hdigits : ∀ c ∈ (toString n).toList, isIdentifierPart c = true := by
    intro c hc
    have hrepr : c ∈ Nat.toDigits 10 n := by rwa [← Nat.toList_repr]
    exact isIdentifierPart_of_isDigit (Nat.isDigit_of_mem_toDigits (by decide) (by decide) hrepr)
  unfold stubName
  simp only
  split
  · exact hbase
  · rw [String.toList_append]
    exact isIdentifier_append hbase hdigits

theorem ofSpelling?_stubName (method : String) (n : Nat) : Keyword.ofSpelling? (stubName method n) = none := by
  have hbase : 'T' ∈ (method ++ "Test").toList := by
    rw [String.toList_append]
    exact List.mem_append_right _ (by decide)
  apply ofSpelling?_of_mem
  unfold stubName
  simp only
  split
  · exact hbase
  · rw [String.toList_append]
    exact List.mem_append_left _ hbase

theorem exists_firstFree (taken : Std.HashSet String) (method : String) (candidates n : Nat) :
    ∃ k, firstFree taken method candidates n = stubName method k := by
  induction candidates generalizing n with
  | zero => exact ⟨n, rfl⟩
  | succ candidates ih =>
    unfold firstFree
    split
    · exact ih (n + 1)
    · exact ⟨n, rfl⟩

/-- Every stub is named after one of the methods. -/
theorem exists_of_mem_stubNamesFrom {taken : Std.HashSet String} {methods : List String} {name : String}
    (h : name ∈ stubNamesFrom taken methods) : ∃ method ∈ methods, ∃ n, name = stubName method n := by
  induction methods generalizing taken with
  | nil => cases h
  | cons method methods ih =>
    rw [stubNamesFrom] at h
    rcases List.mem_cons.mp h with rfl | h
    · obtain ⟨n, hn⟩ := exists_firstFree taken method taken.size 1
      exact ⟨method, List.mem_cons_self, n, hn⟩
    · obtain ⟨m, hm, n, hn⟩ := ih h
      exact ⟨m, List.mem_cons_of_mem method hm, n, hn⟩

theorem stubNames_isIdentifier {methods : List String} (h : ∀ m ∈ methods, IsIdentifier m.toList) {name : String}
    (hn : name ∈ stubNames methods) : IsIdentifier name.toList := by
  obtain ⟨m, hm, n, rfl⟩ := exists_of_mem_stubNamesFrom hn
  exact stubName_isIdentifier (h m hm) n

theorem ofSpelling?_of_mem_stubNames {methods : List String} {name : String} (hn : name ∈ stubNames methods) :
    Keyword.ofSpelling? name = none := by
  obtain ⟨m, hm, n, rfl⟩ := exists_of_mem_stubNamesFrom hn
  exact ofSpelling?_stubName m n

end TestScaffold.Naming
