import Mathlib.Data.List.Basic
import Std.Data.HashSet.Lemmas
import Std.Data.String.ToNat
import TestScaffold.TestUnit.Render

/-!
# Stubs are numbered by occurrence

The name of a stub tells its method and its number: what follows the last letter are the digits of the number, and a
method's own name ends in front of the word behind it. So the names that the stubs of one method take never stand in
the way of another method, and the search for a free name always ends at the number of the occurrence.

Results:
* `stubName_inj`: different methods or different numbers make different names.
* `Taken`: the names taken after some methods are those of their occurrences; kept by every stub (`Taken.insert`).
* `stubNames_numbered`: which name each stub gets.
-/

namespace TestScaffold.Naming

/-! ## What a name tells -/

/-- The digits behind the `n`-th name for a stub, of which the first one has none. -/
def stubDigits (n : Nat) : List Char := if n ≤ 1 then [] else (toString n).toList

theorem toList_stubName (method : String) (n : Nat) :
    (stubName method n).toList = method.toList ++ "Test".toList ++ stubDigits n := by
  unfold stubName stubDigits
  simp only
  split <;> simp [String.toList_append]

theorem isDigit_of_mem_stubDigits {n : Nat} {c : Char} (hc : c ∈ stubDigits n) : c.isDigit = true := by
  unfold stubDigits at hc
  split at hc
  · cases hc
  · have hrepr : c ∈ Nat.toDigits 10 n := by rwa [← Nat.toList_repr]
    exact Nat.isDigit_of_mem_toDigits (by decide) (by decide) hrepr

theorem stubDigits_inj {i j : Nat} (hi : 1 ≤ i) (hj : 1 ≤ j) (h : stubDigits i = stubDigits j) : i = j := by
  have hsome {n : Nat} : (toString n).toList ≠ [] := by
    change (Nat.repr n).toList ≠ []
    rw [Nat.toList_repr]
    exact Nat.toDigits_ne_nil
  unfold stubDigits at h
  split_ifs at h with h₁ h₂ h₂
  · omega
  · exact absurd h.symm hsome
  · exact absurd h hsome
  · exact Nat.repr_inj.mp (String.toList_inj.mp h)

/-- Read from its end, a name shows its digits up to the last letter of the word in front of them. -/
theorem takeWhile_reverse_stubName (method : String) (n : Nat) :
    (stubName method n).toList.reverse.takeWhile Char.isDigit = (stubDigits n).reverse := by
  have hword : ("Test".toList).reverse = ['t', 's', 'e', 'T'] := by decide
  have hdigits : ∀ c ∈ (stubDigits n).reverse, c.isDigit = true := by
    intro c hc
    exact isDigit_of_mem_stubDigits (List.mem_reverse.mp hc)
  rw [toList_stubName, List.reverse_append, List.reverse_append, hword, List.takeWhile_append_of_pos hdigits]
  simp

/-- Different methods or different numbers make different names. -/
theorem stubName_inj {m m' : String} {i j : Nat} (hi : 1 ≤ i) (hj : 1 ≤ j) (h : stubName m i = stubName m' j) :
    m = m' ∧ i = j := by
  have hdigits : stubDigits i = stubDigits j := by
    apply List.reverse_injective
    rw [← takeWhile_reverse_stubName m, h, takeWhile_reverse_stubName]
  have hlist : m.toList ++ "Test".toList ++ stubDigits i = m'.toList ++ "Test".toList ++ stubDigits i := by
    rw [← toList_stubName, h, toList_stubName, hdigits]
  have hmethod : m.toList = m'.toList := List.append_cancel_right (List.append_cancel_right hlist)
  exact ⟨String.toList_inj.mp hmethod, stubDigits_inj hi hj hdigits⟩

/-! ## Which names are taken -/

/-- After stubs for the methods `done` the taken names are those of their occurrences, each taken once. -/
structure Taken (taken : Std.HashSet String) (done : List String) : Prop where
  mem_iff : ∀ name, name ∈ taken ↔ ∃ m i, 1 ≤ i ∧ i ≤ done.count m ∧ name = stubName m i
  size_eq : taken.size = done.length

namespace Taken

variable {taken : Std.HashSet String} {done : List String}

theorem empty : Taken {} [] := by
  refine ⟨fun name => ?_, Std.HashSet.size_empty⟩
  constructor
  · intro h
    exact absurd h Std.HashSet.not_mem_empty
  · rintro ⟨m, i, hi, hle, -⟩
    have hzero : i ≤ 0 := hle
    omega

/-- A numbered name is taken if the method has occurred that often. -/
theorem stubName_mem_iff (h : Taken taken done) (method : String) {n : Nat} (hn : 1 ≤ n) :
    stubName method n ∈ taken ↔ n ≤ done.count method := by
  rw [h.mem_iff]
  constructor
  · rintro ⟨m, i, hi, hle, he⟩
    obtain ⟨rfl, rfl⟩ := stubName_inj hn hi he
    exact hle
  · intro hle
    exact ⟨method, n, hn, hle, rfl⟩

/-- The stub of one more method takes the name of its occurrence. -/
theorem insert (h : Taken taken done) (method : String) :
    Taken (taken.insert (stubName method (done.count method + 1))) (done ++ [method]) := by
  have hcount (m : String) : (done ++ [method]).count m = done.count m + if method = m then 1 else 0 := by
    rw [List.count_append, List.count_singleton]
    simp only [beq_iff_eq]
  have hfree : stubName method (done.count method + 1) ∉ taken := by
    rw [h.stubName_mem_iff method (by omega)]
    omega
  refine ⟨fun name => ?_, ?_⟩
  · rw [Std.HashSet.mem_insert, h.mem_iff]
    simp only [beq_iff_eq]
    constructor
    · rintro (rfl | ⟨m, i, hi, hle, rfl⟩)
      · exact ⟨method, done.count method + 1, by omega, Nat.le_of_eq (by rw [hcount, if_pos rfl]), rfl⟩
      · exact ⟨m, i, hi, by rw [hcount]; omega, rfl⟩
    · rintro ⟨m, i, hi, hle, rfl⟩
      rw [hcount] at hle
      by_cases hlast : i ≤ done.count m
      · exact .inr ⟨m, i, hi, hlast, rfl⟩
      · split_ifs at hle with hm
        · subst hm
          have hi : i = done.count method + 1 := by omega
          exact .inl (by rw [hi])
        · omega
  · rw [Std.HashSet.size_insert, if_neg hfree, h.size_eq, List.length_append]
    rfl

end Taken

/-! ## The search for a free name -/

/-- A search that is long enough ends at the first name that is not taken. -/
theorem firstFree_eq {taken : Std.HashSet String} {method : String} {candidates n k : Nat} (hn : n ≤ k)
    (hk : k ≤ n + candidates) (htaken : ∀ i, n ≤ i → i < k → stubName method i ∈ taken)
    (hfree : stubName method k ∉ taken) : firstFree taken method candidates n = stubName method k := by
  induction candidates generalizing n with
  | zero =>
    have hnk : n = k := by omega
    rw [firstFree, hnk]
  | succ candidates ih =>
    rw [firstFree]
    by_cases hnk : n = k
    · rw [hnk, if_neg (by simpa using hfree)]
    · have hmem : stubName method n ∈ taken := htaken n (Nat.le_refl n) (by omega)
      rw [if_pos (by simpa using hmem)]
      exact ih (by omega) (by omega) fun i hi hik => htaken i (by omega) hik

/-- The search ends at the number of the occurrence. -/
theorem Taken.firstFree_eq {taken : Std.HashSet String} {done : List String} (h : Taken taken done)
    (method : String) : firstFree taken method taken.size 1 = stubName method (done.count method + 1) := by
  have hcount : done.count method ≤ done.length := List.count_le_length
  refine Naming.firstFree_eq (by omega) (by rw [h.size_eq]; omega) (fun i hi hik => ?_) ?_
  · rw [h.stubName_mem_iff method hi]
    omega
  · rw [h.stubName_mem_iff method (by omega)]
    omega

/-- Behind the methods `done`, every stub is named by the number of its occurrence. -/
theorem Taken.getElem?_stubNamesFrom {taken : Std.HashSet String} {done methods : List String}
    (h : Taken taken done) (i : Nat) : (stubNamesFrom taken methods)[i]? =
      methods[i]?.map fun m => stubName m ((done ++ methods.take i).count m + 1) := by
  induction methods generalizing taken done i with
  | nil => simp [stubNamesFrom]
  | cons method methods ih =>
    rw [stubNamesFrom, h.firstFree_eq]
    cases i with
    | zero => simp
    | succ i =>
      simp only [List.getElem?_cons_succ, ih (h.insert method) i, List.take_succ_cons, List.append_assoc,
        List.singleton_append]

theorem getElem?_stubNames (methods : List String) (i : Nat) :
    (stubNames methods)[i]? = methods[i]?.map fun m => stubName m ((methods.take i).count m + 1) :=
  Taken.empty.getElem?_stubNamesFrom i

theorem count_take_succ {methods : List String} {i : Nat} {m : String} (hm : methods[i]? = some m) (name : String) :
    (methods.take (i + 1)).count name = (methods.take i).count name + if m = name then 1 else 0 := by
  rw [List.take_add_one, hm, List.count_append]
  simp [List.count_singleton]

/-- No two stubs have the same name. -/
theorem nodup_stubNames (methods : List String) : (stubNames methods).Nodup := by
  rw [List.nodup_iff_pairwise_ne, List.pairwise_iff_getElem]
  intro i j hi hj hlt heq
  have hlength : (stubNames methods).length = methods.length := length_stubNames methods
  obtain ⟨a, ha⟩ : ∃ a, methods[i]? = some a := ⟨_, List.getElem?_eq_getElem (by omega)⟩
  obtain ⟨b, hb⟩ : ∃ b, methods[j]? = some b := ⟨_, List.getElem?_eq_getElem (by omega)⟩
  have hnames : (stubNames methods)[i]? = (stubNames methods)[j]? := by
    rw [List.getElem?_eq_getElem hi, List.getElem?_eq_getElem hj, heq]
  rw [getElem?_stubNames, getElem?_stubNames, ha, hb] at hnames
  obtain ⟨rfl, hcount⟩ := stubName_inj (by omega) (by omega) (Option.some.inj hnames)
  -- Between the two places the method has occurred once more.
  have hmore : ((methods.take (i + 1)).count a) ≤ (methods.take j).count a :=
    ((List.take_prefix_take_left (by omega)).sublist).count_le a
  rw [count_take_succ ha, if_pos rfl] at hmore
  omega

/-- There is one stub for each method, in their order. The stub of a method that occurs for the first time is called
like the method with the word `Test` behind it, and that of its `k`-th occurrence bears the number `k` behind that,
which is at most the number of methods. No two stubs have the same name. -/
theorem stubNames_numbered (methods : List String) :
    (stubNames methods).length = methods.length ∧
      (∀ i m k, methods[i]? = some m → (methods.take (i + 1)).count m = k →
        (k = 1 → (stubNames methods)[i]? = some (m ++ "Test")) ∧
          (k ≠ 1 → 2 ≤ k ∧ k ≤ methods.length ∧
            (stubNames methods)[i]? = some (m ++ "Test" ++ toString k))) ∧
        (stubNames methods).Nodup := by
  refine ⟨length_stubNames methods, fun i m k hm hk => ?_, nodup_stubNames methods⟩
  have hcount := count_take_succ hm m
  rw [if_pos rfl, hk] at hcount
  have hname : (stubNames methods)[i]? = some (stubName m k) := by
    rw [getElem?_stubNames, hm, hcount]
    rfl
  have hle : k ≤ methods.length := by
    rw [← hk]
    exact Nat.le_trans List.count_le_length (List.take_sublist (i + 1) methods).length_le
  refine ⟨fun hone => ?_, fun hone => ⟨by omega, hle, ?_⟩⟩
  · rw [hname, stubName, if_pos (by omega)]
  · rw [hname, stubName, if_neg (by omega)]

/-- The second `Add` keeps its number, although a method is called like its stub. -/
theorem stubNames_numbered_alike : (stubNames ["AddTest2", "Add", "Add", "AddTest"])[2]? = some "AddTest2" ∧
    (stubNames ["AddTest2", "Add", "Add", "AddTest"]).Nodup := by
  obtain ⟨-, hnames, hnodup⟩ := stubNames_numbered ["AddTest2", "Add", "Add", "AddTest"]
  obtain ⟨-, hsecond⟩ := hnames 2 "Add" 2 rfl (by decide)
  exact ⟨(hsecond (by decide)).2.2, hnodup⟩

end TestScaffold.Naming
