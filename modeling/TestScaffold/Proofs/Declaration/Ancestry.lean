import Mathlib.Data.List.FinRange
import Mathlib.Data.List.Perm.Subperm
import TestScaffold.Proofs.Declaration.Growth

/-!
# Walking up any tree

The way from a node along the parent links is walked for as many steps as the tree has nodes. Parents are never checked,
so the way may go round for ever, or lead to an index that is missing. If it does neither, it is over in time: more
steps than nodes would meet some node twice.

Results:
* `ancestorAt?`: the way along the parent links, step by step and without a bound.
* `length_ancestors_le_size`: the walk that is bounded gives at most as many nodes as there are.
* `getElem?_ancestors`: if the way meets no node twice and none that is missing, the walk gives all of it.
-/

namespace TestScaffold.DeclarationTree

variable {t : DeclarationTree}

/-- What is met in step `k` on the way along the parent links, starting with `next`. -/
def chainAt? (t : DeclarationTree) (next : Option Nat) : (k : Nat) → Option Nat
  | 0 => next
  | k + 1 => (t.chainAt? next k).bind t.parent?

/-- The parent of a node, the parent of that one, and so on, by their distance. -/
def ancestorAt? (t : DeclarationTree) (id : Nat) (k : Nat) : Option Nat := t.chainAt? (t.parent? id) k

/-- The first step may be taken apart from the others. -/
theorem chainAt?_bind (t : DeclarationTree) (next : Option Nat) (k : Nat) :
    t.chainAt? (next.bind t.parent?) k = t.chainAt? next (k + 1) := by
  induction k with
  | zero => rfl
  | succ k ih =>
    change (t.chainAt? (next.bind t.parent?) k).bind t.parent? = _
    rw [ih]
    rfl

/-- Where the way has got to, it has come by all the steps before. -/
theorem exists_chainAt?_of_le {next : Option Nat} {j k a : Nat} (h : t.chainAt? next k = some a) (hjk : j ≤ k) :
    ∃ b, t.chainAt? next j = some b := by
  induction k generalizing a with
  | zero =>
    obtain rfl : j = 0 := Nat.le_zero.mp hjk
    exact ⟨a, h⟩
  | succ k ih =>
    by_cases hlast : j = k + 1
    · subst hlast
      exact ⟨a, h⟩
    · obtain ⟨b, hb, -⟩ := Option.bind_eq_some_iff.mp h
      exact ih hb (by omega)

/-! ## The bounded walk -/

theorem length_ancestorsFrom_le (t : DeclarationTree) (bound : Nat) (next : Option Nat) :
    (t.ancestorsFrom bound next).length ≤ bound := by
  induction bound generalizing next with
  | zero => exact Nat.le_refl 0
  | succ bound ih =>
    cases next with
    | none => exact Nat.zero_le _
    | some id =>
      rw [ancestorsFrom]
      split
      · exact Nat.succ_le_succ (ih _)
      · exact Nat.zero_le _

/-- The walk gives at most as many nodes as the tree has. -/
theorem length_ancestors_le_size (t : DeclarationTree) (id : Nat) : (t.ancestors id).length ≤ t.size :=
  t.length_ancestorsFrom_le t.size _

/-- If no index on the way is missing, the walk gives all of the way up to its bound. -/
theorem getElem?_ancestorsFrom {bound k : Nat} {next : Option Nat}
    (hthere : ∀ j a, t.chainAt? next j = some a → a < t.size) (hk : k < bound) :
    (t.ancestorsFrom bound next)[k]? = t.chainAt? next k := by
  induction bound generalizing next k with
  | zero => exact absurd hk (Nat.not_lt_zero k)
  | succ bound ih =>
    cases next with
    | none =>
      have hnone : t.chainAt? none k = none := by
        cases hk : t.chainAt? none k with
        | none => rfl
        | some a =>
          obtain ⟨b, hb⟩ := exists_chainAt?_of_le hk (Nat.zero_le k)
          cases hb
      rw [hnone]
      rfl
    | some id =>
      obtain ⟨n, hn⟩ : ∃ n, t.get? id = some n := ⟨_, Array.getElem?_eq_getElem (hthere 0 id rfl)⟩
      have hnext : n.parent = (some id).bind t.parent? := (parent?_eq hn).symm
      rw [ancestorsFrom, hn]
      cases k with
      | zero => rfl
      | succ k =>
        rw [← chainAt?_bind, List.getElem?_cons_succ, ← hnext]
        refine ih (fun j a hj => hthere (j + 1) a ?_) (Nat.lt_of_succ_lt_succ hk)
        rwa [← chainAt?_bind, ← hnext]

/-- On a way that meets no node twice, a step is taken for some node of the tree, and for each at most once. -/
theorem lt_size_of_chainAt? {next : Option Nat} (hthere : ∀ j a, t.chainAt? next j = some a → a < t.size)
    (honce : ∀ i j a, t.chainAt? next i = some a → t.chainAt? next j = some a → i = j) {k a : Nat}
    (h : t.chainAt? next k = some a) : k < t.size := by
  have hsteps (j : Fin (k + 1)) : ∃ b, t.chainAt? next j = some b :=
    exists_chainAt?_of_le h (Nat.le_of_lt_succ j.isLt)
  choose met hmet using hsteps
  have hnodup : (List.ofFn met).Nodup := by
    rw [List.nodup_ofFn]
    intro i j hij
    have hi := hmet i
    rw [hij] at hi
    exact Fin.ext (honce i j _ hi (hmet j))
  have hsub : List.ofFn met ⊆ List.range t.size := by
    intro b hb
    obtain ⟨j, rfl⟩ := List.mem_ofFn.mp hb
    exact List.mem_range.mpr (hthere j _ (hmet j))
  have hlength := (List.subperm_of_subset hnodup hsub).length_le
  rw [List.length_ofFn, List.length_range] at hlength
  omega

/-- If the way along the parent links meets no index that is missing and no node twice, the bounded walk gives all of
it. -/
theorem getElem?_ancestors {id : Nat} (hthere : ∀ k a, t.ancestorAt? id k = some a → a < t.size)
    (honce : ∀ i j a, t.ancestorAt? id i = some a → t.ancestorAt? id j = some a → i = j) (k : Nat) :
    (t.ancestors id)[k]? = t.ancestorAt? id k := by
  rw [ancestors, ancestorAt?, ← parent?_eq_bind]
  by_cases hk : k < t.size
  · exact getElem?_ancestorsFrom hthere hk
  · have hover : t.chainAt? (t.parent? id) k = none := by
      cases hchain : t.chainAt? (t.parent? id) k with
      | none => rfl
      | some a => exact absurd (lt_size_of_chainAt? hthere honce hchain) hk
    have hlength := t.length_ancestorsFrom_le t.size (t.parent? id)
    rw [hover, List.getElem?_eq_none (by omega)]

end TestScaffold.DeclarationTree
