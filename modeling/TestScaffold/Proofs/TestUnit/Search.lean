import TestScaffold.Proofs.Declaration.Ancestry
import TestScaffold.Proofs.Declaration.Walks
import TestScaffold.Proofs.TestUnit.Described

/-!
# Searching a tree for types

The types of a tree are searched for with a stack of the nodes that are still to be looked at. The search has no bound
and keeps no record of where it has been. A node looked at is replaced by its children if it is a namespace, with the
first of them on top, so the nodes are looked at in the order in which a walk along the child lists meets them.

Results:
* `Search.turn?`: what one turn of the search does, if the index on top is there.
* `Walk.exists_runs`: the search comes to its end with the types that were to be found.
* `walkable_build`: every walk ends on every tree that calls can make.
-/

namespace TestScaffold.DeclarationTree

variable {t : DeclarationTree}

/-! ## The search -/

/-- A search for types: the nodes that are still to be looked at, the next one last, and the types found so far. -/
structure Search where
  stack : List Nat
  found : List Nat
  deriving DecidableEq, Repr

namespace Search

/-- One turn of the search, with the node that is looked at. There is no turn if the stack is empty or if the tree does
not have the node on top. -/
def turn? (t : DeclarationTree) (s : Search) : Option (Nat × Search) :=
  s.stack.getLast?.bind fun id => (t.get? id).map fun n =>
    let rest := s.stack.dropLast
    if n.kind = .namespaceBlock then (id, ⟨rest ++ (t.children id).reverse, s.found⟩)
    else if n.kind.isClassLike then (id, ⟨rest, s.found ++ [id]⟩)
    else (id, ⟨rest, s.found⟩)

/-- The search before its first turn. -/
def start (t : DeclarationTree) : Search := ⟨(t.children 0).reverse, []⟩

/-- Some turns of the search, one after the other, with the nodes looked at. -/
inductive Runs (t : DeclarationTree) : Search → List Nat → Search → Prop
  | nil (s : Search) : Runs t s [] s
  | cons {s s₁ s₂ : Search} {id : Nat} {ids : List Nat} (hturn : s.turn? t = some (id, s₁)) (hruns : Runs t s₁ ids s₂) :
    Runs t s (id :: ids) s₂

theorem Runs.append {s s₁ s₂ : Search} {ids more : List Nat} (h : Runs t s ids s₁) (h₁ : Runs t s₁ more s₂) :
    Runs t s (ids ++ more) s₂ := by
  induction h with
  | nil => exact h₁
  | cons hturn _ ih => exact .cons hturn (ih h₁)

theorem turn?_concat {id : Nat} {n : Node} (hn : t.get? id = some n) (stack found : List Nat) :
    turn? t ⟨stack ++ [id], found⟩ = some (id,
      if n.kind = .namespaceBlock then ⟨stack ++ (t.children id).reverse, found⟩
      else if n.kind.isClassLike then ⟨stack, found ++ [id]⟩
      else ⟨stack, found⟩) := by
  simp only [turn?, List.getLast?_concat, Option.bind_some, hn, Option.map_some, List.dropLast_concat]
  split_ifs <;> rfl

end Search

open Search (Runs)

/-- The search takes neighbours off the top of its stack and everything below them. It looks at no more nodes than the
walk meets, in the same order, and leaves what lay below them on the stack. -/
theorem Walk.exists_runs (ht : t.Entered) {depth : Nat} {ids met : List Nat} {lines : List String}
    (h : t.Walk depth ids met lines) {bound : Nat} (hroom : t.Room bound ids) (stack found : List Nat) :
    ∃ looked, looked.Sublist met ∧ (ids.flatMap (t.classLikeFrom bound)).Sublist looked ∧
      Runs t ⟨stack ++ ids.reverse, found⟩ looked ⟨stack, found ++ ids.flatMap (t.classLikeFrom bound)⟩ := by
  induction h generalizing bound stack found with
  | nil => exact ⟨[], .refl [], .refl [], by simpa using Runs.nil _⟩
  | @cons depth id n ids met more lines moreLines hn _ _ ihbelow ihbeside =>
    obtain ⟨b, rfl, hbelow⟩ := hroom.below ht
    have hkind : (t.get? id).map Node.kind = some n.kind := by rw [hn, Option.map_some]
    have hturn := Search.turn?_concat hn (stack ++ ids.reverse) found
    rw [List.append_assoc, ← List.reverse_cons] at hturn
    rw [List.flatMap_cons, classLikeFrom_succ b hkind]
    by_cases hns : n.kind = .namespaceBlock
    · -- The children come on top of the neighbours that are left.
      rw [if_pos hns] at hturn ⊢
      rw [children_of_get? hn] at hbelow hturn ⊢
      obtain ⟨looked, hmet, hfound, hruns⟩ := ihbelow hbelow (stack ++ ids.reverse) found
      obtain ⟨moreLooked, hmore, hmoreFound, hmoreRuns⟩ := ihbeside hroom.beside stack
        (found ++ n.children.toList.flatMap (t.classLikeFrom b))
      refine ⟨id :: (looked ++ moreLooked), (hmet.append hmore).cons_cons id,
        (hfound.append hmoreFound).cons id, .cons hturn (hruns.append ?_)⟩
      rwa [← List.append_assoc]
    · rw [if_neg hns] at hturn ⊢
      by_cases hclass : n.kind.isClassLike = true
      · rw [if_pos hclass] at hturn ⊢
        obtain ⟨looked, hmet, hfound, hruns⟩ := ihbeside hroom.beside stack (found ++ [id])
        refine ⟨id :: looked, (hmet.trans (List.sublist_append_right met more)).cons_cons id,
          hfound.cons_cons id, .cons hturn ?_⟩
        rwa [List.append_assoc] at hruns
      · rw [if_neg hclass] at hturn ⊢
        obtain ⟨looked, hmet, hfound, hruns⟩ := ihbeside hroom.beside stack found
        exact ⟨id :: looked, (hmet.trans (List.sublist_append_right met more)).cons_cons id,
          hfound.cons id, .cons hturn hruns⟩

/-- The search from the root ends with the class-like types of the tree. -/
theorem Walk.exists_runs_start (ht : t.Entered) {depth : Nat} {met : List Nat} {lines : List String}
    (h : t.Walk depth (t.children 0) met lines) : ∃ looked, looked.Sublist met ∧
      t.classLikeTypes.Sublist looked ∧ Runs t (.start t) looked ⟨[], t.classLikeTypes⟩ :=
  h.exists_runs ht (Room.start t) [] []

/-! ## Walks on any tree -/

/-- What every walk over a tree can rely on. -/
structure Walkable (t : DeclarationTree) : Prop where
  ascending : ∀ p, (t.children p).Pairwise (· < ·)
  /-- An index stands in one child list at most. -/
  eq_of_mem : ∀ id p q, id ∈ t.children p → id ∈ t.children q → p = q
  exists_of_mem : ∀ p id, id ∈ t.children p → ∃ n, t.get? id = some n ∧ n.parent = some p
  /-- The nodes that the root leads to make a tree in which indices rise. -/
  exists_of_reached : ∀ id, t.Reached id → ∃ n, t.get? id = some n ∧ n.parent ≠ some id
  lt_of_mem_reached : ∀ p id, t.Reached p → id ∈ t.children p → p < id
  /-- The outline is written by a walk that meets each of these nodes once, but for the root. The search for types looks
  at each of them at most once, and ends with nothing left on its stack. -/
  exists_walk : ∃ met lines looked, t.Walk 0 (t.children 0) met lines ∧ met.Nodup ∧
    (∀ id, id ∈ met ↔ t.Reached id ∧ id ≠ 0) ∧ t.outline = String.join (lines.map (· ++ "\n")) ∧
      looked.Sublist met ∧ Runs t (.start t) looked ⟨[], t.classLikeTypes⟩
  length_ancestors_le_size : ∀ id, (t.ancestors id).length ≤ t.size
  /-- A way along the parent links that meets no node twice and no index that is missing is given as a whole. -/
  getElem?_ancestors : ∀ id, (∀ k a, t.ancestorAt? id k = some a → a < t.size) →
    (∀ i j a, t.ancestorAt? id i = some a → t.ancestorAt? id j = some a → i = j) →
      ∀ k, (t.ancestors id)[k]? = t.ancestorAt? id k

theorem Entered.walkable (h : t.Entered) : t.Walkable := by
  obtain ⟨met, lines, hwalk⟩ := exists_walk h (Room.start t) 0
  obtain ⟨looked, hmet, -, hruns⟩ := hwalk.exists_runs_start h
  refine
    { ascending := h.ascending
      eq_of_mem := fun _ _ _ => h.eq_of_mem
      exists_of_mem := fun p id hid => ?_
      exists_of_reached := fun id hid => ?_
      lt_of_mem_reached := fun _ _ hp hid => hp.lt_of_mem h hid
      exists_walk := ⟨met, lines, looked, hwalk, hwalk.nodup h, fun _ => hwalk.mem_iff_reached h, hwalk.outline_eq h,
        hmet, hruns⟩
      length_ancestors_le_size := t.length_ancestors_le_size
      getElem?_ancestors := fun _ => DeclarationTree.getElem?_ancestors }
  · obtain ⟨n, hn⟩ := exists_get?_of_lt_size (h.le_of_mem p id hid).2
    exact ⟨n, hn, (parent?_eq hn).symm.trans (h.parent?_of_mem p id hid)⟩
  · obtain ⟨n, hn⟩ := exists_get?_of_lt_size (hid.lt_size h)
    refine ⟨n, hn, ?_⟩
    rw [← parent?_eq hn]
    exact hid.parent?_ne h

/-- Whatever nodes are appended under whatever indices, and whatever spans are widened: every walk over the tree comes
to its end. -/
theorem walkable_build (calls : List Call) : (build calls).Walkable := (entered_build calls).walkable

/-- A node under its own index goes round for ever on the way up; nothing leads to it, or to a node that comes before
its parent. -/
example : ((build [.addChild 1 .method "Own" [] .zero, .addChild 3 .method "Early" [] .zero,
    .addChild 0 .namespaceBlock "Shop" [] .zero]).ancestors 1, (build [.addChild 1 .method "Own" [] .zero,
      .addChild 3 .method "Early" [] .zero, .addChild 0 .namespaceBlock "Shop" [] .zero]).preorder) =
        ([1, 1, 1, 1], [0, 3]) := by decide

end TestScaffold.DeclarationTree
