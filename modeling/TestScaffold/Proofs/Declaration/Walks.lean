import TestScaffold.Proofs.Declaration.Calls
import TestScaffold.Proofs.Declaration.Listing

/-!
# Walking down any tree

An outline is written by a recursion along the child lists that keeps no record of where it has been and has no bound.
It comes to its end on every tree that calls can make: what is listed under a node that the root leads to has a higher
index, and a node that was appended under its own index is listed nowhere but under itself, where nothing leads to.

Results:
* `Reached`: the nodes that the root leads to; they have rising indices (`Reached.lt_of_mem`).
* `Walk`: the recursion without a bound, which finds every index it looks up (`exists_walk`).
* `Walk.mem_iff_reached`, `Walk.nodup`: it meets every node that the root leads to, and none twice.
* `Walk.preorder_eq`, `Walk.outline_eq`: it meets the nodes in preorder, and what it writes is the outline.
-/

namespace TestScaffold.DeclarationTree

variable {t : DeclarationTree} {id p : Nat}

/-! ## Where the root leads to -/

/-- The nodes that the child lists lead to from the root. -/
inductive Reached (t : DeclarationTree) : Nat → Prop
  | root : Reached t 0
  | child {p id : Nat} (h : Reached t p) (hid : id ∈ t.children p) : Reached t id

namespace Reached

/-- A node that is its own parent stands in no list but its own, so nothing leads to it. -/
theorem parent?_ne (ht : t.Entered) (h : t.Reached id) : t.parent? id ≠ some id := by
  induction h with
  | root =>
    rw [ht.parent?_zero]
    exact Option.some_ne_none 0 ∘ Eq.symm
  | @child p id _ hid ih =>
    intro hself
    have hp : p = id := Option.some.inj ((ht.parent?_of_mem p id hid).symm.trans hself)
    subst hp
    exact ih hself

theorem lt_size (ht : t.Entered) (h : t.Reached id) : id < t.size := by
  cases h with
  | root => exact t.nonempty
  | @child p _ _ hid => exact (ht.le_of_mem p id hid).2

/-- On the way down the indices rise. -/
theorem lt_of_mem (ht : t.Entered) (h : t.Reached p) (hid : id ∈ t.children p) : p < id := by
  have hle : p ≤ id := (ht.le_of_mem p id hid).1
  have hne : p ≠ id := by
    rintro rfl
    exact h.parent?_ne ht (ht.parent?_of_mem p p hid)
  omega

end Reached

theorem exists_get?_of_lt_size (h : id < t.size) : ∃ n, t.get? id = some n := ⟨_, Array.getElem?_eq_getElem h⟩

theorem children_of_get? {n : Node} (h : t.get? id = some n) : t.children id = n.children.toList := by
  rw [children, h]
  rfl

/-! ## The walk -/

/-- The walk over neighbours and everything below them, each node before what is below it. The nodes met are
listed, and so are the lines that are written. Every index that is looked up must be there; nothing else ends a walk. -/
inductive Walk (t : DeclarationTree) : (depth : Nat) → (ids met : List Nat) → (lines : List String) → Prop
  | nil (depth : Nat) : Walk t depth [] [] []
  | cons {depth id : Nat} {n : Node} {ids met more : List Nat} {lines moreLines : List String}
    (hn : t.get? id = some n) (below : Walk t (depth + 1) n.children.toList met lines)
    (beside : Walk t depth ids more moreLines) :
    Walk t depth (id :: ids) (id :: (met ++ more)) (outlineLine depth n :: (lines ++ moreLines))

/-- The root leads to the nodes `ids`, and with `bound` levels none below them is missed. -/
def Room (t : DeclarationTree) (bound : Nat) (ids : List Nat) : Prop :=
  ∀ id ∈ ids, t.Reached id ∧ t.size ≤ id + bound

namespace Room

variable {bound : Nat} {ids : List Nat}

theorem start (t : DeclarationTree) : t.Room t.size (t.children 0) :=
  fun id hid => ⟨.child .root hid, Nat.le_add_left t.size id⟩

theorem beside (h : t.Room bound (id :: ids)) : t.Room bound ids := fun k hk => h k (List.mem_cons_of_mem id hk)

/-- Indices rise on the way down, so a level less is enough there. -/
theorem below (ht : t.Entered) (h : t.Room bound (id :: ids)) : ∃ b, bound = b + 1 ∧ t.Room b (t.children id) := by
  obtain ⟨hreached, hbound⟩ := h id List.mem_cons_self
  have hlt : id < t.size := hreached.lt_size ht
  refine ⟨bound - 1, by omega, fun k hk => ⟨.child hreached hk, ?_⟩⟩
  have hk : id < k := hreached.lt_of_mem ht hk
  omega

end Room

/-- From where the root leads to, every walk comes to its end. -/
theorem exists_walk (ht : t.Entered) {bound : Nat} {ids : List Nat} (h : t.Room bound ids) (depth : Nat) :
    ∃ met lines, t.Walk depth ids met lines := by
  induction bound generalizing ids depth with
  | zero =>
    cases ids with
    | nil => exact ⟨[], [], .nil depth⟩
    | cons id ids =>
      obtain ⟨b, hb, -⟩ := h.below ht
      cases hb
  | succ bound ih =>
    induction ids with
    | nil => exact ⟨[], [], .nil depth⟩
    | cons id ids ihids =>
      obtain ⟨b, hb, hbelow⟩ := h.below ht
      obtain rfl : bound = b := Nat.succ.inj hb
      obtain ⟨n, hn⟩ := exists_get?_of_lt_size ((h id List.mem_cons_self).1.lt_size ht)
      rw [children_of_get? hn] at hbelow
      obtain ⟨met, lines, hwalk⟩ := ih hbelow (depth + 1)
      obtain ⟨more, moreLines, hmore⟩ := ihids h.beside
      exact ⟨_, _, .cons hn hwalk hmore⟩

namespace Walk

variable {depth : Nat} {ids met : List Nat} {lines : List String}

/-! ## What a walk meets -/

theorem subset (h : t.Walk depth ids met lines) : ids ⊆ met := by
  induction h with
  | nil => exact List.Subset.refl []
  | cons _ _ _ _ ihbeside =>
    exact List.cons_subset_cons _ (List.subset_append_of_subset_right _ ihbeside)

/-- Whoever meets a node meets its children. -/
theorem children_subset (h : t.Walk depth ids met lines) (hp : p ∈ met) : t.children p ⊆ met := by
  induction h with
  | nil => cases hp
  | cons hn below _ ihbelow ihbeside =>
    apply List.subset_cons_of_subset
    rcases List.mem_cons.mp hp with rfl | hp
    · rw [children_of_get? hn]
      exact List.subset_append_of_subset_left _ below.subset
    · rcases List.mem_append.mp hp with hp | hp
      · exact List.subset_append_of_subset_left _ (ihbelow hp)
      · exact List.subset_append_of_subset_right _ (ihbeside hp)

/-- What is met is one of the neighbours, or stands in the child list of a node that is met. -/
theorem exists_parent_of_mem (h : t.Walk depth ids met lines) (hid : id ∈ met) :
    id ∈ ids ∨ ∃ p ∈ met, id ∈ t.children p := by
  induction h with
  | nil => cases hid
  | @cons depth k n ids met more lines moreLines hn below beside ihbelow ihbeside =>
    rcases List.mem_cons.mp hid with rfl | hid
    · exact .inl List.mem_cons_self
    · rcases List.mem_append.mp hid with hid | hid
      · rcases ihbelow hid with hchild | ⟨p, hp, hchild⟩
        · rw [← children_of_get? hn] at hchild
          exact .inr ⟨k, List.mem_cons_self, hchild⟩
        · exact .inr ⟨p, List.mem_cons_of_mem k (List.mem_append_left more hp), hchild⟩
      · rcases ihbeside hid with hbeside | ⟨p, hp, hchild⟩
        · exact .inl (List.mem_cons_of_mem k hbeside)
        · exact .inr ⟨p, List.mem_cons_of_mem k (List.mem_append_right met hp), hchild⟩

theorem reached (h : t.Walk depth ids met lines) (hids : ∀ k ∈ ids, t.Reached k) (hid : id ∈ met) : t.Reached id := by
  induction h with
  | nil => cases hid
  | @cons depth k n ids met more lines moreLines hn _ _ ihbelow ihbeside =>
    have hk : t.Reached k := hids k List.mem_cons_self
    rcases List.mem_cons.mp hid with rfl | hid
    · exact hk
    · rcases List.mem_append.mp hid with hid | hid
      · rw [← children_of_get? hn] at ihbelow
        exact ihbelow (fun c hc => .child hk hc) hid
      · exact ihbeside (fun c hc => hids c (List.mem_cons_of_mem k hc)) hid

theorem reached_of_children_zero (h : t.Walk depth (t.children 0) met lines) (hid : id ∈ met) : t.Reached id :=
  h.reached (fun _ hk => .child .root hk) hid

theorem exists_mem_children (h : t.Walk depth (t.children 0) met lines) (hid : id ∈ met) :
    ∃ p, t.Reached p ∧ id ∈ t.children p := by
  rcases h.exists_parent_of_mem hid with hroot | ⟨p, hp, hchild⟩
  · exact ⟨0, .root, hroot⟩
  · exact ⟨p, h.reached_of_children_zero hp, hchild⟩

/-- The walk below the root meets the nodes that the root leads to. -/
theorem mem_iff_reached (ht : t.Entered) (h : t.Walk depth (t.children 0) met lines) :
    id ∈ met ↔ t.Reached id ∧ id ≠ 0 := by
  constructor
  · intro hid
    obtain ⟨p, hp, hchild⟩ := h.exists_mem_children hid
    have hlt : p < id := hp.lt_of_mem ht hchild
    exact ⟨.child hp hchild, by omega⟩
  · rintro ⟨hreached, hid⟩
    induction hreached with
    | root => exact absurd rfl hid
    | @child p id hp hchild ih =>
      by_cases hzero : p = 0
      · subst hzero
        exact h.subset hchild
      · exact h.children_subset (ih hzero) hchild

/-! ## No node is met twice -/

/-- A node is met as one of the neighbours, and once more whenever its parent is met. -/
theorem count_le (ht : t.Entered) (h : t.Walk depth ids met lines) (hp : t.parent? id = some p) :
    met.count id ≤ ids.count id + met.count p := by
  induction h with
  | nil => exact Nat.zero_le _
  | @cons depth k n ids met more lines moreLines hn _ _ ihbelow ihbeside =>
    have hlisted := ht.count_children_le hp k
    rw [children_of_get? hn] at hlisted
    simp only [List.count_cons, List.count_append, beq_iff_eq]
    omega

/-- The walk below the root meets no node twice. -/
theorem nodup (ht : t.Entered) (h : t.Walk depth (t.children 0) met lines) : met.Nodup := by
  rw [List.nodup_iff_count_le_one]
  intro id
  -- A node is met as often as its parent, which has a lower index.
  induction id using Nat.strongRecOn with
  | ind id ih =>
    by_cases hid : id ∈ met
    · obtain ⟨p, hreached, hchild⟩ := h.exists_mem_children hid
      have hp : t.parent? id = some p := ht.parent?_of_mem p id hchild
      have hlt : p < id := hreached.lt_of_mem ht hchild
      have hcount := h.count_le ht hp
      have hlisted := ht.count_children_le hp 0
      split at hlisted
      case isTrue hzero =>
        subst hzero
        have hroot : met.count 0 = 0 := List.count_eq_zero.mpr fun hmem => ((h.mem_iff_reached ht).mp hmem).2 rfl
        omega
      case isFalse =>
        have hparent := ih p hlt
        omega
    · rw [List.count_eq_zero_of_not_mem hid]
      exact Nat.zero_le 1

/-! ## Preorder and outline -/

theorem flatMap_preorderFrom (ht : t.Entered) (h : t.Walk depth ids met lines) {bound : Nat}
    (hroom : t.Room bound ids) : ids.flatMap (t.preorderFrom bound) = met := by
  induction h generalizing bound with
  | nil => rfl
  | cons hn _ _ ihbelow ihbeside =>
    obtain ⟨b, rfl, hbelow⟩ := hroom.below ht
    rw [children_of_get? hn] at hbelow
    rw [List.flatMap_cons, preorderFrom, children_of_get? hn, ihbelow hbelow, ihbeside hroom.beside, List.cons_append]

/-- Behind the root, the walk meets the nodes in preorder. -/
theorem preorder_eq (ht : t.Entered) (h : t.Walk depth (t.children 0) met lines) : t.preorder = 0 :: met := by
  obtain ⟨b, hb⟩ : ∃ b, t.size = b + 1 := ⟨t.size - 1, (Nat.sub_add_cancel t.nonempty).symm⟩
  have hroom : t.Room b (t.children 0) := by
    intro id hid
    have hlt : 0 < id := Reached.root.lt_of_mem ht hid
    exact ⟨.child .root hid, by omega⟩
  rw [preorder, hb, preorderFrom, h.flatMap_preorderFrom ht hroom]

theorem flatMap_outlineFrom (ht : t.Entered) (h : t.Walk depth ids met lines) {bound : Nat} (hroom : t.Room bound ids) :
    ids.flatMap (t.outlineFrom bound depth) = lines := by
  induction h generalizing bound with
  | nil => rfl
  | cons hn _ _ ihbelow ihbeside =>
    obtain ⟨b, rfl, hbelow⟩ := hroom.below ht
    rw [children_of_get? hn] at hbelow
    rw [List.flatMap_cons, outlineFrom, hn]
    simp only [ihbelow hbelow, ihbeside hroom.beside, List.cons_append]

/-- The outline has the lines that the walk below the root writes. -/
theorem outline_eq (ht : t.Entered) (h : t.Walk 0 (t.children 0) met lines) :
    t.outline = String.join (lines.map (· ++ "\n")) := by
  rw [outline]
  simp only [h.flatMap_outlineFrom ht (Room.start t)]

end Walk

end TestScaffold.DeclarationTree
