import Mathlib.Data.List.Induction
import Mathlib.Data.List.Nodup
import TestScaffold.Proofs.Declaration.Growth

/-!
# Trees made by any calls

Two calls change a tree: one appends a node below any index whatsoever, the other widens a span. As no index is checked,
the parents may form cycles and may name nodes that come later or never. The child lists are harmless all the same: an
index is only ever listed at the moment its node is appended, under a node that is there by then.

Results:
* `Entered`: what child lists and parents tell about each other after any calls (`entered_build`).
* `Attached`: the trees in which every node was appended below a node that was there, among them those of nested
  declarations (`Attached.addDeclarations`).
-/

namespace TestScaffold.DeclarationTree

variable {t : DeclarationTree} {id p : Nat}

/-! ## Calls -/

/-- A call that changes a tree. No index in it is checked. -/
inductive Call
  | addChild (parent : Nat) (kind : DeclarationKind) (name : String) (modifiers : List Keyword) (span : Span)
  | extendSpan (id : Nat) (span : Span)
  deriving DecidableEq, Repr

/-- The tree after one call. -/
def perform (t : DeclarationTree) : Call → DeclarationTree
  | .addChild parent kind name modifiers span => t.addChild parent kind name modifiers span
  | .extendSpan id span => t.extendSpan id span

/-- The tree that some calls make of the empty one. -/
def build (calls : List Call) : DeclarationTree := calls.foldl perform .empty

theorem build_concat (calls : List Call) (c : Call) : build (calls ++ [c]) = (build calls).perform c := by
  rw [build, List.foldl_append]
  rfl

/-! ## Widening a span -/

theorem get?_extendSpan (t : DeclarationTree) (id : Nat) (span : Span) (k : Nat) :
    (t.extendSpan id span).get? k =
      if id = k then (t.get? k).map fun n => { n with span := n.span.merge span } else t.get? k := by
  simp only [get?, extendSpan, Array.getElem?_modify]

@[simp] theorem children_extendSpan (t : DeclarationTree) (id : Nat) (span : Span) (k : Nat) :
    (t.extendSpan id span).children k = t.children k := by
  unfold children
  rw [get?_extendSpan]
  split
  · cases t.get? k <;> rfl
  · rfl

@[simp] theorem headings_extendSpan (t : DeclarationTree) (id : Nat) (span : Span) :
    (t.extendSpan id span).headings = t.headings := by
  simp only [headings, extendSpan, Array.toList_modify]
  exact map_heading_modify _ _ _ fun _ => rfl

@[simp] theorem parent?_extendSpan (t : DeclarationTree) (id : Nat) (span : Span) (k : Nat) :
    (t.extendSpan id span).parent? k = t.parent? k := by
  rw [parent?, headings_extendSpan, parent?]

/-! ## What any calls leave behind -/

/-- Whatever is listed below a node names it as its parent and comes no earlier, lists go up, and the root has no
parent. -/
structure Entered (t : DeclarationTree) : Prop where
  parent?_of_mem : ∀ p id, id ∈ t.children p → t.parent? id = some p
  le_of_mem : ∀ p id, id ∈ t.children p → p ≤ id ∧ id < t.size
  ascending : ∀ p, (t.children p).Pairwise (· < ·)
  parent?_zero : t.parent? 0 = none

namespace Entered

theorem empty : empty.Entered := by
  have hchildren : ∀ p, DeclarationTree.empty.children p = [] := by
    intro p
    rcases p with - | p <;> rfl
  refine ⟨?_, ?_, ?_, rfl⟩
  · intro p id hid
    rw [hchildren] at hid
    cases hid
  · intro p id hid
    rw [hchildren] at hid
    cases hid
  · intro p
    rw [hchildren]
    exact List.Pairwise.nil

/-- A new node is listed behind all others, if at all, and nobody lists it but its parent. -/
theorem addChild (h : t.Entered) (parent : Nat) (kind : DeclarationKind) (name : String) (modifiers : List Keyword)
    (span : Span) : (t.addChild parent kind name modifiers span).Entered := by
  have hmem {p id : Nat} (hid : id ∈ (t.addChild parent kind name modifiers span).children p) :
      id ∈ t.children p ∨ p = parent ∧ parent ≤ t.size ∧ id = t.size := by
    rw [children_addChild_of_le] at hid
    split at hid
    case isTrue hp =>
      rcases List.mem_append.mp hid with hold | hnew
      · exact .inl hold
      · exact .inr ⟨hp.1, hp.2, List.mem_singleton.mp hnew⟩
    case isFalse => exact .inl hid
  refine ⟨?_, ?_, ?_, ?_⟩
  · intro p id hid
    rw [parent?_addChild]
    rcases hmem hid with hold | ⟨rfl, -, rfl⟩
    · rw [if_neg (Nat.ne_of_lt (h.le_of_mem p id hold).2)]
      exact h.parent?_of_mem p id hold
    · rw [if_pos rfl]
  · intro p id hid
    rw [size_addChild]
    rcases hmem hid with hold | ⟨rfl, hle, rfl⟩
    · have hold := h.le_of_mem p id hold
      omega
    · omega
  · intro p
    rw [children_addChild_of_le]
    split
    · rw [List.pairwise_append]
      refine ⟨h.ascending p, List.pairwise_singleton _ _, ?_⟩
      intro a ha b hb
      rw [List.mem_singleton.mp hb]
      exact (h.le_of_mem p a ha).2
    · exact h.ascending p
  · have hzero : 0 ≠ t.size := Nat.ne_of_lt t.nonempty
    rw [parent?_addChild, if_neg hzero]
    exact h.parent?_zero

theorem extendSpan (h : t.Entered) (id : Nat) (span : Span) : (t.extendSpan id span).Entered := by
  refine ⟨?_, ?_, ?_, ?_⟩
  · simpa using h.parent?_of_mem
  · simpa using h.le_of_mem
  · simpa using h.ascending
  · simpa using h.parent?_zero

theorem perform (h : t.Entered) (c : Call) : (t.perform c).Entered := by
  cases c with
  | addChild parent kind name modifiers span => exact h.addChild parent kind name modifiers span
  | extendSpan id span => exact h.extendSpan id span

/-- No index is in two child lists. -/
theorem eq_of_mem (h : t.Entered) {q : Nat} (hp : id ∈ t.children p) (hq : id ∈ t.children q) : p = q :=
  Option.some.inj ((h.parent?_of_mem p id hp).symm.trans (h.parent?_of_mem q id hq))

/-- A node is listed once by its parent, if at all, and never by another node. -/
theorem count_children_le (h : t.Entered) (hp : t.parent? id = some p) (k : Nat) :
    (t.children k).count id ≤ if k = p then 1 else 0 := by
  split
  case isTrue => exact List.nodup_iff_count_le_one.mp ((h.ascending k).imp Nat.ne_of_lt) id
  case isFalse hk =>
    rw [Nat.le_zero, List.count_eq_zero]
    intro hid
    exact hk (Option.some.inj ((h.parent?_of_mem k id hid).symm.trans hp))

end Entered

/-- Whatever calls are made, child lists and parents agree where something is listed. -/
theorem entered_build (calls : List Call) : (build calls).Entered := by
  induction calls using List.reverseRecOn with
  | nil => exact .empty
  | append_singleton calls c ih =>
    rw [build_concat]
    exact ih.perform c

/-! ## Trees without dangling parents -/

/-- Trees in which every node was appended below a node that was there by then. -/
inductive Attached : DeclarationTree → Prop
  | empty : Attached .empty
  | addChild {t : DeclarationTree} (h : Attached t) {parent : Nat} (hp : parent < t.size) (kind : DeclarationKind)
    (name : String) (modifiers : List Keyword) (span : Span) : Attached (t.addChild parent kind name modifiers span)
  | extendSpan {t : DeclarationTree} (h : Attached t) (id : Nat) (span : Span) : Attached (t.extendSpan id span)

namespace Attached

theorem exists_calls (h : t.Attached) : ∃ calls, build calls = t := by
  induction h with
  | empty => exact ⟨[], rfl⟩
  | @addChild t _ parent _ kind name modifiers span ih =>
    obtain ⟨calls, rfl⟩ := ih
    exact ⟨calls ++ [.addChild parent kind name modifiers span], build_concat _ _⟩
  | @extendSpan t _ id span ih =>
    obtain ⟨calls, rfl⟩ := ih
    exact ⟨calls ++ [.extendSpan id span], build_concat _ _⟩

theorem entered (h : t.Attached) : t.Entered := by
  obtain ⟨calls, rfl⟩ := h.exists_calls
  exact entered_build calls

theorem linked (h : t.Attached) : t.Linked := by
  induction h with
  | empty => exact .ofRoot rfl rfl
  | addChild _ hp _ _ _ _ ih => exact ih.addChild hp _ _ _ _
  | extendSpan _ id span ih =>
    refine ⟨?_, ?_, ?_⟩
    · simpa using ih.parent_lt
    · simpa using ih.exists_parent
    · simpa using ih.children

/-- The root stands for a text as a whole. -/
theorem headings_zero (h : t.Attached) : t.headings[0]? = some ⟨.unit, "", [], none⟩ := by
  induction h with
  | empty => rfl
  | @addChild t _ parent _ kind name modifiers span ih =>
    rw [headings_addChild, List.getElem?_append_left (List.getElem?_eq_some_iff.mp ih).1, ih]
  | extendSpan _ id span ih => rw [headings_extendSpan, ih]

mutual

theorem addDeclaration {t : DeclarationTree} (h : t.Attached) {parent : Nat} (hp : parent < t.size)
    (d : Declaration) : (addDeclaration t parent d).Attached := by
  obtain ⟨kind, name, modifiers, span, children⟩ := d
  rw [DeclarationTree.addDeclaration]
  exact addDeclarations (h.addChild hp kind name modifiers span) (by simp) children

theorem addDeclarations {t : DeclarationTree} (h : t.Attached) {parent : Nat} (hp : parent < t.size)
    (ds : List Declaration) : (addDeclarations t parent ds).Attached := by
  cases ds with
  | nil => exact h
  | cons d ds =>
    rw [DeclarationTree.addDeclarations]
    have hlt : parent < (DeclarationTree.addDeclaration t parent d).size := by
      rw [size_addDeclaration]
      omega
    exact addDeclarations (addDeclaration h hp d) hlt ds

end

end Attached

end TestScaffold.DeclarationTree
