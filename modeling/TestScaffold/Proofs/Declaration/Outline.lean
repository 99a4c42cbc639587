import TestScaffold.Proofs.Declaration.Growth
import TestScaffold.Proofs.Declaration.Walks
import TestScaffold.Proofs.Reading.Places
import TestScaffold.Proofs.Text.Characters

/-!
# The lines of an outline

An outline has one line for each declaration, and a line is indented by how deep its declaration stands. Where no name
holds a blank, a line tells what it is about, and a line that is less deep than the one before ends the declarations that
are deeper. So the lines tell the declarations.

Results:
* `DeclarationTree.toList_outlineLine`, `DeclarationTree.outlineLine_inj`: what a line is made of, and that it
  tells the kind, the name and the modifiers.
* `DeclarationTree.walk_ofDeclaration`: the lines of a tree are those of its declarations, in preorder.
* `Declaration.linesAll_inj`: declarations with the same lines are the same but for places.
* `DeclarationTree.splitOn_join_lines`: the lines are found again in a text that is made of them.
-/

namespace TestScaffold

open Text (isBlank)

/-- No blank stands in the word. -/
def Unspaced (w : List Char) : Prop := ∀ c ∈ w, isBlank c = false

theorem Unspaced.not_mem {w : List Char} (h : Unspaced w) {c : Char} (hc : isBlank c = true) : c ∉ w := by
  intro hmem
  rw [h c hmem] at hc
  cases hc

/-- The word is searched from one end to the other. -/
theorem unspaced_of_all {w : List Char} (h : (w.all fun c => !isBlank c) = true) : Unspaced w := by
  simpa [Unspaced] using h

/-! ## The words of a line -/

namespace Keyword

theorem unspaced_spelling (k : Keyword) : Unspaced k.spelling.toList := by
  refine unspaced_of_all ?_
  cases k <;> decide

theorem toList_spelling_injective : Function.Injective fun k : Keyword => k.spelling.toList :=
  fun _ _ h => spelling_injective (String.toList_inj.mp h)

/-- The spellings of keywords, with blanks between them. -/
def spaced (ks : List Keyword) : List Char := [' '].intercalate (ks.map (·.spelling.toList))

/-- Modifiers as they stand at the end of a line: in brackets, if there are any. -/
def bracketed : List Keyword → List Char
  | [] => []
  | k :: ks => ' ' :: '[' :: (spaced (k :: ks) ++ [']'])

/-- The words are told apart by the blanks between them. -/
theorem splitOn_spaced (k : Keyword) (ks : List Keyword) :
    (spaced (k :: ks)).splitOn ' ' = (k :: ks).map (·.spelling.toList) := by
  apply List.splitOn_intercalate
  · intro w hw
    obtain ⟨l, -, rfl⟩ := List.mem_map.mp hw
    exact l.unspaced_spelling.not_mem rfl
  · exact List.cons_ne_nil _ _

theorem bracketed_injective : Function.Injective bracketed := by
  intro ks ls h
  cases ks with
  | nil =>
    cases ls with
    | nil => rfl
    | cons l ls => cases h
  | cons k ks =>
    cases ls with
    | nil => cases h
    | cons l ls =>
      have hinside : spaced (k :: ks) = spaced (l :: ls) :=
        List.append_cancel_right (List.cons.inj (List.cons.inj h).2).2
      have hwords := congrArg (List.splitOn ' ') hinside
      rw [splitOn_spaced, splitOn_spaced] at hwords
      exact toList_spelling_injective.list_map hwords

/-- In front of the brackets the first blank ends a word. -/
theorem exists_splitOn_append_bracketed {w : List Char} (hw : Unspaced w) (ks : List Keyword) :
    ∃ ws, (w ++ bracketed ks).splitOn ' ' = w :: ws := by
  have hspace : ' ' ∉ w := hw.not_mem rfl
  cases ks with
  | nil =>
    rw [bracketed, List.append_nil]
    exact ⟨[], List.splitOn_eq_singleton hspace⟩
  | cons k ks =>
    rw [bracketed, List.splitOn_append_cons_self_of_not_mem hspace]
    exact ⟨_, rfl⟩

theorem newline_not_mem_spaced (ks : List Keyword) : '\n' ∉ spaced ks := by
  induction ks with
  | nil => exact List.not_mem_nil
  | cons k ks ih =>
    have hk : '\n' ∉ k.spelling.toList := k.unspaced_spelling.not_mem rfl
    cases ks with
    | nil => simpa [spaced] using hk
    | cons l ls =>
      have hcons : spaced (k :: l :: ls) = k.spelling.toList ++ [' '] ++ spaced (l :: ls) := List.intercalate_cons_cons
      rw [hcons]
      simp [hk, ih]

theorem newline_not_mem_bracketed (ks : List Keyword) : '\n' ∉ bracketed ks := by
  cases ks with
  | nil => exact List.not_mem_nil
  | cons k ks => simp [bracketed, newline_not_mem_spaced]

end Keyword

namespace DeclarationKind

theorem unspaced_label (kind : DeclarationKind) : Unspaced kind.label.toList := by
  refine unspaced_of_all ?_
  rcases kind with - | - | (- | - | - | - | -) | - | - | - | - | - <;> decide

theorem label_ne_nil (kind : DeclarationKind) : kind.label.toList ≠ [] := by
  rcases kind with - | - | (- | - | - | - | -) | - | - | - | - | - <;> decide

theorem label_injective : Function.Injective label := by
  intro k l h
  rcases k with - | - | (- | - | - | - | -) | - | - | - | - | - <;>
    rcases l with - | - | (- | - | - | - | -) | - | - | - | - | - <;> first | rfl | (revert h; decide)

end DeclarationKind

namespace Node

/-- What a line shows of a node behind the indent. -/
def shown (n : Node) : List Char :=
  n.kind.label.toList ++ ' ' :: (n.name.toList ++ Keyword.bracketed n.modifiers)

/-- The first blank ends the kind, and the next one, or the end of the line, ends the name. -/
theorem shown_inj {n m : Node} (hn : Unspaced n.name.toList) (hm : Unspaced m.name.toList) (h : n.shown = m.shown) :
    n.kind = m.kind ∧ n.name = m.name ∧ n.modifiers = m.modifiers := by
  have hlabels := congrArg (List.splitOn ' ') h
  rw [shown, shown, List.splitOn_append_cons_self_of_not_mem (n.kind.unspaced_label.not_mem rfl),
    List.splitOn_append_cons_self_of_not_mem (m.kind.unspaced_label.not_mem rfl)] at hlabels
  have hlabel : n.kind.label.toList = m.kind.label.toList := (List.cons.inj hlabels).1
  rw [shown, shown, hlabel] at h
  have hrest : n.name.toList ++ Keyword.bracketed n.modifiers = m.name.toList ++ Keyword.bracketed m.modifiers :=
    (List.cons.inj (List.append_cancel_left h)).2
  obtain ⟨ws, hws⟩ := Keyword.exists_splitOn_append_bracketed hn n.modifiers
  obtain ⟨vs, hvs⟩ := Keyword.exists_splitOn_append_bracketed hm m.modifiers
  have hname : n.name.toList = m.name.toList := by
    rw [hrest, hvs] at hws
    exact (List.cons.inj hws).1.symm
  rw [hname] at hrest
  exact ⟨DeclarationKind.label_injective (String.toList_inj.mp hlabel), String.toList_inj.mp hname,
    Keyword.bracketed_injective (List.append_cancel_left hrest)⟩

theorem not_isBlank_head_shown (n : Node) : ∃ c cs, n.shown = c :: cs ∧ isBlank c = false := by
  obtain ⟨c, cs, hlabel⟩ := List.exists_cons_of_ne_nil n.kind.label_ne_nil
  refine ⟨c, _, by rw [shown, hlabel, List.cons_append], n.kind.unspaced_label c ?_⟩
  rw [hlabel]
  exact List.mem_cons_self

theorem newline_not_mem_shown {n : Node} (hn : Unspaced n.name.toList) : '\n' ∉ n.shown := by
  have hlabel : '\n' ∉ n.kind.label.toList := n.kind.unspaced_label.not_mem rfl
  have hname : '\n' ∉ n.name.toList := hn.not_mem rfl
  simp [shown, hlabel, hname, Keyword.newline_not_mem_bracketed]

end Node

namespace DeclarationTree

theorem toList_outlineLine (depth : Nat) (n : Node) :
    (outlineLine depth n).toList = List.replicate (2 * depth) ' ' ++ n.shown := by
  have hstep : "  ".toList = List.replicate 2 ' ' := rfl
  have hindent : (String.join (List.replicate depth "  ")).toList = List.replicate (2 * depth) ' ' := by
    rw [String.toList_join, List.flatMap_replicate, hstep, List.flatten_replicate_replicate, Nat.mul_comm]
  unfold outlineLine Node.shown
  cases hm : n.modifiers with
  | nil => simp [hindent, Keyword.bracketed, toString]
  | cons k ks =>
    have hwords : ks.map (String.toList ∘ Keyword.spelling) = ks.map fun k => k.spelling.toList := rfl
    simp [hindent, Keyword.bracketed, Keyword.spaced, String.toList_intercalate, toString, hwords]

/-- A line stands on one line. -/
theorem newline_not_mem_outlineLine {n : Node} (hn : Unspaced n.name.toList) (depth : Nat) :
    '\n' ∉ (outlineLine depth n).toList := by
  rw [toList_outlineLine]
  simp [Node.newline_not_mem_shown hn]

/-- A line begins with as many blanks as its depth tells, and no more. -/
theorem replicate_prefix_outlineLine_iff {k depth : Nat} {n : Node} :
    List.replicate k ' ' <+: (outlineLine depth n).toList ↔ k ≤ 2 * depth := by
  obtain ⟨c, cs, hshown, hc⟩ := n.not_isBlank_head_shown
  rw [toList_outlineLine, hshown]
  generalize 2 * depth = m
  induction k generalizing m with
  | zero => simp
  | succ k ih =>
    cases m with
    | zero =>
      have hne : ' ' ≠ c := by
        rintro rfl
        cases hc
      simp [List.replicate_succ, hne]
    | succ m => simp [List.replicate_succ, ih]

/-- Lines at the same depth tell the kind, the name and the modifiers. -/
theorem outlineLine_inj {depth : Nat} {n m : Node} (hn : Unspaced n.name.toList) (hm : Unspaced m.name.toList)
    (h : outlineLine depth n = outlineLine depth m) :
    n.kind = m.kind ∧ n.name = m.name ∧ n.modifiers = m.modifiers := by
  have hlists := congrArg String.toList h
  rw [toList_outlineLine, toList_outlineLine] at hlists
  exact Node.shown_inj hn hm (List.append_cancel_left hlists)

end DeclarationTree

/-! ## The lines of declarations -/

namespace Declaration

mutual

/-- The lines of a declaration and of everything inside it. -/
def lines (depth : Nat) : Declaration → List String
  | ⟨kind, name, modifiers, span, children⟩ =>
    DeclarationTree.outlineLine depth ⟨kind, name, modifiers, span, none, #[]⟩ :: linesAll (depth + 1) children

/-- The lines of declarations one after the other. -/
def linesAll (depth : Nat) : List Declaration → List String
  | [] => []
  | d :: ds => d.lines depth ++ linesAll depth ds

end

/-- The lines begin with one that is less deep, if there are any. -/
def Outdented (depth : Nat) (lines : List String) : Prop :=
  ∀ line ∈ lines.head?, ¬ List.replicate (2 * depth) ' ' <+: line.toList

theorem Outdented.succ {depth : Nat} {lines : List String} (h : Outdented depth lines) : Outdented (depth + 1) lines := by
  intro line hline hprefix
  refine h line hline (List.IsPrefix.trans ?_ hprefix)
  rw [List.prefix_replicate_iff, List.length_replicate]
  exact ⟨by omega, rfl⟩

/-- Behind the lines inside a declaration the lines go on less deep. -/
theorem outdented_linesAll_append {depth : Nat} (ds : List Declaration) {rest : List String}
    (h : Outdented depth rest) : Outdented (depth + 1) (linesAll depth ds ++ rest) := by
  cases ds with
  | nil => exact h.succ
  | cons d ds =>
    obtain ⟨kind, name, modifiers, span, children⟩ := d
    intro line hline
    rw [linesAll, lines] at hline
    obtain rfl := Option.some.inj hline
    rw [DeclarationTree.replicate_prefix_outlineLine_iff]
    omega

theorem not_outdented_linesAll_append {depth : Nat} (d : Declaration) (ds : List Declaration) (rest : List String) :
    ¬ Outdented depth (linesAll depth (d :: ds) ++ rest) := by
  obtain ⟨kind, name, modifiers, span, children⟩ := d
  intro h
  rw [linesAll, lines] at h
  exact h _ rfl (DeclarationTree.replicate_prefix_outlineLine_iff.mpr (Nat.le_refl _))

variable {fits : Heading → Heading → Prop}

/-- Each line of declarations stands on one line. -/
theorem newline_not_mem_linesAll (hfits : ∀ outer inner, fits outer inner → Unspaced inner.name.toList) {depth : Nat}
    {ds : List Declaration} {outer : Heading} (h : Fitting fits outer ds) :
    ∀ line ∈ linesAll depth ds, '\n' ∉ line.toList := by
  induction h generalizing depth with
  | nil => exact List.forall_mem_nil _
  | @cons _ d ds head _ _ ihinside ihtail =>
    obtain ⟨kind, name, modifiers, span, children⟩ := d
    rw [linesAll, lines]
    intro line hline
    rcases List.mem_append.mp hline with hline | hline
    · rcases List.mem_cons.mp hline with rfl | hline
      · exact DeclarationTree.newline_not_mem_outlineLine (hfits _ _ (head none)) depth
      · exact ihinside none line hline
    · exact ihtail line hline

/-- Lines tell the declarations they are written for, whatever less deep lines follow. -/
theorem linesAll_append_inj (hfits : ∀ outer inner, fits outer inner → Unspaced inner.name.toList) {depth : Nat}
    {ds es : List Declaration} {xs ys : List String} {outer outer' : Heading} (hds : Fitting fits outer ds)
    (hes : Fitting fits outer' es) (hxs : Outdented depth xs) (hys : Outdented depth ys)
    (h : linesAll depth ds ++ xs = linesAll depth es ++ ys) : unplacedAll ds = unplacedAll es ∧ xs = ys := by
  induction hds generalizing depth es xs ys outer' with
  | nil =>
    cases es with
    | nil => exact ⟨rfl, h⟩
    | cons e es =>
      rw [linesAll, List.nil_append] at h
      subst h
      exact absurd hxs (not_outdented_linesAll_append e es ys)
  | @cons _ d ds head inside tail ihinside ihtail =>
    cases hes with
    | nil =>
      rw [linesAll.eq_1, List.nil_append] at h
      subst h
      exact absurd hys (not_outdented_linesAll_append d ds xs)
    | @cons _ e es head' inside' tail' =>
      obtain ⟨kind, name, modifiers, span, children⟩ := d
      obtain ⟨kind', name', modifiers', span', children'⟩ := e
      simp only [linesAll, lines, List.cons_append, List.append_assoc, List.cons.injEq] at h
      obtain ⟨hline, hbelow⟩ := h
      obtain ⟨hkind, hname, hmodifiers⟩ :=
        DeclarationTree.outlineLine_inj (hfits _ _ (head none)) (hfits _ _ (head' none)) hline
      dsimp only at hkind hname hmodifiers
      subst hkind hname hmodifiers
      obtain ⟨hchildren, hbeside⟩ := ihinside none (inside' none) (outdented_linesAll_append ds hxs)
        (outdented_linesAll_append es hys) hbelow
      obtain ⟨hneighbours, hrest⟩ := ihtail tail' hxs hys hbeside
      dsimp only at hchildren
      rw [unplacedAll, unplacedAll, unplaced, unplaced, hchildren, hneighbours]
      exact ⟨rfl, hrest⟩

/-- Declarations with the same lines are the same but for places. -/
theorem linesAll_inj (hfits : ∀ outer inner, fits outer inner → Unspaced inner.name.toList) {depth : Nat}
    {ds es : List Declaration} {outer outer' : Heading} (hds : Fitting fits outer ds) (hes : Fitting fits outer' es)
    (h : linesAll depth ds = linesAll depth es) : unplacedAll ds = unplacedAll es := by
  have hend : Outdented depth [] := fun _ hline => nomatch hline
  exact (linesAll_append_inj hfits hds hes hend hend (congrArg (· ++ []) h)).1

end Declaration

namespace DeclarationTree

variable {t : DeclarationTree}

/-! ## The lines of a tree -/

mutual

/-- A walk that comes to a declaration meets what is inside it in order, and then goes on beside it. -/
theorem Walk.declaration {depth id : Nat} {parent : Option Nat} {d : Declaration} (h : t.Stand id (d.nodes parent id))
    {ids met : List Nat} {lines : List String} (beside : t.Walk depth ids met lines) :
    t.Walk depth (id :: ids) (List.range' id d.size ++ met) (d.lines depth ++ lines) := by
  obtain ⟨kind, name, modifiers, span, children⟩ := d
  rw [Declaration.nodes] at h
  have below : t.Walk (depth + 1) (Declaration.indices (id + 1) children) _ _ := .declarations h.tail
  have hwalk := Walk.cons h.get? below beside
  rw [Declaration.size, List.range'_succ, Declaration.lines]
  exact hwalk

theorem Walk.declarations {depth next parent : Nat} {ds : List Declaration}
    (h : t.Stand next (Declaration.nodesAll parent next ds)) :
    t.Walk depth (Declaration.indices next ds) (List.range' next (Declaration.sizeAll ds))
      (Declaration.linesAll depth ds) := by
  cases ds with
  | nil => exact .nil depth
  | cons d ds =>
    rw [Declaration.nodesAll] at h
    have hright := h.right
    rw [Declaration.length_nodes] at hright
    rw [Declaration.indices, Declaration.sizeAll, ← List.range'_append_1, Declaration.linesAll]
    exact .declaration h.left (.declarations hright)

end

/-- The walk below the root of a tree counts the indices up and writes the lines of the declarations. -/
theorem walk_ofDeclaration (d : Declaration) : (ofDeclaration d).Walk 0 ((ofDeclaration d).children 0)
    (List.range' 1 (Declaration.sizeAll d.children)) (Declaration.linesAll 0 d.children) := by
  have hall : (ofDeclaration d).Stand 0 (d.nodes none 0) := by
    rw [Stand, nodes_ofDeclaration]
    exact List.prefix_rfl
  obtain ⟨kind, name, modifiers, span, children⟩ := d
  rw [Declaration.nodes] at hall
  rw [children_of_get? hall.get?]
  exact .declarations hall.tail

/-- Lines that end with a newline each are found again in the text they make. -/
theorem splitOn_join_lines {lines : List String} (h : ∀ line ∈ lines, '\n' ∉ line.toList) :
    (String.join (lines.map (· ++ "\n"))).toList.splitOn '\n' = lines.map String.toList ++ [[]] := by
  rw [String.toList_join]
  induction lines with
  | nil => rfl
  | cons line lines ih =>
    have hline : '\n' ∉ line.toList := h line List.mem_cons_self
    have hnewline : "\n".toList = ['\n'] := rfl
    rw [List.map_cons, List.flatMap_cons, String.toList_append, hnewline, List.append_assoc, List.singleton_append,
      List.splitOn_append_cons_self_of_not_mem hline, ih fun l hl => h l (List.mem_cons_of_mem line hl)]
    rfl

end DeclarationTree

end TestScaffold
