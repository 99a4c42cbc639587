import TestScaffold.Proofs.Declaration.Outline
import TestScaffold.Proofs.TestUnit.Discovery
import TestScaffold.Proofs.TestUnit.Namespaces
import TestScaffold.Proofs.TestUnit.Verbatim

/-!
# Outlines picture trees

The outline of a text that was read has a line for every declaration, in the order of the indices, and each line is
indented by the number of declarations around its own. Names have no blanks in them, so the outline tells everything
about the tree but places.

Results:
* `DeclarationTree.outline_unplaced`: no place is shown.
* `DeclarationTree.Walk.forall₂_lines`, `DeclarationTree.PathTo.level_eq`: how deep the lines are that a walk writes.
* `DeclarationTree.outline_faithful`: the outline of a text that was read is a picture of its tree, and tells the tree.
-/

namespace TestScaffold

open Text (isBlank)

/-! ## Names without blanks -/

theorem FormOfName.unspaced {name : String} (h : FormOfName name) : Unspaced name.toList :=
  fun c hc => Text.isBlank_of_isIdentifierPart (h.isIdentifierPart c hc)

theorem Unspaced.append {w v : List Char} (hw : Unspaced w) (hv : Unspaced v) : Unspaced (w ++ v) := by
  intro c hc
  rcases List.mem_append.mp hc with hc | hc
  · exact hw c hc
  · exact hv c hc

/-- A dot is no blank, so names joined with dots have none. -/
theorem unspaced_intercalate {names : List String} (h : ∀ n ∈ names, Unspaced n.toList) :
    Unspaced (".".intercalate names).toList := by
  induction names with
  | nil => exact List.forall_mem_nil _
  | cons name names ih =>
    have hname : Unspaced name.toList := h name List.mem_cons_self
    by_cases hmore : names = []
    · subst hmore
      exact hname
    · have hdot : Unspaced ".".toList := unspaced_of_all (by decide)
      rw [String.intercalate_cons_of_ne_nil hmore, String.toList_append, String.toList_append]
      exact (hname.append hdot).append (ih fun n hn => h n (List.mem_cons_of_mem name hn))

theorem Admits.unspaced {outer inner : Heading} (h : Admits FormOfName outer inner) : Unspaced inner.name.toList := by
  by_cases hk : inner.kind = .namespaceBlock
  · obtain ⟨names, -, hname, hall⟩ := h.dotted hk
    rw [hname]
    exact unspaced_intercalate fun n hn => (hall n hn).unspaced
  · exact (h.name hk).unspaced

/-- A declaration without places is told by its heading and by what is inside it. -/
theorem Declaration.unplaced_eq {d e : Declaration} (h : d.heading none = e.heading none)
    (hchildren : unplacedAll d.children = unplacedAll e.children) : d.unplaced = e.unplaced := by
  obtain ⟨kind, name, modifiers, span, children⟩ := d
  obtain ⟨kind', name', modifiers', span', children'⟩ := e
  cases h
  dsimp only at hchildren
  rw [unplaced, unplaced, hchildren]

namespace DeclarationTree

variable {t : DeclarationTree} {id : Nat}

/-! ## Places are not shown -/

theorem get?_unplaced (t : DeclarationTree) (id : Nat) : t.unplaced.get? id = (t.get? id).map Node.unplaced := by
  simp [unplaced, get?]

theorem outlineFrom_unplaced (t : DeclarationTree) (bound depth id : Nat) :
    t.unplaced.outlineFrom bound depth id = t.outlineFrom bound depth id := by
  induction bound generalizing depth id with
  | zero => rfl
  | succ bound ih =>
    have hbelow : t.unplaced.outlineFrom bound (depth + 1) = t.outlineFrom bound (depth + 1) := funext (ih (depth + 1))
    rw [outlineFrom, outlineFrom, get?_unplaced]
    cases t.get? id with
    | none => rfl
    | some n =>
      simp only [Option.map_some, hbelow]
      rfl

/-- An outline shows no places. -/
theorem outline_unplaced (t : DeclarationTree) : t.unplaced.outline = t.outline := by
  have hchildren : t.unplaced.children 0 = t.children 0 := by
    rw [children, children, get?_unplaced]
    cases t.get? 0 <;> rfl
  have hsize : t.unplaced.size = t.size := by simp [unplaced, size]
  have hlines : t.unplaced.outlineFrom t.size 0 = t.outlineFrom t.size 0 := funext (t.outlineFrom_unplaced t.size 0)
  rw [outline, outline, hchildren, hsize, hlines]

/-! ## Levels -/

/-- How many nodes are around a node below the root. -/
def level (t : DeclarationTree) (id : Nat) : Nat := (t.ancestors id).countP (· ≠ 0)

namespace PathTo

variable {path : List Nat}

/-- The root stands at the beginning of every way down, and nowhere else on it. -/
theorem countP_ne_zero (ht : t.Entered) (h : t.PathTo id path) (hid : id ≠ 0) :
    path.countP (· ≠ 0) + 1 = path.length := by
  induction h with
  | root => exact absurd rfl hid
  | @child p id path hp _ ih =>
    rw [List.countP_append, List.length_append, List.countP_singleton, List.length_singleton]
    by_cases hzero : p = 0
    · subst hzero
      obtain rfl : path = [] := List.length_eq_zero_iff.mp (Nat.le_zero.mp (hp.length_le ht))
      rfl
    · have hpath := ih hzero
      rw [if_pos (decide_eq_true hzero)]
      omega

theorem level_eq (ht : t.Entered) (h : t.PathTo id path) (hid : id ≠ 0) : path.length = t.level id + 1 := by
  rw [level, h.ancestors_eq ht, List.countP_reverse]
  exact (h.countP_ne_zero ht hid).symm

end PathTo

/-- A walk that begins at some depth writes each line as deep as the way down to its node is long. -/
theorem Walk.forall₂_lines {depth : Nat} {ids met : List Nat} {lines : List String} (h : t.Walk depth ids met lines)
    (hids : ∀ k ∈ ids, ∃ path, t.PathTo k path ∧ path.length = depth + 1) :
    List.Forall₂ (fun k line => ∃ n path d, t.get? k = some n ∧ t.PathTo k path ∧ path.length = d + 1 ∧
      line = outlineLine d n) met lines := by
  induction h with
  | nil => exact .nil
  | @cons depth k n ids met more lines moreLines hn below beside ihbelow ihbeside =>
    obtain ⟨path, hpath, hlength⟩ := hids k List.mem_cons_self
    have hbelow := ihbelow fun c hc => by
      rw [← children_of_get? hn] at hc
      exact ⟨path ++ [k], .child hpath hc, by rw [List.length_append, hlength, List.length_singleton]⟩
    have hbeside := ihbeside fun c hc => hids c (List.mem_cons_of_mem k hc)
    exact .cons ⟨n, path, depth, hn, hpath, hlength, rfl⟩ (List.rel_append hbelow hbeside)

/-! ## Pictures -/

/-- Lines picture a tree: there is one for every node but the root, in the order of the indices, with two blanks for
each node around it below the root, the kind, the name and the modifiers. -/
structure Pictured (t : DeclarationTree) (lines : List (List Char)) : Prop where
  length_eq : lines.length = t.size - 1
  line : ∀ i n, t.get? (i + 1) = some n → lines[i]? = some (List.replicate (2 * t.level (i + 1)) ' ' ++ n.shown)

/-- The lines of the declarations picture their tree. -/
theorem pictured_linesAll {d : Declaration} (ht : (ofDeclaration d).Entered) :
    (ofDeclaration d).Pictured ((Declaration.linesAll 0 d.children).map String.toList) := by
  have htop : ∀ k ∈ (ofDeclaration d).children 0, ∃ path, (ofDeclaration d).PathTo k path ∧ path.length = 0 + 1 :=
    fun k hk => ⟨_, .child .root hk, rfl⟩
  have hlines := (walk_ofDeclaration d).forall₂_lines htop
  have hlength : (Declaration.linesAll 0 d.children).length = Declaration.sizeAll d.children := by
    rw [← hlines.length_eq, List.length_range']
  have hsize : (ofDeclaration d).size = Declaration.sizeAll d.children + 1 := by
    rw [size_ofDeclaration]
    cases d
    rfl
  refine ⟨by rw [List.length_map, hlength, hsize, Nat.add_sub_cancel], fun i n hn => ?_⟩
  have hi : i < Declaration.sizeAll d.children := by
    have hlt := (Array.getElem?_eq_some_iff.mp hn).1
    change i + 1 < (ofDeclaration d).size at hlt
    omega
  have hget := hlines.get (by rwa [List.length_range']) (by rwa [hlength])
  rw [List.get_eq_getElem, List.getElem_range', Nat.one_mul, Nat.add_comm] at hget
  obtain ⟨m, path, depth, hm, hpath, hdepth, hline⟩ := hget
  obtain rfl : m = n := Option.some.inj (hm.symm.trans hn)
  have hlevel : depth = (ofDeclaration d).level (i + 1) :=
    Nat.succ.inj (hdepth.symm.trans (hpath.level_eq ht (Nat.succ_ne_zero i)))
  rw [List.getElem?_map, List.getElem?_eq_getElem (by rwa [hlength]), ← toList_outlineLine, ← hlevel, ← hline]
  rfl

/-- The outline of a tree is made of the lines of its declarations. -/
theorem splitOn_outline {d : Declaration} (ht : (ofDeclaration d).Entered)
    (hd : Declaration.Fitting (Admits FormOfName) (d.heading none) d.children) :
    (ofDeclaration d).outline.toList.splitOn '\n' = (Declaration.linesAll 0 d.children).map String.toList ++ [[]] := by
  rw [(walk_ofDeclaration d).outline_eq ht]
  exact splitOn_join_lines (Declaration.newline_not_mem_linesAll (fun _ _ => Admits.unspaced) hd)

/-- What a text is read as: a declaration of the whole, in which everything stands where it may. -/
theorem exists_ofDeclaration_of_ofSource {source : String} (h : ofSource source = .ok t) : ∃ d, t = ofDeclaration d ∧
    t.Attached ∧ d.heading none = textHeading ∧ Declaration.Fitting (Admits FormOfName) textHeading d.children := by
  obtain ⟨ts, d, hlex, hread, rfl⟩ := ofSource_eq_ok_iff.mp h
  have hthis : FormOfName Keyword.thisKw.spelling := by unfold FormOfName; decide +kernel
  have hop : FormOfName Keyword.operatorKw.spelling := by unfold FormOfName; decide +kernel
  obtain ⟨hroot, hfit⟩ := fitting_of_readDeclarations hthis hop (isIdentifier_of_lex hlex) hread
  rw [hroot] at hfit
  exact ⟨d, rfl, attached_of_ofTokens (ofTokens_eq_ok_iff.mpr ⟨d, hread, rfl⟩), hroot, hfit⟩

/-- The outline of a text that was read has a line for every declaration, which tells where it stands and how it is
written. Two such texts have the same outline exactly if their trees are the same but for places. -/
theorem outline_faithful {source source' : String} {t u : DeclarationTree} (ht : ofSource source = .ok t)
    (hu : ofSource source' = .ok u) :
    (∃ lines, t.outline.toList.splitOn '\n' = lines ++ [[]] ∧ t.Pictured lines) ∧
      (t.outline = u.outline ↔ t.unplaced = u.unplaced) := by
  obtain ⟨d, rfl, hattached, hroot, hfit⟩ := exists_ofDeclaration_of_ofSource ht
  obtain ⟨e, rfl, hattached', hroot', hfit'⟩ := exists_ofDeclaration_of_ofSource hu
  have hlines := splitOn_outline hattached.entered (hroot ▸ hfit)
  have hlines' := splitOn_outline hattached'.entered (hroot' ▸ hfit')
  refine ⟨⟨_, hlines, pictured_linesAll hattached.entered⟩, ?_, ?_⟩
  · intro houtline
    rw [houtline, hlines'] at hlines
    have hsame : Declaration.linesAll 0 d.children = Declaration.linesAll 0 e.children :=
      (List.map_inj_right fun _ _ => String.toList_inj.mp).mp (List.append_cancel_right hlines.symm)
    have hchildren := Declaration.linesAll_inj (fun _ _ => Admits.unspaced) hfit hfit' hsame
    rw [unplaced_ofDeclaration, unplaced_ofDeclaration,
      Declaration.unplaced_eq (hroot.trans hroot'.symm) hchildren]
  · intro hunplaced
    rw [← outline_unplaced, hunplaced, outline_unplaced]

/-- A class with two modifiers in a dotted namespace, all on one line. -/
def onOneLine : String := "namespace A.B \x7b public static class C \x7b int D; E() \x7b \x7d \x7d \x7d"

/-- The same over several lines. -/
def onSomeLines : String := "namespace A . B\n\x7b\n  public\tstatic class C\n  \x7b int D;\n E()\x7b\x7d \x7d\n\x7d\n"

example : (ofSource onSomeLines).toOption.map outline =
    some "namespace A.B\n  class C [public static]\n    field D\n    method E\n" := by decide +kernel

theorem outline_faithful_spread : ∃ t u, ofSource onOneLine = .ok t ∧ ofSource onSomeLines = .ok u ∧
    (∃ lines, t.outline.toList.splitOn '\n' = lines ++ [[]] ∧ t.Pictured lines) ∧
      (t.outline = u.outline ↔ t.unplaced = u.unplaced) := by
  obtain ⟨t, ht⟩ := @exists_eq_ok _ _ (ofSource onOneLine) (by decide +kernel)
  obtain ⟨u, hu⟩ := @exists_eq_ok _ _ (ofSource onSomeLines) (by decide +kernel)
  exact ⟨t, u, ht, hu, outline_faithful ht hu⟩

end DeclarationTree

end TestScaffold
