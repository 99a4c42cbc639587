import Mathlib.Data.List.Infix
import TestScaffold.Proofs.Declaration.Outline
import TestScaffold.TestUnit.Layout

/-!
# Laid-out text is aligned

A page has one level of indentation for everything that is written on it, a block lifts it and takes it back, and
`dedent` changes nothing at the margin. Where the indents and dedents of every block take each other back, the level of
a line can be told without running anything: from the blocks around it and from the indents that are open in them.
`Layout.rows` reads a layout that way, each block in its own scope.

`attributeLine` and `usingLine` are lines and `separated` is a row of layouts with blank lines between them, so all that
is written is a `List Layout`.

Results:
* `Layout.Levelled.levelAfter_eq`: what is levelled leaves the level where it was.
* `Layout.writeAll_eq`: a balanced layout writes the rows that are told from its scopes.
* `Layout.Nested.rows_infix`: the rows of a part, however deep it stands, at its own depth.
* `Layout.balanced_aligned`: the lines of a balanced layout, its braces included, and the level behind it.
-/

namespace TestScaffold

namespace Layout

variable {xs part before after : List Layout} {level : Nat} {header : String}

/-! ## Balance -/

/-- Counts the explicit indents of a row, not those of the blocks in it. -/
def indents (xs : List Layout) : Nat := xs.countP fun | .indent => true | _ => false

/-- Counts the explicit dedents of a row, not those of the blocks in it. -/
def dedents (xs : List Layout) : Nat := xs.countP fun | .dedent => true | _ => false

/-- The indents of a row that no dedent has taken back. -/
def opened (xs : List Layout) : Nat := indents xs - dedents xs

/-- The indents and dedents of a row take each other back, and no dedent goes below the level at its start. -/
def Levelled (xs : List Layout) : Prop :=
  (∀ front ∈ xs.inits, dedents front ≤ indents front) ∧ dedents xs = indents xs

instance (xs : List Layout) : Decidable (Levelled xs) := inferInstanceAs (Decidable (_ ∧ _))

mutual

/-- The body of a block and of every block in it. -/
def bodiesOf : Layout → List (List Layout)
  | .block _ body => body :: bodies body
  | _ => []

/-- The bodies of the blocks of a row, at any depth. -/
def bodies : List Layout → List (List Layout)
  | [] => []
  | x :: xs => bodiesOf x ++ bodies xs

end

/-- The row and the body of every block in it are levelled, each by itself. -/
def Balanced (xs : List Layout) : Prop := ∀ body ∈ xs :: bodies xs, Levelled body

instance (xs : List Layout) : Decidable (Balanced xs) := inferInstanceAs (Decidable (∀ body ∈ xs :: bodies xs, _))

theorem indents_append (xs ys : List Layout) : indents (xs ++ ys) = indents xs + indents ys := List.countP_append

theorem dedents_append (xs ys : List Layout) : dedents (xs ++ ys) = dedents xs + dedents ys := List.countP_append

theorem Levelled.dedents_le (h : Levelled (before ++ after)) : dedents before ≤ indents before :=
  h.1 before ((List.mem_inits before _).mpr (List.prefix_append before after))

theorem bodies_append (xs ys : List Layout) : bodies (xs ++ ys) = bodies xs ++ bodies ys := by
  induction xs with
  | nil => rfl
  | cons x xs ih => rw [List.cons_append, bodies, bodies, ih, List.append_assoc]

theorem Balanced.levelled (h : Balanced xs) : Levelled xs := h xs List.mem_cons_self

/-- What is balanced has balanced blocks. -/
theorem Balanced.block (h : Balanced (before ++ .block header part :: after)) : Balanced part := by
  intro b hb
  refine h b (List.mem_cons_of_mem _ ?_)
  rw [bodies_append, bodies, bodiesOf]
  exact List.mem_append_right _ (List.mem_append_left _ hb)

/-! ## The level behind a piece, told without its blocks -/

/-- The level behind a piece. A block is taken to leave it alone. -/
def levelBehind (level : Nat) : Layout → Nat
  | .indent => level + 1
  | .dedent => level - 1
  | _ => level

/-- The level behind a row of pieces. -/
def levelAfter (level : Nat) (xs : List Layout) : Nat := xs.foldl levelBehind level

theorem levelAfter_append (level : Nat) (xs ys : List Layout) :
    levelAfter level (xs ++ ys) = levelAfter (levelAfter level xs) ys := List.foldl_append

/-- A dedent that takes back an indent of the row is never stopped at the margin. -/
theorem levelAfter_add_dedents (h : ∀ front, front <+: xs → dedents front ≤ indents front) :
    levelAfter level xs + dedents xs = level + indents xs := by
  induction xs using List.reverseRecOn with
  | nil => rfl
  | append_singleton xs x ih =>
    have hxs := ih fun front hfront => h front (hfront.trans (List.prefix_append xs [x]))
    have hlast := h (xs ++ [x]) List.prefix_rfl
    rw [indents_append, dedents_append] at hlast ⊢
    rw [levelAfter_append]
    cases x with
    | dedent =>
      have hone : dedents [Layout.dedent] = 1 := rfl
      have hnone : indents [Layout.dedent] = 0 := rfl
      have hbehind : levelAfter (levelAfter level xs) [.dedent] = levelAfter level xs - 1 := rfl
      omega
    | indent =>
      have hnone : dedents [Layout.indent] = 0 := rfl
      have hone : indents [Layout.indent] = 1 := rfl
      have hbehind : levelAfter (levelAfter level xs) [.indent] = levelAfter level xs + 1 := rfl
      omega
    | line => exact hxs
    | blank => exact hxs
    | block => exact hxs

/-- Inside a levelled row, the level is that at its start and the open indents. -/
theorem Levelled.levelAfter_front (h : Levelled (before ++ after)) : levelAfter level before = level + opened before := by
  have hbefore : levelAfter level before + dedents before = level + indents before :=
    levelAfter_add_dedents fun front hfront =>
      h.1 front ((List.mem_inits front _).mpr (hfront.trans (List.prefix_append before after)))
  have hle := h.dedents_le
  rw [opened]
  omega

/-- What is levelled leaves the level where it was. -/
theorem Levelled.levelAfter_eq (h : Levelled xs) : levelAfter level xs = level := by
  have hxs : levelAfter level xs + dedents xs = level + indents xs :=
    levelAfter_add_dedents fun front hfront => h.1 front ((List.mem_inits front xs).mpr hfront)
  have heq := h.2
  omega

/-! ## The rows of a layout -/

/-- A row of laid-out text: nothing, or a text behind the spaces of its depth. -/
inductive Row
  | blank
  | line (depth : Nat) (text : String)
  deriving DecidableEq

/-- A row as it is shown, with four spaces for each level of its depth. -/
def Row.shown : Row → String
  | .blank => ""
  | .line depth text => Page.margin depth ++ text

mutual

/-- The rows of a piece at a depth. The header of a block and its braces stand at the depth of the block, its body one
deeper. -/
def rowsOf (depth : Nat) : Layout → List Row
  | .line text => [.line depth text]
  | .blank => [.blank]
  | .indent => []
  | .dedent => []
  | .block header body => .line depth header :: .line depth "\x7b" :: (rows (depth + 1) body ++ [.line depth "\x7d"])

/-- The rows of pieces that stand behind each other, the first of them at a depth. -/
def rows (depth : Nat) : List Layout → List Row
  | [] => []
  | x :: xs => rowsOf depth x ++ rows (levelBehind depth x) xs

end

theorem rows_append (depth : Nat) (xs ys : List Layout) :
    rows depth (xs ++ ys) = rows depth xs ++ rows (levelAfter depth xs) ys := by
  induction xs generalizing depth with
  | nil => rfl
  | cons x xs ih => rw [List.cons_append, rows, rows, ih, List.append_assoc, levelAfter, levelAfter, List.foldl_cons]

/-- The text that shows rows, each with a line break behind it. -/
def shownRows (rs : List Row) : String := String.join (rs.map fun r => r.shown ++ "\n")

theorem shownRows_append (rs qs : List Row) : shownRows (rs ++ qs) = shownRows rs ++ shownRows qs := by
  rw [shownRows, List.map_append, String.join_append, ← shownRows, ← shownRows]

end Layout

/-- A page with rows written behind its text, and with another level. -/
def Page.withRows (p : Page) (rs : List Layout.Row) (level : Nat) : Page := ⟨p.text ++ Layout.shownRows rs, level⟩

namespace Page

theorem withRows_nil (p : Page) (level : Nat) : p.withRows [] level = { p with level } := by
  rw [withRows]
  exact congrArg (Page.mk · level) String.append_empty

theorem withRows_withRows (p : Page) (rs qs : List Layout.Row) (l m : Nat) :
    (p.withRows rs l).withRows qs m = p.withRows (rs ++ qs) m := by
  rw [withRows, withRows, withRows, Layout.shownRows_append, String.append_assoc]

theorem line_eq_withRows (p : Page) (text : String) : p.line text = p.withRows [.line p.level text] p.level := by
  simp [line, withRows, Layout.shownRows, Layout.Row.shown, String.append_assoc]

theorem blank_eq_withRows (p : Page) : p.blank = p.withRows [.blank] p.level := by
  simp [blank, withRows, Layout.shownRows, Layout.Row.shown]

end Page

namespace Layout

variable {x : Layout} {xs part before after : List Layout} {level depth : Nat} {header : String}

mutual

theorem write_eq (p : Page) (x : Layout) (h : ∀ body ∈ bodiesOf x, Levelled body) :
    write p x = p.withRows (rowsOf p.level x) (levelBehind p.level x) := by
  cases x with
  | line text => exact p.line_eq_withRows text
  | blank => exact p.blank_eq_withRows
  | indent => exact (p.withRows_nil (p.level + 1)).symm
  | dedent => exact (p.withRows_nil (p.level - 1)).symm
  | block header body =>
    have hbody : levelAfter (p.level + 1) body = p.level + 1 := (h body List.mem_cons_self).levelAfter_eq
    have hopen : (p.line header).line "\x7b" = p.withRows [.line p.level header, .line p.level "\x7b"] p.level := by
      rw [p.line_eq_withRows, Page.line_eq_withRows, Page.withRows_withRows]
      rfl
    -- The level of the block is lifted for its body, and the body leaves it lifted.
    have hinside : (writeAll ((p.line header).line "\x7b").indent body).dedent =
        ((p.line header).line "\x7b").withRows (rows (p.level + 1) body) p.level := by
      rw [writeAll_eq _ body fun b hb => h b (List.mem_cons_of_mem body hb)]
      exact congrArg (fun l => Page.withRows _ _ (l - 1)) hbody
    rw [write, hinside, hopen, Page.withRows_withRows, Page.line_eq_withRows, Page.withRows_withRows]
    rfl

/-- Where every block is levelled, what is written is told from the scopes alone. -/
theorem writeAll_eq (p : Page) (xs : List Layout) (h : ∀ body ∈ bodies xs, Levelled body) :
    writeAll p xs = p.withRows (rows p.level xs) (levelAfter p.level xs) := by
  cases xs with
  | nil => exact (p.withRows_nil p.level).symm
  | cons x xs =>
    have hfirst := write_eq p x fun b hb => h b (List.mem_append_left _ hb)
    have hrest := writeAll_eq (write p x) xs fun b hb => h b (List.mem_append_right _ hb)
    rw [writeAll, hrest, hfirst, Page.withRows_withRows]
    rfl

end

/-! ## Parts of a layout -/

/-- A row that stands in a layout: the layout itself, or the body of a block in it. Its depth counts the blocks around
it and the indents that are open in them. -/
inductive Nested (xs : List Layout) : Nat → List Layout → Prop
  | self : Nested xs 0 xs
  | block {outer : Nat} {before after part : List Layout} {header : String}
      (h : Nested xs outer (before ++ .block header part :: after)) : Nested xs (outer + opened before + 1) part

/-- A piece stands in a layout, with so many blocks around it and indents open before it. -/
def StandsAt (xs : List Layout) (depth : Nat) (x : Layout) : Prop :=
  ∃ outer before after, Nested xs outer (before ++ x :: after) ∧ depth = outer + opened before

theorem Nested.balanced (h : Nested xs depth part) (hxs : Balanced xs) : Balanced part := by
  induction h with
  | self => exact hxs
  | block _ ih => exact ih.block

/-- A piece of a levelled row has its rows at the depth that the indents before it open. -/
theorem rowsOf_infix (h : Levelled (before ++ x :: after)) :
    rowsOf (level + opened before) x <:+: rows level (before ++ x :: after) := by
  rw [rows_append, h.levelAfter_front, rows]
  exact ⟨rows level before, rows _ after, List.append_assoc _ _ _⟩

/-- The rows of a body, however deep it stands. -/
theorem Nested.rows_infix (h : Nested xs depth part) (hxs : Balanced xs) :
    rows (level + depth) part <:+: rows level xs := by
  induction h with
  | self => exact List.infix_rfl
  | @block outer before after part header h ih =>
    have hblock : rowsOf (level + outer + opened before) (.block header part) <:+: rows (level + outer) _ :=
      rowsOf_infix (h.balanced hxs).levelled
    have hinner : rows (level + outer + opened before + 1) part <:+:
        rowsOf (level + outer + opened before) (.block header part) :=
      ⟨[.line _ header, .line _ "\x7b"], [.line _ "\x7d"], rfl⟩
    rw [← Nat.add_assoc, ← Nat.add_assoc]
    exact hinner.trans (hblock.trans ih)

theorem StandsAt.rowsOf_infix (h : StandsAt xs depth x) (hxs : Balanced xs) :
    rowsOf (level + depth) x <:+: rows level xs := by
  obtain ⟨outer, before, after, hnested, rfl⟩ := h
  rw [← Nat.add_assoc]
  exact (Layout.rowsOf_infix (hnested.balanced hxs).levelled).trans (hnested.rows_infix hxs)

/-- The texts that a piece shows itself: its own, or the header and the braces of a block. -/
def ownTexts : Layout → List String
  | .line text => [text]
  | .block header _ => [header, "\x7b", "\x7d"]
  | _ => []

mutual

theorem exists_standsAt_of_mem_rowsOf {row : Nat} {text : String} {outer : Nat} {x : Layout}
    {before after : List Layout} (hxs : Balanced xs) (hnested : Nested xs outer (before ++ x :: after))
    (h : .line row text ∈ rowsOf (level + outer + opened before) x) :
    ∃ depth y, StandsAt xs depth y ∧ text ∈ y.ownTexts ∧ row = level + depth := by
  have hself : row = level + outer + opened before → text ∈ x.ownTexts →
      ∃ depth y, StandsAt xs depth y ∧ text ∈ y.ownTexts ∧ row = level + depth := fun hrow htext =>
    ⟨outer + opened before, x, ⟨outer, before, after, hnested, rfl⟩, htext, hrow.trans (Nat.add_assoc _ _ _)⟩
  cases x with
  | line own =>
    cases List.mem_singleton.mp h
    exact hself rfl List.mem_cons_self
  | blank => cases List.mem_singleton.mp h
  | indent => cases h
  | dedent => cases h
  | block header body =>
    rcases List.mem_cons.mp h with h | h
    · cases h
      exact hself rfl List.mem_cons_self
    rcases List.mem_cons.mp h with h | h
    · cases h
      exact hself rfl (by simp [ownTexts])
    rcases List.mem_append.mp h with h | h
    · have hbody : Nested xs (outer + opened before + 1) ([] ++ body) := .block hnested
      have hdepth : level + outer + opened before + 1 = level + (outer + opened before + 1) + opened [] := by
        have hnone : opened [] = 0 := rfl
        omega
      exact exists_standsAt_of_mem_rows hxs hbody (hdepth ▸ h)
    · cases List.mem_singleton.mp h
      exact hself rfl (by simp [ownTexts])

theorem exists_standsAt_of_mem_rows {row : Nat} {text : String} {outer : Nat} {before rest : List Layout}
    (hxs : Balanced xs) (hnested : Nested xs outer (before ++ rest))
    (h : .line row text ∈ rows (level + outer + opened before) rest) :
    ∃ depth y, StandsAt xs depth y ∧ text ∈ y.ownTexts ∧ row = level + depth := by
  cases rest with
  | nil => cases h
  | cons x rest =>
    rcases List.mem_append.mp h with h | h
    · exact exists_standsAt_of_mem_rowsOf hxs hnested h
    · have hnext : Nested xs outer ((before ++ [x]) ++ rest) := by rwa [List.append_assoc]
      have hlevel : levelBehind (level + outer + opened before) x = level + outer + opened (before ++ [x]) := by
        rw [← (hnext.balanced hxs).levelled.levelAfter_front, levelAfter_append,
          (hnested.balanced hxs).levelled.levelAfter_front]
        rfl
      exact exists_standsAt_of_mem_rows hxs hnext (hlevel ▸ h)

end

/-! ## One call after the other -/

mutual

/-- The calls that a piece comes down to: lines, blanks, indents and dedents. -/
def callsOf : Layout → List Layout
  | .block header body => .line header :: .line "\x7b" :: .indent :: (calls body ++ [.dedent, .line "\x7d"])
  | x => [x]

/-- The calls that a row comes down to, in the order they are made. -/
def calls : List Layout → List Layout
  | [] => []
  | x :: xs => callsOf x ++ calls xs

end

mutual

theorem writeAll_callsOf (p : Page) (x : Layout) : writeAll p (callsOf x) = write p x := by
  cases x with
  | block header body =>
    rw [callsOf, writeAll, writeAll, writeAll, writeAll_append, writeAll_calls]
    rfl
  | _ => rfl

theorem writeAll_calls (p : Page) (xs : List Layout) : writeAll p (calls xs) = writeAll p xs := by
  cases xs with
  | nil => rfl
  | cons x xs => rw [calls, writeAll_append, writeAll_callsOf, writeAll_calls, writeAll]

end

/-! ## Alignment -/

mutual

/-- The texts given for a piece. -/
def textsOf : Layout → List String
  | .line text => [text]
  | .block header body => header :: texts body
  | _ => []

/-- The texts given for a row, at any depth. -/
def texts : List Layout → List String
  | [] => []
  | x :: xs => textsOf x ++ texts xs

end

theorem newline_not_mem_margin (level : Nat) : '\n' ∉ (Page.margin level).toList := by
  simp [Page.margin, String.toList_join]

theorem newline_not_mem_shown {text : String} (h : '\n' ∉ text.toList) : '\n' ∉ (Row.line depth text).shown.toList := by
  rw [Row.shown, String.toList_append, List.mem_append]
  exact not_or.mpr ⟨newline_not_mem_margin depth, h⟩

mutual

theorem newline_not_mem_rowsOf (depth : Nat) (x : Layout) (h : ∀ text ∈ textsOf x, '\n' ∉ text.toList) :
    ∀ row ∈ rowsOf depth x, '\n' ∉ row.shown.toList := by
  cases x with
  | line text => exact List.forall_mem_singleton.mpr (newline_not_mem_shown (h text List.mem_cons_self))
  | blank => exact List.forall_mem_singleton.mpr List.not_mem_nil
  | indent => exact List.forall_mem_nil _
  | dedent => exact List.forall_mem_nil _
  | block header body =>
    have hbody := newline_not_mem_rows (depth + 1) body fun text htext => h text (List.mem_cons_of_mem header htext)
    rw [rowsOf, List.forall_mem_cons, List.forall_mem_cons, List.forall_mem_append, List.forall_mem_singleton]
    exact ⟨newline_not_mem_shown (h header List.mem_cons_self), newline_not_mem_shown (by decide), hbody,
      newline_not_mem_shown (by decide)⟩

theorem newline_not_mem_rows (depth : Nat) (xs : List Layout) (h : ∀ text ∈ texts xs, '\n' ∉ text.toList) :
    ∀ row ∈ rows depth xs, '\n' ∉ row.shown.toList := by
  cases xs with
  | nil => exact List.forall_mem_nil _
  | cons x xs =>
    have hfirst := newline_not_mem_rowsOf depth x fun text htext => h text (List.mem_append_left _ htext)
    have hrest := newline_not_mem_rows (levelBehind depth x) xs fun text htext => h text (List.mem_append_right _ htext)
    exact List.forall_mem_append.mpr ⟨hfirst, hrest⟩

end

/-- Rows are found again in the text that shows them. -/
theorem splitOn_shownRows {rs : List Row} (h : ∀ row ∈ rs, '\n' ∉ row.shown.toList) :
    (shownRows rs).toList.splitOn '\n' = rs.map (·.shown.toList) ++ [[]] := by
  have hnone : ∀ line ∈ rs.map Row.shown, '\n' ∉ line.toList := List.forall_mem_map.mpr h
  have hlines := DeclarationTree.splitOn_join_lines hnone
  rwa [List.map_map, List.map_map] at hlines

/-- What holds of the text that a layout writes behind a page. -/
structure Aligned (p : Page) (xs : List Layout) : Prop where
  /-- The level behind the layout is the level before it. -/
  level : (writeAll p xs).level = p.level
  /-- The lines that are written are the rows of the layout, each at the depth of its scope. -/
  lines : ∃ written, (writeAll p xs).text = p.text ++ written ∧
    written.toList.splitOn '\n' = (rows p.level xs).map (·.shown.toList) ++ [[]]
  /-- A block has its header and its braces at its own depth, and between the braces the rows of its body. -/
  block : ∀ depth header part, StandsAt xs depth (.block header part) →
    .line (p.level + depth) header :: .line (p.level + depth) "\x7b" ::
      (rows (p.level + depth + 1) part ++ [.line (p.level + depth) "\x7d"]) <:+: rows p.level xs
  /-- A line is written at the depth where it stands. -/
  line : ∀ depth text, StandsAt xs depth (.line text) → .line (p.level + depth) text ∈ rows p.level xs
  /-- No other lines are written than those of pieces, at their depths. -/
  only : ∀ level text, .line level text ∈ rows p.level xs →
    ∃ depth x, StandsAt xs depth x ∧ text ∈ x.ownTexts ∧ level = p.level + depth
  /-- The layout comes down to calls that each leave what is written. -/
  appends : writeAll p (calls xs) = writeAll p xs ∧ ∀ front call back, calls xs = front ++ call :: back →
    (write (writeAll p front) call).Extends (writeAll p front)

theorem Balanced.writeAll_eq (p : Page) (h : Balanced xs) : writeAll p xs = p.withRows (rows p.level xs) p.level := by
  rw [Layout.writeAll_eq p xs fun body hbody => h body (List.mem_cons_of_mem xs hbody), h.levelled.levelAfter_eq]

/-- What is balanced is written in alignment, from any page on. -/
theorem balanced_aligned (p : Page) (h : Balanced xs) (hflat : ∀ text ∈ texts xs, '\n' ∉ text.toList) :
    Aligned p xs where
  level := by rw [h.writeAll_eq, Page.withRows]
  lines := by
    refine ⟨shownRows (rows p.level xs), ?_, splitOn_shownRows (newline_not_mem_rows p.level xs hflat)⟩
    rw [h.writeAll_eq, Page.withRows]
  block depth header part hblock := hblock.rowsOf_infix h
  line depth text hline := (hline.rowsOf_infix h).subset List.mem_cons_self
  only row text hrow := by
    have hself : Nested xs 0 ([] ++ xs) := .self
    exact exists_standsAt_of_mem_rows h hself hrow
  appends := ⟨writeAll_calls p xs, fun front call _ _ => extends_write _ call⟩

/-- A class with attributes, two members and an open indent, inside a namespace. -/
def sample : List Layout :=
  [.usingLine "System", .blank, .block "namespace A" [.attributeLine "Test", .block "class B" (separated
    [[.line "int x =", .indent, .line "1;", .dedent], [.block "void M()" []]])]]

theorem sample_aligned : Balanced sample ∧ (∀ text ∈ texts sample, '\n' ∉ text.toList) ∧ Aligned {} sample ∧
    render sample = "using System;\n\nnamespace A\n\x7b\n    [Test]\n    class B\n    \x7b\n" ++
      "        int x =\n            1;\n\n        void M()\n        \x7b\n        \x7d\n    \x7d\n\x7d\n" := by
  have hbalanced : Balanced sample := by decide
  have hflat : ∀ text ∈ texts sample, '\n' ∉ text.toList := by decide +kernel
  exact ⟨hbalanced, hflat, balanced_aligned {} hbalanced hflat, by decide +kernel⟩

end Layout

end TestScaffold
