/-!
# Laid-out text

Text made of lines and of blocks in braces, written with consistent indentation.

* `Layout.writeAll`: writes a layout behind what has been written, from the current indentation on.
* `Page.Extends`: what has been written stays; `extends_writeAll` says so of every layout.
-/

namespace TestScaffold

/-- A piece of text to lay out. -/
inductive Layout
  /-- A line at the current indentation. -/
  | line (text : String)
  /-- A line with nothing on it. -/
  | blank
  /-- Indents what follows by one more level. -/
  | indent
  /-- Indents what follows by one level less; at the margin it changes nothing. -/
  | dedent
  /-- A header with a block in braces below it. -/
  | block (header : String) (body : List Layout)

/-- What has been written, and how deep the next line is indented. -/
structure Page where
  text : String := ""
  level : Nat := 0
  deriving DecidableEq, Repr

namespace Page

/-- The spaces in front of a line at an indentation level. -/
def margin (level : Nat) : String := String.join (List.replicate level "    ")

/-- Writes a line at the current indentation. -/
def line (p : Page) (text : String) : Page := { p with text := p.text ++ margin p.level ++ text ++ "\n" }

/-- Writes an empty line. -/
def blank (p : Page) : Page := { p with text := p.text ++ "\n" }

/-- Indents what follows. -/
def indent (p : Page) : Page := { p with level := p.level + 1 }

/-- Takes back one level of indentation; at the margin there is none to take back. -/
def dedent (p : Page) : Page := { p with level := p.level - 1 }

/-- Whether `q` shows everything that `p` shows, with something behind it. -/
def Extends (q p : Page) : Prop := ∃ more, q.text = p.text ++ more

end Page

namespace Layout

mutual

/-- Writes a piece behind what has been written. The braces of a block stand on lines of their own. -/
def write (p : Page) : Layout → Page
  | .line text => p.line text
  | .blank => p.blank
  | .indent => p.indent
  | .dedent => p.dedent
  | .block header body => (writeAll ((p.line header).line "\x7b").indent body).dedent.line "\x7d"

/-- Writes pieces one after the other. -/
def writeAll (p : Page) : List Layout → Page
  | [] => p
  | x :: xs => writeAll (write p x) xs

end

/-- The text of a layout that starts at the margin. -/
def render (xs : List Layout) : String := (writeAll {} xs).text

/-- An attribute on a line of its own. -/
def attributeLine (name : String) : Layout := line s!"[{name}]"

/-- A directive that opens a namespace. -/
def usingLine (namespaceName : String) : Layout := line s!"using {namespaceName};"

/-- The given layouts with a blank line between each two. -/
def separated : List (List Layout) → List Layout
  | [] => []
  | [x] => x
  | x :: y :: rest => x ++ blank :: separated (y :: rest)

theorem writeAll_append (p : Page) (xs ys : List Layout) :
    writeAll p (xs ++ ys) = writeAll (writeAll p xs) ys := by
  induction xs generalizing p with
  | nil => rfl
  | cons x xs ih => simpa [writeAll] using ih (write p x)

end Layout

namespace Page

theorem Extends.refl (p : Page) : p.Extends p := ⟨"", by simp⟩

theorem Extends.trans {p q r : Page} (h : q.Extends p) (k : r.Extends q) : r.Extends p := by
  obtain ⟨a, ha⟩ := h
  obtain ⟨b, hb⟩ := k
  exact ⟨a ++ b, by rw [hb, ha, String.append_assoc]⟩

theorem extends_line (p : Page) (text : String) : (p.line text).Extends p :=
  ⟨margin p.level ++ text ++ "\n", by simp [line, String.append_assoc]⟩

end Page

namespace Layout

mutual

theorem extends_write (p : Page) (x : Layout) : (write p x).Extends p := by
  cases x with
  | line text => exact p.extends_line text
  | blank => exact ⟨"\n", rfl⟩
  | indent => exact .refl p
  | dedent => exact .refl p
  | block header body =>
    have h : (writeAll ((p.line header).line "\x7b").indent body).Extends p :=
      (p.extends_line header).trans ((Page.extends_line _ _).trans (extends_writeAll _ body))
    exact h.trans (Page.extends_line (Page.dedent _) _)

theorem extends_writeAll (p : Page) (xs : List Layout) : (writeAll p xs).Extends p := by
  cases xs with
  | nil => exact .refl p
  | cons x xs => exact (extends_write p x).trans (extends_writeAll _ xs)

end

end Layout

end TestScaffold
