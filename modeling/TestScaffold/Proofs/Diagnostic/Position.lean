import Mathlib.Data.List.DropRight
import Std.Data.String.ToNat
import TestScaffold.Proofs.Token.Faults

/-!
# Where reports point

A report is shown with the line on which it starts. Its line and column are those of the first byte of its stretch, told
by the newlines in front of it and by the characters behind the last of them, and no two places have both in common.

Results:
* `Excerpt.Behind`: line and column of a place; they rise from place to place (`Behind.lt_iff`).
* `Excerpt.getElem?_splitOn`: the line around a place is one of the pieces between newlines.
* `Excerpt.render_eq_join_rows`, `Diagnostic.rows_position_inj`: how a report is laid out, and that its line and its
  column can be read in one way only.
* `Diagnostic.render?_pinpoints`: a report tells where it starts.
-/

namespace TestScaffold

open Text (byteLength splitAtByte?)

namespace Excerpt

/-! ## Lines and columns -/

/-- What stands in front of the last line of a text is empty or ends with a newline. -/
theorem exists_append_lastLine (cs : List Char) :
    ∃ above, cs = above ++ lastLine cs ∧ (above = [] ∨ ∃ front, above = front ++ ['\n']) := by
  refine ⟨cs.rdropWhile (· != '\n'), List.rdropWhile_append_rtakeWhile.symm, ?_⟩
  have hlast := List.rdropWhile_last_not (· != '\n') cs
  rcases List.eq_nil_or_concat (cs.rdropWhile (· != '\n')) with hnil | ⟨front, c, hfront⟩
  · exact .inl hnil
  · rw [hfront] at hlast ⊢
    have hc : c = '\n' := by simpa using hlast
    exact .inr ⟨front, by rw [hc, List.concat_eq_append]⟩

theorem newline_not_mem_lastLine (cs : List Char) : '\n' ∉ lastLine cs := by
  intro hmem
  have hpass := List.mem_rtakeWhile_imp hmem
  cases hpass

theorem lastLine_append {xs ys : List Char} (h : '\n' ∉ ys) : lastLine (xs ++ ys) = lastLine xs ++ ys := by
  have hpass : ∀ c ∈ ys.reverse, (c != '\n') = true := by
    intro c hc
    rw [bne_iff_ne]
    rintro rfl
    exact h (List.mem_reverse.mp hc)
  rw [lastLine, List.reverse_append, List.takeWhile_append_of_pos hpass, List.reverse_append, List.reverse_reverse,
    lastLine]

/-- The place behind the text `before` is in a line and a column: the line counts the newlines that stand in front of
it, and the column counts the characters behind the last of them. -/
structure Behind (before : List Char) (line column : Nat) : Prop where
  line_eq : line = before.count '\n' + 1
  column_eq : ∃ above indent, before = above ++ indent ∧ (above = [] ∨ ∃ front, above = front ++ ['\n']) ∧
    '\n' ∉ indent ∧ column = indent.length + 1

theorem behind_iff {before : List Char} {line column : Nat} :
    Behind before line column ↔ line = before.count '\n' + 1 ∧ column = (lastLine before).length + 1 := by
  constructor
  · rintro ⟨hline, above, indent, rfl, habove, hindent, hcolumn⟩
    have hlast : lastLine above = [] := by
      rcases habove with rfl | ⟨front, rfl⟩
      · rfl
      · simp [lastLine]
    rw [lastLine_append hindent, hlast]
    exact ⟨hline, hcolumn⟩
  · rintro ⟨hline, hcolumn⟩
    obtain ⟨above, hbefore, habove⟩ := exists_append_lastLine before
    exact ⟨hline, above, _, hbefore, habove, newline_not_mem_lastLine before, hcolumn⟩

/-- Behind more text there is a later line, or the column of the same line that is as many characters further on. -/
theorem Behind.append {before more : List Char} {line column line' column' : Nat} (h : Behind before line column)
    (h' : Behind (before ++ more) line' column') : line < line' ∨ line = line' ∧ column' = column + more.length := by
  obtain ⟨rfl, rfl⟩ := behind_iff.mp h
  obtain ⟨rfl, rfl⟩ := behind_iff.mp h'
  by_cases hnewline : '\n' ∈ more
  · have hcount : 0 < more.count '\n' := List.count_pos_iff.mpr hnewline
    rw [List.count_append]
    exact .inl (by omega)
  · rw [List.count_append, List.count_eq_zero_of_not_mem hnewline, lastLine_append hnewline, List.length_append]
    exact .inr ⟨rfl, by omega⟩

/-! ## The line around a place -/

theorem length_splitOn (cs : List Char) : (cs.splitOn '\n').length = cs.count '\n' + 1 := by
  induction cs with
  | nil => rfl
  | cons c cs ih =>
    rw [List.splitOn_eq_splitOnP] at ih ⊢
    rw [List.splitOnP_cons_eq_if_modifyHead, List.count_cons]
    split
    · rw [List.length_cons, ih]
    · rw [List.length_modifyHead, ih, Nat.add_zero]

theorem takeWhile_append {xs : List Char} (h : '\n' ∉ xs) (ys : List Char) :
    (xs ++ ys).takeWhile (· != '\n') = xs ++ ys.takeWhile (· != '\n') := by
  apply List.takeWhile_append_of_pos
  intro c hc
  rw [bne_iff_ne]
  rintro rfl
  exact h hc

/-- The first piece of a text goes up to its first newline. -/
theorem getElem?_zero_splitOn (cs : List Char) : (cs.splitOn '\n')[0]? = some (cs.takeWhile (· != '\n')) := by
  induction cs with
  | nil => rfl
  | cons c cs ih =>
    rw [List.splitOn_eq_splitOnP] at ih ⊢
    rw [List.splitOnP_cons_eq_if_modifyHead]
    by_cases hc : c = '\n'
    · simp [hc]
    · simp [hc, ih]

/-- The line around the place behind `before` is the piece with as many newlines in front of it. -/
theorem getElem?_splitOn (before after : List Char) : ((before ++ after).splitOn '\n')[before.count '\n']? =
    some (lastLine before ++ after.takeWhile (· != '\n')) := by
  obtain ⟨above, hbefore, habove⟩ := exists_append_lastLine before
  have hnone : '\n' ∉ lastLine before := newline_not_mem_lastLine before
  have hcount : before.count '\n' = above.count '\n' := by
    conv_lhs => rw [hbefore, List.count_append, List.count_eq_zero_of_not_mem hnone, Nat.add_zero]
  have hpiece := getElem?_zero_splitOn (lastLine before ++ after)
  rw [takeWhile_append hnone] at hpiece
  rw [hcount, ← hpiece]
  conv_lhs => rw [hbefore, List.append_assoc]
  rcases habove with rfl | ⟨front, rfl⟩
  · rfl
  · rw [List.append_assoc, List.singleton_append, List.splitOn_append_cons_self, List.count_append,
      List.count_singleton_self, ← length_splitOn, List.getElem?_append_right (Nat.le_refl _), Nat.sub_self]

/-- What is dropped at the end of a line is carriage returns, and all of them. -/
theorem exists_append_replicate (cs : List Char) :
    (∃ n, cs = dropReturns cs ++ List.replicate n '\r') ∧ (dropReturns cs).getLast? ≠ some '\r' := by
  constructor
  · refine ⟨(cs.rtakeWhile (· == '\r')).length, ?_⟩
    have hreturns : cs.rtakeWhile (· == '\r') = List.replicate (cs.rtakeWhile (· == '\r')).length '\r' :=
      List.eq_replicate_of_mem fun c hc => by simpa using List.mem_rtakeWhile_imp hc
    rw [← hreturns]
    exact List.rdropWhile_append_rtakeWhile.symm
  · have hlast := List.rdropWhile_last_not (· == '\r') cs
    change (cs.rdropWhile (· == '\r')).getLast? ≠ some '\r'
    rcases List.eq_nil_or_concat (cs.rdropWhile (· == '\r')) with hnil | ⟨front, c, hfront⟩
    · rw [hnil]
      exact nofun
    · rw [hfront] at hlast ⊢
      simpa using hlast

/-! ## The rows of a report -/

end Excerpt

/-- The rows of a report: the message, the place, and the quoted line between two margins, with carets below it. -/
def Diagnostic.rows (d : Diagnostic) (file : String) (line column : Nat) (quoted : List Char) (carets : Nat) :
    List String :=
  let blanks := Excerpt.run (toString line).length ' '
  [d.text,
    "  --> " ++ file ++ ":" ++ toString line ++ ":" ++ toString column,
    "  " ++ blanks ++ " |",
    "  " ++ toString line ++ " | " ++ String.ofList quoted,
    "  " ++ blanks ++ " | " ++ Excerpt.run (column - 1) ' ' ++ Excerpt.run carets '^'] ++
  (d.hint.map ("  = hint: " ++ ·)).toList

theorem Excerpt.render_eq_join_rows (e : Excerpt) (file : String) (d : Diagnostic) : e.render file d =
    String.join ((d.rows file e.line e.column e.text (e.caretCount d.span)).map (· ++ "\n")) := by
  apply String.toList_inj.mp
  unfold Excerpt.render Diagnostic.rows
  cases d.hint with
  | none => simp [toString]
  | some hint => simp [toString]

/-- A report begins with its message and its file, and goes on with the line and the column. -/
theorem Diagnostic.exists_join_rows (d : Diagnostic) (file : String) (line column : Nat) (quoted : List Char)
    (carets : Nat) :
    ∃ rest, (String.join ((d.rows file line column quoted carets).map (· ++ "\n"))).toList =
      (d.text ++ "\n  --> " ++ file ++ ":").toList ++
        ((toString line).toList ++ ':' :: ((toString column).toList ++ '\n' :: rest)) := by
  refine ⟨(String.join (((d.rows file line column quoted carets).drop 2).map (· ++ "\n"))).toList, ?_⟩
  simp [rows]

/-- Two numbers with a character that is no digit behind them. -/
theorem toString_append_inj {c : Char} (hc : c.isDigit = false) {m n : Nat} {xs ys : List Char}
    (h : (toString m).toList ++ c :: xs = (toString n).toList ++ c :: ys) : m = n ∧ xs = ys := by
  have hnone (k : Nat) : c ∉ (toString k).toList := by
    intro hmem
    have hdigit : c.isDigit = true := Nat.isDigit_of_mem_toDigits (by decide) (by decide) (Nat.toList_repr ▸ hmem)
    rw [hc] at hdigit
    cases hdigit
  have hpieces := congrArg (List.splitOn c) h
  rw [List.splitOn_append_cons_self_of_not_mem (hnone m), List.splitOn_append_cons_self_of_not_mem (hnone n)] at hpieces
  have hnumber : toString m = toString n := String.toList_inj.mp (List.cons.inj hpieces).1
  rw [hnumber] at h
  exact ⟨Nat.repr_inj.mp hnumber, (List.cons.inj (List.append_cancel_left h)).2⟩

/-- The line and the column of a report can be read in one way only. -/
theorem Diagnostic.rows_position_inj {d : Diagnostic} {file : String} {line column carets line' column' carets' : Nat}
    {quoted quoted' : List Char}
    (h : String.join ((d.rows file line column quoted carets).map (· ++ "\n")) =
      String.join ((d.rows file line' column' quoted' carets').map (· ++ "\n"))) :
    line = line' ∧ column = column' := by
  obtain ⟨rest, hrest⟩ := d.exists_join_rows file line column quoted carets
  obtain ⟨rest', hrest'⟩ := d.exists_join_rows file line' column' quoted' carets'
  rw [h, hrest'] at hrest
  obtain ⟨hline, hbehind⟩ := toString_append_inj rfl (List.append_cancel_left hrest)
  obtain ⟨hcolumn, -⟩ := toString_append_inj rfl hbehind
  exact ⟨hline.symm, hcolumn.symm⟩

/-! ## Reports on a text -/

theorem Text.eq_nil_of_byteLength_eq_zero {cs : List Char} (h : byteLength cs = 0) : cs = [] := by
  cases cs with
  | nil => rfl
  | cons c cs =>
    have hpos := c.utf8Size_pos
    rw [Text.byteLength_cons] at h
    omega

/-- An offset past the end cuts at the end. -/
theorem Text.splitAtByte?_of_le {n : Nat} {cs : List Char} (h : byteLength cs ≤ n) : splitAtByte? n cs = some (cs, []) := by
  induction cs generalizing n with
  | nil => cases n <;> rfl
  | cons c cs ih =>
    have hpos := c.utf8Size_pos
    rw [Text.byteLength_cons] at h
    obtain ⟨m, rfl⟩ : ∃ m, n = m + 1 := ⟨n - 1, by omega⟩
    rw [splitAtByte?, if_pos (by omega), ih (by omega)]
    rfl

theorem Text.splitAtByte?_eq_some_iff {n : Nat} {cs before after : List Char} :
    splitAtByte? n cs = some (before, after) ↔ cs = before ++ after ∧ byteLength before = min n (byteLength cs) := by
  constructor
  · intro h
    exact ⟨(Text.splitAtByte?_append h).symm, Text.splitAtByte?_byteLength h⟩
  · rintro ⟨rfl, hlength⟩
    rw [Text.byteLength_append] at hlength
    by_cases hn : n ≤ byteLength before + byteLength after
    · rw [Nat.min_eq_left hn] at hlength
      rw [← hlength, Text.splitAtByte?_append_right]
    · have hafter : after = [] := Text.eq_nil_of_byteLength_eq_zero (by omega)
      subst hafter
      rw [List.append_nil, Text.splitAtByte?_of_le (by omega)]

/-- Of two texts that begin another one, the one with no more bytes begins the other. -/
theorem Text.exists_append_of_byteLength_le {source before after before' after' : List Char}
    (h : source = before ++ after) (h' : source = before' ++ after') (hle : byteLength before ≤ byteLength before') :
    ∃ more, before' = before ++ more := by
  have hbefore : before <+: source := ⟨after, h.symm⟩
  have hbefore' : before' <+: source := ⟨after', h'.symm⟩
  rcases List.prefix_or_prefix_of_prefix hbefore hbefore' with ⟨more, hmore⟩ | ⟨more, rfl⟩
  · exact ⟨more, hmore.symm⟩
  · rw [Text.byteLength_append] at hle
    obtain rfl := Text.eq_nil_of_byteLength_eq_zero (by omega : byteLength more = 0)
    exact ⟨[], by simp⟩

/-- Of two places in a text the later one is told by its line and column. -/
theorem Excerpt.Behind.lt_iff {source before after before' after' : List Char} {line column line' column' : Nat}
    (h : Behind before line column) (h' : Behind before' line' column') (hsource : source = before ++ after)
    (hsource' : source = before' ++ after') :
    byteLength before < byteLength before' ↔ line < line' ∨ line = line' ∧ column < column' := by
  constructor
  · intro hlt
    obtain ⟨more, rfl⟩ := Text.exists_append_of_byteLength_le hsource hsource' (Nat.le_of_lt hlt)
    have hmore : 0 < more.length := by
      rw [List.length_pos_iff]
      rintro rfl
      rw [List.append_nil] at hlt
      exact absurd hlt (Nat.lt_irrefl _)
    have hfurther := h.append h'
    omega
  · intro hlater
    by_contra hge
    obtain ⟨more, rfl⟩ := Text.exists_append_of_byteLength_le hsource' hsource (Nat.not_lt.mp hge)
    have hback := h'.append h
    omega

/-- An excerpt is taken exactly at places; one past the end is taken at the end. -/
theorem Excerpt.at?_eq_some_iff {source : List Char} {offset : Nat} {e : Excerpt} : Excerpt.at? source offset = some e ↔
    ∃ before after, source = before ++ after ∧ byteLength before = min offset (byteLength source) ∧
      e = ⟨before.count '\n' + 1, (lastLine before).length + 1,
        dropReturns (lastLine before ++ after.takeWhile (· != '\n'))⟩ := by
  simp only [at?, Option.map_eq_some_iff, Prod.exists, Text.splitAtByte?_eq_some_iff]
  constructor
  · rintro ⟨before, after, ⟨hsource, hlength⟩, rfl⟩
    exact ⟨before, after, hsource, hlength, rfl⟩
  · rintro ⟨before, after, hsource, hlength, rfl⟩
    exact ⟨before, after, ⟨hsource, hlength⟩, rfl⟩

namespace Diagnostic

theorem render?_eq_some_iff {d : Diagnostic} {file source text : String} : d.render? file source = some text ↔
    ∃ e, Excerpt.at? source.toList d.span.start = some e ∧
      String.join ((d.rows file e.line e.column e.text (e.caretCount d.span)).map (· ++ "\n")) = text := by
  simp only [render?, Option.map_eq_some_iff, Excerpt.render_eq_join_rows]

/-- The line and the column that a report gives are those of the place where it starts. -/
theorem exists_behind_of_render? {d : Diagnostic} {file source : String} {line column carets : Nat}
    {quoted : List Char}
    (h : d.render? file source = some (String.join ((d.rows file line column quoted carets).map (· ++ "\n")))) :
    ∃ before after, source.toList = before ++ after ∧
      byteLength before = min d.span.start (byteLength source.toList) ∧ Excerpt.Behind before line column := by
  obtain ⟨e, he, htext⟩ := render?_eq_some_iff.mp h
  obtain ⟨before, after, hsource, hlength, rfl⟩ := Excerpt.at?_eq_some_iff.mp he
  obtain ⟨rfl, rfl⟩ := rows_position_inj htext
  exact ⟨before, after, hsource, hlength, Excerpt.behind_iff.mpr ⟨rfl, rfl⟩⟩

/-- What a report on a text gives away about the place behind `before`, at which it starts: its line and column, the
line around it without the carriage returns at its end, and the first caret below the column. No other place has the
same line and column, since later places have later ones. -/
structure Pinpoints (d : Diagnostic) (file source : String) (before : List Char) (line column : Nat)
    (quoted : List Char) (carets : Nat) : Prop where
  render?_eq : d.render? file source = some (String.join ((d.rows file line column quoted carets).map (· ++ "\n")))
  carets_pos : 0 < carets
  behind : Excerpt.Behind before line column
  getElem?_line : ∃ n, (source.toList.splitOn '\n')[line - 1]? = some (quoted ++ List.replicate n '\r')
  getLast?_quoted : quoted.getLast? ≠ some '\r'
  lt_iff : ∀ (d' : Diagnostic) (line' column' : Nat) (quoted' : List Char) (carets' : Nat),
    d.span.start ≤ byteLength source.toList → d'.span.start ≤ byteLength source.toList →
    d'.render? file source = some (String.join ((d'.rows file line' column' quoted' carets').map (· ++ "\n"))) →
    (d.span.start < d'.span.start ↔ line < line' ∨ line = line' ∧ column < column')

/-- Every report that starts between two characters of a text, or at its end or past it, pinpoints where it starts. -/
theorem render?_pinpoints {d : Diagnostic} {source : String} {before after : List Char} (file : String)
    (hsource : source.toList = before ++ after)
    (hstart : byteLength before = min d.span.start (byteLength source.toList)) :
    ∃ line column quoted carets, d.Pinpoints file source before line column quoted carets := by
  have he := Excerpt.at?_eq_some_iff.mpr ⟨before, after, hsource, hstart, rfl⟩
  have hbehind : Excerpt.Behind before (before.count '\n' + 1) ((Excerpt.lastLine before).length + 1) :=
    Excerpt.behind_iff.mpr ⟨rfl, rfl⟩
  obtain ⟨⟨n, hreturns⟩, hlast⟩ :=
    Excerpt.exists_append_replicate (Excerpt.lastLine before ++ after.takeWhile (· != '\n'))
  refine ⟨_, _, _, _, render?_eq_some_iff.mpr ⟨_, he, rfl⟩, Nat.le_max_left 1 _, hbehind, ⟨n, ?_⟩, hlast, ?_⟩
  · rw [hsource, Nat.add_sub_cancel, Excerpt.getElem?_splitOn, ← hreturns]
  · intro d' line' column' quoted' carets' hle hle' hrender
    obtain ⟨before', after', hsource', hstart', hbehind'⟩ := exists_behind_of_render? hrender
    rw [Nat.min_eq_left hle] at hstart
    rw [Nat.min_eq_left hle'] at hstart'
    rw [← hstart, ← hstart']
    exact hbehind.lt_iff hbehind' hsource hsource'

/-- A report that starts behind a letter of two bytes, on a line that ends with a carriage return. -/
def onSecondLine : Diagnostic := Fault.strayBrace.report ⟨8, 9⟩

example : onSecondLine.render? "A.cs" "class\n\u00e9\x7d\r\n" =
    some "syntax error: unexpected '\x7d'\n  --> A.cs:2:2\n    |\n  2 | \u00e9\x7d\n    |  ^\n" := by decide +kernel

theorem render?_pinpoints_onSecondLine : ∃ before after, "class\n\u00e9\x7d\r\n".toList = before ++ after ∧
    byteLength before = min onSecondLine.span.start (byteLength "class\n\u00e9\x7d\r\n".toList) ∧
    ∃ line column quoted carets,
      onSecondLine.Pinpoints "A.cs" "class\n\u00e9\x7d\r\n" before line column quoted carets := by
  have hsource : "class\n\u00e9\x7d\r\n".toList = "class\n\u00e9".toList ++ "\x7d\r\n".toList := by decide
  have hstart : byteLength "class\n\u00e9".toList =
      min onSecondLine.span.start (byteLength "class\n\u00e9\x7d\r\n".toList) := by decide
  exact ⟨_, _, hsource, hstart, render?_pinpoints "A.cs" hsource hstart⟩

end Diagnostic

end TestScaffold
