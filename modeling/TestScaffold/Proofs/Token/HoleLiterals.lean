import TestScaffold.Proofs.Token.Tiling

/-!
# Strings in the holes of strings

Code in a hole may hold strings again. The scanner recognises them there by the one sign in front of their quote: of
several signs, it passes over all but the last. A string with signs of one kind therefore ends in a hole where it ends
on its own. A string that is both verbatim and interpolated is taken for one that is only the one or the other, as its
last sign says, and may end elsewhere.

Results:
* `isString_iff`: which texts are one string, told by what the scanner closes.
* `closes_hole_iff`: in a hole, only the last sign of a string counts.
* `isString_inHole`: when a string stays one string in a hole.
* `not_isString_inHole_mixed`: with signs of both kinds it may not.
-/

namespace TestScaffold

open Text (byteLength)
open Literal (Closes Mode MayFollow closes_cons_iff closes_nil_iff closes_opening_iff)

/-! ## Texts that are one string -/

/-- The text is one string, from its first to its last character. -/
def IsString (source : String) : Prop :=
  lex source = .ok [⟨.literal .string, ⟨0, byteLength source.toList⟩⟩, Token.endOf source.toList]

/-- The text is made of signs and what they open, which is closed at the end. -/
theorem isString_iff {source : String} : IsString source ↔ ∃ signs verbatim interpolated cs,
    source.toList = signs ++ '"' :: cs ∧ StringSigns signs verbatim interpolated ∧
      Closes [.opening verbatim interpolated] ('"' :: cs) [] := by
  constructor
  · intro h
    obtain ⟨ls, w, rest, hcovers, hcut⟩ := exists_cuts_of_lex h (List.mem_cons_self ..) (by simp)
    have hwhole : (⟨0, byteLength source.toList⟩ : Span).Covers source.toList source.toList :=
      ⟨[], [], by simp, by simp⟩
    obtain rfl := hcovers.unique hwhole
    obtain ⟨signs, verbatim, interpolated, cs, hw, hs, hclosed⟩ := hcut.exists_string
    exact ⟨signs, verbatim, interpolated, cs, hw, hs, hclosed.in_front_of (.inr (by simp))⟩
  · rintro ⟨signs, verbatim, interpolated, cs, hsource, hs, hclosed⟩
    have htiled : Tiled true [.token (.literal .string) source.toList] := by
      rw [hsource]
      exact .token (.string hs hclosed) .nil
    have hmark : source.toList.head? ≠ some '\ufeff' := by
      rw [hsource]
      cases hs <;> simp [List.replicate_succ]
    have hlex := lex_of_tiled htiled (by simpa [Tile.text] using hmark)
    simpa [IsString, Token.endOf, Tile.text, Tile.stream, Tile.tokens] using hlex

/-! ## The signs of a string in a hole -/

/-- The only part of an interpolated string is a hole with the text in it. -/
def inHole (source : String) : String := String.ofList ('$' :: '"' :: '{' :: (source.toList ++ ['}', '"']))

/-- Signs of both kinds stand in front of the first quote. -/
def MixedSigns (source : String) : Prop := '@' ∈ signsOf source.toList ∧ '$' ∈ signsOf source.toList

/-- The text without all but the last of its signs. -/
def lastSignOnly (source : String) : String :=
  String.ofList ((signsOf source.toList).getLast?.toList ++ source.toList.dropWhile (· ≠ '"'))

variable {signs cs text rest : List Char} {verbatim interpolated : Bool} {ms : List Mode} {source : String}

/-- Signs of one kind say what the last of them says. -/
theorem StringSigns.eq_last (h : StringSigns signs verbatim interpolated) (hone : ¬ ('@' ∈ signs ∧ '$' ∈ signs)) :
    verbatim = (signs.getLast? == some '@') ∧ interpolated = (signs.getLast? == some '$') := by
  cases h with
  | dollars n => simp [List.replicate_succ']
  | _ => simp_all

/-- In a hole, only the last sign of a string counts. -/
theorem closes_hole_iff (hsigns : ∀ c ∈ signs, c = '@' ∨ c = '$') : Closes (.hole :: ms) (signs ++ '"' :: text) rest ↔
    Closes (.opening (signs.getLast? == some '@') (signs.getLast? == some '$') :: .hole :: ms) ('"' :: text) rest := by
  induction signs with
  | nil =>
    rw [closes_opening_iff, List.nil_append, closes_cons_iff, Literal.stepModes_hole]
    simp
  | cons c signs ih =>
    have hmore := ih fun d hd => hsigns d (List.mem_cons_of_mem c hd)
    rw [List.cons_append, closes_cons_iff, Literal.stepModes_hole]
    cases signs with
    | nil => rcases hsigns c (List.mem_singleton_self c) with rfl | rfl <;> simp
    | cons d signs =>
      have hd : d ≠ '"' := by rcases hsigns d (by simp) with rfl | rfl <;> decide
      rw [List.getLast?_cons_cons, ← hmore]
      rcases hsigns c List.mem_cons_self with rfl | rfl <;> simp [hd]

/-! ## A string that is only a hole -/

/-- The text is the code of a hole, up to the end of the string with the hole. -/
theorem isString_inHole_iff (hsource : source.toList.head? ≠ some '{') :
    IsString (inHole source) ↔ Closes [.hole, .text false true] (source.toList ++ ['}', '"']) [] := by
  have hopen : Closes [.opening false true] ('"' :: '{' :: (source.toList ++ ['}', '"'])) [] ↔
      Closes [.hole, .text false true] (source.toList ++ ['}', '"']) [] := by
    have hquotes : Literal.quotes ('{' :: (source.toList ++ ['}', '"']) ++ []) = false := by
      simp [Literal.quotes_cons]
    have hhead : (source.toList ++ ['}', '"'] ++ []).head? ≠ some '{' := by
      cases h : source.toList <;> simp_all
    have hstep : Literal.stepModes (.text false true) '{' (source.toList ++ ['}', '"'] ++ []) =
        some [.hole, .text false true] := by
      rw [Literal.stepModes_text]
      simp only [Bool.not_true, Bool.false_eq_true, if_false, beq_iff_eq, if_neg hhead]
    rw [closes_opening_iff, hquotes]
    exact Literal.closes_cons_of_step hstep
  rw [← hopen, isString_iff]
  constructor
  · rintro ⟨signs, verbatim, interpolated, cs, hw, hs, hclosed⟩
    rw [inHole, String.toList_ofList] at hw
    cases hs with
    | dollars n =>
      cases n with
      | zero =>
        cases hw
        exact hclosed
      | succ n => simp [List.replicate_succ] at hw
    | dollarsFirst n => cases n <;> simp [List.replicate_succ] at hw
    | _ => simp at hw
  · intro hclosed
    exact ⟨['$'], false, true, _, String.toList_ofList, .dollars 0, hclosed⟩

theorem closes_end_of_hole : Closes [.hole, .text false true] ['}', '"'] [] := by
  simp [closes_cons_iff, closes_nil_iff, Literal.stepModes_hole, Literal.stepModes_text]

/-- A string ends in a hole where it ends on its own, if it begins as its last sign says. -/
theorem closes_string_in_hole (hs : StringSigns signs verbatim interpolated)
    (h : Closes [.opening verbatim interpolated] ('"' :: cs) [])
    (hone : ¬ ('@' ∈ signs ∧ '$' ∈ signs)) :
    Closes [.hole, .text false true] (signs ++ '"' :: cs ++ ['}', '"']) [] := by
  obtain ⟨hv, hi⟩ := hs.eq_last hone
  have hfront : Closes [.opening verbatim interpolated] ('"' :: cs) (['}', '"'] ++ []) :=
    h.in_front_of (.inr (by simp))
  have hall := hfront.append closes_end_of_hole
  rw [List.append_assoc, List.cons_append, closes_hole_iff hs.eq_or_eq, ← hv, ← hi]
  exact hall

/-- With signs of one kind, a string stays one string in a hole. With signs of both kinds it is read there as if it had
only the last of them. -/
theorem isString_inHole (h : IsString source) : (¬ MixedSigns source → IsString (inHole source)) ∧
    (MixedSigns source → (IsString (inHole source) ↔ IsString (inHole (lastSignOnly source)))) := by
  obtain ⟨signs, verbatim, interpolated, cs, hsource, hs, hclosed⟩ := isString_iff.mp h
  obtain ⟨hsigns, hbody⟩ := hs.signsOf_append cs
  rw [← hsource] at hsigns hbody
  have hlast : ∀ c ∈ signs.getLast?.toList, c = '@' ∨ c = '$' := by
    intro c hc
    exact hs.eq_or_eq c (List.mem_of_getLast? (by simpa using hc))
  have hhead (ss : List Char) (hss : ∀ c ∈ ss, c = '@' ∨ c = '$') : (ss ++ '"' :: cs).head? ≠ some '{' := by
    cases ss with
    | nil => simp
    | cons c ss => rcases hss c List.mem_cons_self with rfl | rfl <;> simp
  have hinHole : IsString (inHole source) ↔ Closes [.hole, .text false true] (signs ++ '"' :: cs ++ ['}', '"']) [] := by
    rw [isString_inHole_iff (hsource ▸ hhead signs hs.eq_or_eq), hsource]
  constructor
  · intro hone
    rw [MixedSigns, hsigns] at hone
    exact hinHole.mpr (closes_string_in_hole hs hclosed hone)
  · intro _
    have hshort : (lastSignOnly source).toList = signs.getLast?.toList ++ '"' :: cs := by
      rw [lastSignOnly, String.toList_ofList, hsigns, hbody]
    rw [hinHole, isString_inHole_iff (hshort ▸ hhead _ hlast), hshort, List.append_assoc, List.append_assoc,
      List.cons_append, closes_hole_iff hs.eq_or_eq, closes_hole_iff hlast]
    cases signs.getLast? <;> simp

/-- A verbatim string that holds a brace. -/
theorem isString_inHole_sample : IsString "@\"\x7b\"" ∧ IsString (inHole "@\"\x7b\"") := by
  have hscan : Literal.scan [⟨0, .opening true false⟩] 0 (['"', '{', '"'] ++ []) = .closed ⟨3, []⟩ := by decide
  have hclosed : Closes [.opening true false] ['"', '{', '"'] [] := Literal.closes_of_scan hscan rfl
  have hstring : IsString "@\"\x7b\"" := isString_iff.mpr ⟨['@'], true, false, ['{', '"'], rfl, .verbatim, hclosed⟩
  exact ⟨hstring, (isString_inHole hstring).1 (by simp [MixedSigns, signsOf])⟩

/-- A verbatim interpolated string whose hole holds a brace in quotes: in another hole, it ends at the first of these
quotes. -/
theorem not_isString_inHole_mixed : ¬ ∀ source, IsString source → IsString (inHole source) := by
  intro hall
  have hscan : Literal.scan [⟨0, .opening true true⟩] 0 (['"', '{', '"', '}', '"', '}', '"'] ++ []) =
      .closed ⟨7, []⟩ := by decide
  have hclosed : Closes [.opening true true] ['"', '{', '"', '}', '"', '}', '"'] [] :=
    Literal.closes_of_scan hscan rfl
  have hstring : IsString "$@\"\x7b\"\x7d\"\x7d\"" :=
    isString_iff.mpr ⟨['$', '@'], true, true, _, rfl, .dollarsFirst 0, hclosed⟩
  have hhole := (isString_inHole_iff (by decide)).mp (hall _ hstring)
  have hinner := hhole [⟨0, .hole⟩, ⟨0, .text false true⟩] rfl 0
  exact absurd hinner (by decide)

end TestScaffold
