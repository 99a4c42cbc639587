import TestScaffold.Text.Character

/-!
# Characters of names

What may stand inside a name is neither a blank nor one of the signs that begin something else, and a name never
begins with a digit. A word is therefore told from what stands around it by single characters. A dotted name is a row of
names joined with dots.

Results:
* `isIdentifierPart_of_isBlank`, `isIdentifierPart_of_mem_signs`: blanks and signs stand outside of names.
* `not_isDigit_of_isIdentifierStart`: a digit may go on with a name but not begin one.
* `IsIdentifier.isIdentifierPart`, `isIdentifier_append`: what a name is made of, and what may be put behind it.
* `isIdentifier_of_isLetters`: a word of plain letters is a name.
* `Dotted.append`, `Dotted.intercalate`: dotted names joined with dots are dotted names.
-/

namespace TestScaffold.Text

/-! ## Characters -/

/-- The code points of all blanks. -/
def blankPoints : List Nat := blankRanges.flatMap fun r => List.range' r.1 (r.2 - r.1 + 1)

theorem mem_blankPoints_of_isBlank {c : Char} (h : isBlank c = true) : c.toNat ∈ blankPoints := by
  obtain ⟨r, hr, hc⟩ := List.any_eq_true.mp h
  have hbounds : r.1 ≤ c.toNat ∧ c.toNat ≤ r.2 := by simpa using hc
  refine List.mem_flatMap.mpr ⟨r, hr, List.mem_range'_1.mpr ?_⟩
  omega

theorem isIdentifierPart_of_mem_blankPoints :
    ∀ n ∈ blankPoints, isIdentifierPart (Char.ofNat n) = false := by decide +kernel

/-- No blank may stand inside a name. -/
theorem isIdentifierPart_of_isBlank {c : Char} (h : isBlank c = true) : isIdentifierPart c = false := by
  have hpart := isIdentifierPart_of_mem_blankPoints c.toNat (mem_blankPoints_of_isBlank h)
  rwa [Char.ofNat_toNat] at hpart

theorem isBlank_of_isIdentifierPart {c : Char} (h : isIdentifierPart c = true) : isBlank c = false := by
  cases hb : isBlank c with
  | false => rfl
  | true =>
    rw [isIdentifierPart_of_isBlank hb] at h
    cases h

/-- The signs that begin a comment, a directive, a literal or an arrow, and the marks that are written with one
character. -/
def signs : List Char :=
  ['#', '/', '"', '\'', '@', '$', '=', '\\', '\n', ',', ':', ';', '.', '~', '?', '(', ')', '[', ']', '\x7b', '\x7d',
    '<', '>']

/-- No sign may stand inside a name. -/
theorem isIdentifierPart_of_mem_signs {c : Char} (h : c ∈ signs) : isIdentifierPart c = false := by
  have hall : signs.all (fun d => !isIdentifierPart d) = true := by decide +kernel
  simpa using List.all_eq_true.mp hall c h

theorem ne_of_isIdentifierPart {c d : Char} (h : isIdentifierPart c = true) (hd : d ∈ signs) : c ≠ d := by
  rintro rfl
  rw [isIdentifierPart_of_mem_signs hd] at h
  cases h

theorem isIdentifierStart_of_mem_digits :
    ∀ n ∈ List.range' 48 10, isIdentifierStart (Char.ofNat n) = false := by decide +kernel

theorem mem_digits_of_isDigit {c : Char} (h : c.isDigit = true) : c.toNat ∈ List.range' 48 10 := by
  simp only [Char.isDigit, Bool.and_eq_true, decide_eq_true_eq, ge_iff_le, UInt32.le_iff_toNat_le] at h
  have hrange : 48 ≤ c.toNat ∧ c.toNat ≤ 57 := h
  exact List.mem_range'_1.mpr (by omega)

/-- A name does not begin with a digit. -/
theorem not_isDigit_of_isIdentifierStart {c : Char} (h : isIdentifierStart c = true) : c.isDigit = false := by
  cases hd : c.isDigit with
  | false => rfl
  | true =>
    have hstart := isIdentifierStart_of_mem_digits c.toNat (mem_digits_of_isDigit hd)
    rw [Char.ofNat_toNat, h] at hstart
    cases hstart

/-- A digit may stand inside a name. -/
theorem isIdentifierPart_of_isDigit {c : Char} (h : c.isDigit = true) : isIdentifierPart c = true := by
  have hpart : ∀ n ∈ List.range' 48 10, isIdentifierPart (Char.ofNat n) = true := by decide +kernel
  have hdigit := hpart c.toNat (mem_digits_of_isDigit h)
  rwa [Char.ofNat_toNat] at hdigit

/-! ## Whole names -/

theorem isIdentifier_cons {c : Char} {cs : List Char} :
    IsIdentifier (c :: cs) ↔ isIdentifierStart c = true ∧ ∀ d ∈ cs, isIdentifierPart d = true := by
  constructor
  · rintro ⟨d, ds, heq, hd, hds⟩
    cases heq
    exact ⟨hd, hds⟩
  · rintro ⟨hc, hcs⟩
    exact ⟨c, cs, rfl, hc, hcs⟩

instance IsIdentifier.decidable : (name : List Char) → Decidable (IsIdentifier name)
  | [] => .isFalse fun ⟨_, _, h, _⟩ => nomatch h
  | c :: cs => decidable_of_iff ((isIdentifierStart c && cs.all isIdentifierPart) = true) (by
      rw [isIdentifier_cons, Bool.and_eq_true, List.all_eq_true])

/-- Whether a word is made of plain letters. -/
def isLetters (w : List Char) : Bool := !w.isEmpty && w.all fun c => c.toNat < 128 && c.isAlpha

/-- A word of plain letters is a name. -/
theorem isIdentifier_of_isLetters {w : List Char} (h : isLetters w = true) : IsIdentifier w := by
  rw [isLetters, Bool.and_eq_true, List.all_eq_true] at h
  obtain ⟨hne, hletters⟩ := h
  have hstart : ∀ c ∈ w, isIdentifierStart c = true := by
    intro c hc
    obtain ⟨hascii, halpha⟩ : c.toNat < 128 ∧ c.isAlpha = true := by simpa using hletters c hc
    rw [isIdentifierStart, isAlphabetic_ascii hascii, halpha]
    rfl
  cases w with
  | nil => cases hne
  | cons c cs =>
    refine isIdentifier_cons.mpr ⟨hstart c List.mem_cons_self, fun d hd => ?_⟩
    exact isIdentifierPart_of_start (hstart d (List.mem_cons_of_mem c hd))

theorem IsIdentifier.isIdentifierPart {w : List Char} (h : IsIdentifier w) :
    ∀ c ∈ w, isIdentifierPart c = true := by
  obtain ⟨c, cs, rfl, hc, hcs⟩ := h
  intro d hd
  rcases List.mem_cons.mp hd with rfl | hd
  · exact isIdentifierPart_of_start hc
  · exact hcs d hd

theorem isIdentifier_append {w v : List Char} (hw : IsIdentifier w) (hv : ∀ c ∈ v, isIdentifierPart c = true) :
    IsIdentifier (w ++ v) := by
  obtain ⟨c, cs, rfl, hc, hcs⟩ := hw
  refine ⟨c, cs ++ v, List.cons_append, hc, ?_⟩
  intro d hd
  rcases List.mem_append.mp hd with hd | hd
  · exact hcs d hd
  · exact hv d hd

end TestScaffold.Text

namespace TestScaffold

/-! ## Dotted names -/

/-- Names joined with dots. -/
def Dotted (isName : String → Prop) (s : String) : Prop :=
  ∃ names, names ≠ [] ∧ s = ".".intercalate names ∧ ∀ n ∈ names, isName n

namespace Dotted

variable {isName : String → Prop}

theorem of_name {n : String} (hn : isName n) : Dotted isName n := ⟨[n], by simp, rfl, by simpa using hn⟩

theorem append {s t : String} (h : Dotted isName s) (k : Dotted isName t) : Dotted isName (s ++ "." ++ t) := by
  obtain ⟨names, hne, rfl, hall⟩ := h
  obtain ⟨names', hne', rfl, hall'⟩ := k
  refine ⟨names ++ names', by simp [hne], (String.intercalate_append_of_ne_nil hne hne').symm, ?_⟩
  intro n hn
  rcases List.mem_append.mp hn with hn | hn
  · exact hall n hn
  · exact hall' n hn

/-- Dotted names joined with dots are a dotted name. -/
theorem intercalate {names : List String} (hne : names ≠ []) (h : ∀ s ∈ names, Dotted isName s) :
    Dotted isName (".".intercalate names) := by
  induction names with
  | nil => exact absurd rfl hne
  | cons s names ih =>
    have hs := h s List.mem_cons_self
    by_cases hmore : names = []
    · rw [hmore]
      exact hs
    · rw [String.intercalate_cons_of_ne_nil hmore]
      exact hs.append (ih hmore fun t ht => h t (List.mem_cons_of_mem s ht))

end Dotted

end TestScaffold
