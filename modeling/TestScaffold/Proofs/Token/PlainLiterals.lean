import TestScaffold.Proofs.Token.Tiling

/-!
# Literals without holes

Literals that are not interpolated have a plain grammar: quotes around escapes and other characters, quotes around
doubled quotes and other characters, or rows of quotes around anything that holds no such row. The scanner ends these
literals where the grammar does, and takes nothing else for one.

Results:
* `PlainLiteral`: the grammar.
* `PlainLiteral.cuts`: what has this form is cut off as one token, in front of anything but a quote.
* `plainLiteral_of_cuts_char`, `plainLiteral_of_cuts_string`: what is cut off as a literal has this form, if no dollar
  sign stands in front of its first quote.
* `plainLiterals_of_lex`: both for whole texts.
-/

namespace TestScaffold

open Text (byteLength)

/-! ## The grammar -/

/-- What may stand between two quotes `q`: escapes, in which any character may follow the backslash, and other
characters than the quote, the backslash and the line break. -/
inductive QuotedText (q : Char) : List Char → Prop
  | nil : QuotedText q []
  | escape (c : Char) {w : List Char} (rest : QuotedText q w) : QuotedText q ('\\' :: c :: w)
  | plain {c : Char} {w : List Char} (hc : c ≠ '\\' ∧ c ≠ q ∧ c ≠ '\n') (rest : QuotedText q w) :
    QuotedText q (c :: w)

/-- What may stand in a verbatim string: doubled quotes, and other characters than quotes. -/
inductive VerbatimText : List Char → Prop
  | nil : VerbatimText []
  | quote {w : List Char} (rest : VerbatimText w) : VerbatimText ('"' :: '"' :: w)
  | plain {c : Char} {w : List Char} (hc : c ≠ '"') (rest : VerbatimText w) : VerbatimText (c :: w)

/-- A row of quotes. -/
def quoteRow (n : Nat) : List Char := List.replicate n '"'

/-- What may stand between rows of `n` quotes. -/
structure RawText (n : Nat) (w : List Char) : Prop where
  ne_nil : w ≠ []
  head?_ne : w.head? ≠ some '"'
  getLast?_ne : w.getLast? ≠ some '"'
  no_row : ¬ quoteRow n <:+: w

/-- The literals without holes. -/
inductive PlainLiteral : LiteralKind → List Char → Prop
  | regular {w : List Char} (hw : QuotedText '"' w) : PlainLiteral .string ('"' :: (w ++ ['"']))
  | char {w : List Char} (hw : QuotedText '\'' w) : PlainLiteral .char ('\'' :: (w ++ ['\'']))
  | verbatim {w : List Char} (hw : VerbatimText w) : PlainLiteral .string ('@' :: '"' :: (w ++ ['"']))
  | raw {n m : Nat} {w : List Char} (hn : 3 ≤ n) (hm : n ≤ m) (hw : RawText n w) :
    PlainLiteral .string (quoteRow n ++ w ++ quoteRow m)

/-- The signs in front of the first quote hold no dollar sign. -/
def WithoutDollar (w : List Char) : Prop := '$' ∉ signsOf w

namespace Literal

/-! ## Escapes and other characters -/

/-- The modes that read the text between two quotes `q`. -/
inductive Quotes : Char → Mode → Prop
  | string : Quotes '"' (.text false false)
  | char : Quotes '\'' .charText

/-- Both modes go on with an escape, end at their quote and break off at a line break. -/
theorem Quotes.stepModes_eq {q : Char} {m : Mode} (h : Quotes q m) : ∃ kind, ∀ c next,
    stepModes m c next = if c = '\\' then some [.escaped kind, m] else if c = q then some []
      else if c = '\n' then none else some [m] := by
  cases h with
  | string =>
    refine ⟨.string, fun c next => ?_⟩
    rw [stepModes_text]
    split <;> simp_all
  | char =>
    refine ⟨.char, fun c next => ?_⟩
    rw [stepModes_charText]
    split <;> simp_all

/-- The ways in which the text between two quotes goes on. -/
theorem Quotes.closes_iff {q : Char} {m : Mode} (h : Quotes q m) {c : Char} {text rest : List Char} :
    Closes [m] (c :: text) rest ↔
      (c = '\\' ∧ ∃ d more, text = d :: more ∧ Closes [m] more rest) ∨ (c = q ∧ c ≠ '\\' ∧ text = []) ∨
        ((c ≠ '\\' ∧ c ≠ q ∧ c ≠ '\n') ∧ Closes [m] text rest) := by
  obtain ⟨kind, hstep⟩ := h.stepModes_eq
  rw [closes_cons_iff, hstep]
  by_cases hb : c = '\\'
  · simp [hb, closes_escaped_iff]
  · by_cases hq : c = q
    · subst hq
      cases text with
      | nil => simp [hb, closes_nil_iff]
      | cons d text => simp [hb, not_closes_nil_cons]
    · by_cases hn : c = '\n'
      · subst hn
        simp [hq]
      · simp [hb, hq, hn]

theorem Quotes.ne_backslash {q : Char} {m : Mode} (h : Quotes q m) : q ≠ '\\' := by
  cases h <;> decide

theorem closes_of_quotedText {q : Char} {m : Mode} (hm : Quotes q m) {w : List Char} (h : QuotedText q w)
    (rest : List Char) : Closes [m] (w ++ [q]) rest := by
  induction h with
  | nil => exact hm.closes_iff.mpr (.inr (.inl ⟨rfl, hm.ne_backslash, rfl⟩))
  | escape c _ ih => exact hm.closes_iff.mpr (.inl ⟨rfl, c, _, rfl, ih⟩)
  | plain hc _ ih => exact hm.closes_iff.mpr (.inr (.inr ⟨hc, ih⟩))

theorem quotedText_of_closes {q : Char} {m : Mode} (hm : Quotes q m) {w rest : List Char} (h : Closes [m] w rest) :
    ∃ v, w = v ++ [q] ∧ QuotedText q v := by
  -- An escape takes two characters at once, so the hypothesis is needed for any shorter text.
  induction hlength : w.length using Nat.strongRecOn generalizing w with
  | ind n ih =>
    cases w with
    | nil => cases h.eq_nil
    | cons c w =>
      rcases hm.closes_iff.mp h with ⟨rfl, d, more, rfl, hmore⟩ | ⟨rfl, -, rfl⟩ | ⟨hc, hmore⟩
      · obtain ⟨v, rfl, hv⟩ := ih more.length (by simp at hlength; omega) hmore rfl
        exact ⟨'\\' :: d :: v, rfl, .escape d hv⟩
      · exact ⟨[], rfl, .nil⟩
      · obtain ⟨v, rfl, hv⟩ := ih w.length (by simp at hlength; omega) hmore rfl
        exact ⟨c :: v, rfl, .plain hc hv⟩

/-! ## Doubled quotes -/

theorem stepModes_verbatim (c : Char) (next : List Char) : stepModes (.text true false) c next =
    if c ≠ '"' then some [.text true false]
    else if next.head? = some '"' then some [.escaped .string, .text true false] else some [] := by
  rw [stepModes_text]
  split <;> simp_all
  split <;> rfl

/-- The ways in which a verbatim string goes on. -/
theorem closes_verbatim_iff {c : Char} {text rest : List Char} :
    Closes [.text true false] (c :: text) rest ↔
      (c = '"' ∧ ∃ more, text = '"' :: more ∧ Closes [.text true false] more rest) ∨
        (c = '"' ∧ text = [] ∧ rest.head? ≠ some '"') ∨ (c ≠ '"' ∧ Closes [.text true false] text rest) := by
  rw [closes_cons_iff, stepModes_verbatim]
  by_cases hc : c = '"'
  · cases text with
    | nil => by_cases hr : rest.head? = some '"' <;> simp [hc, hr, closes_nil_iff]
    | cons d text =>
      by_cases hd : d = '"'
      · simp [hc, hd, closes_escaped_iff, and_assoc]
      · simp [hc, hd, not_closes_nil_cons]
  · simp [hc]

theorem closes_of_verbatimText {w rest : List Char} (h : VerbatimText w) (hr : rest.head? ≠ some '"') :
    Closes [.text true false] (w ++ ['"']) rest := by
  induction h with
  | nil => exact closes_verbatim_iff.mpr (.inr (.inl ⟨rfl, rfl, hr⟩))
  | quote _ ih => exact closes_verbatim_iff.mpr (.inl ⟨rfl, _, rfl, ih⟩)
  | plain hc _ ih => exact closes_verbatim_iff.mpr (.inr (.inr ⟨hc, ih⟩))

theorem verbatimText_of_closes {w rest : List Char} (h : Closes [.text true false] w rest) :
    ∃ v, w = v ++ ['"'] ∧ VerbatimText v := by
  -- As in front of an escape, two quotes are taken at once.
  induction hlength : w.length using Nat.strongRecOn generalizing w with
  | ind n ih =>
    cases w with
    | nil => cases h.eq_nil
    | cons c w =>
      rcases closes_verbatim_iff.mp h with ⟨rfl, more, rfl, hmore⟩ | ⟨rfl, rfl, -⟩ | ⟨hc, hmore⟩
      · obtain ⟨v, rfl, hv⟩ := ih more.length (by simp at hlength; omega) hmore rfl
        exact ⟨'"' :: '"' :: v, rfl, .quote hv⟩
      · exact ⟨[], rfl, .nil⟩
      · obtain ⟨v, rfl, hv⟩ := ih w.length (by simp at hlength; omega) hmore rfl
        exact ⟨c :: v, rfl, .plain hc hv⟩

/-! ## Rows of quotes -/

theorem quoteRow_zero : quoteRow 0 = [] := rfl

theorem quoteRow_succ (n : Nat) : quoteRow (n + 1) = '"' :: quoteRow n := rfl

theorem quoteRow_add (n k : Nat) : quoteRow (n + k) = quoteRow n ++ quoteRow k :=
  List.replicate_append_replicate.symm

theorem quoteRow_append_cons (n : Nat) (w : List Char) : quoteRow n ++ '"' :: w = quoteRow (n + 1) ++ w := by
  rw [quoteRow, quoteRow, List.replicate_succ', List.append_assoc, List.singleton_append]

/-- Another character cuts rows of quotes apart. -/
theorem not_quoteRow_infix {n run : Nat} (hrun : run < n) {c : Char} (hc : c ≠ '"') {w : List Char}
    (hw : ¬ quoteRow n <:+: w) : ¬ quoteRow n <:+: quoteRow run ++ c :: w := by
  have hsplit (k : Nat) (hk : k < n) : ¬ quoteRow n <+: quoteRow k ++ c :: w := by
    intro hpre
    obtain ⟨d, rfl⟩ := Nat.exists_eq_add_of_lt hk
    rw [Nat.add_assoc, quoteRow_add] at hpre
    have hfront := (List.prefix_append_right_inj _).mp hpre
    rw [quoteRow_succ, List.cons_prefix_cons] at hfront
    exact hc hfront.1.symm
  induction run with
  | zero =>
    rw [quoteRow_zero, List.nil_append, List.infix_cons_iff, not_or]
    exact ⟨hsplit 0 hrun, hw⟩
  | succ run ih =>
    have hfront := hsplit (run + 1) hrun
    rw [quoteRow_succ, List.cons_append] at hfront ⊢
    rw [List.infix_cons_iff, not_or]
    exact ⟨hfront, ih (by omega)⟩

/-- A row that is long enough closes a raw string where it ends. -/
theorem closes_quoteRow {n run k : Nat} (hk : 0 < k) (hn : n ≤ run + k) {rest : List Char}
    (hr : rest.head? ≠ some '"') : Closes [.rawText n run] (quoteRow k) rest := by
  induction k generalizing run with
  | zero => omega
  | succ k ih =>
    rw [quoteRow_succ, closes_cons_iff, stepModes_rawText, if_neg (by simp)]
    cases k with
    | zero =>
      rw [quoteRow_zero, List.nil_append, if_neg (not_or.mpr ⟨by omega, hr⟩)]
      exact ⟨[], rfl, closes_nil_iff.mpr rfl⟩
    | succ k =>
      rw [if_pos (.inr rfl)]
      exact ⟨_, rfl, ih (by omega) (by omega)⟩

/-- What holds no row that closes a raw string is passed over up to the row behind it. -/
theorem closes_of_rawText {n m run : Nat} (hn : 0 < n) (hm : n ≤ m) {w rest : List Char}
    (hw : ¬ quoteRow n <:+: quoteRow run ++ w) (hlast : w.getLast? ≠ some '"') (hrun : w = [] → run = 0)
    (hr : rest.head? ≠ some '"') : Closes [.rawText n run] (w ++ quoteRow m) rest := by
  induction w generalizing run with
  | nil =>
    obtain rfl := hrun rfl
    exact closes_quoteRow (by omega) (by omega) hr
  | cons c w ih =>
    rw [List.cons_append, closes_cons_iff, stepModes_rawText]
    by_cases hc : c = '"'
    · subst hc
      rw [quoteRow_append_cons] at hw
      have hshort : run + 1 < n := by
        refine Nat.lt_of_not_le fun hlong => hw (List.IsPrefix.isInfix ?_)
        obtain ⟨k, hk⟩ := Nat.exists_eq_add_of_le hlong
        rw [hk, quoteRow_add, List.append_assoc]
        exact List.prefix_append _ _
      have hne : w ≠ [] := by
        rintro rfl
        exact hlast rfl
      rw [if_neg (by simp), if_pos (.inl hshort)]
      refine ⟨_, rfl, ih hw ?_ (fun hnil => absurd hnil hne)⟩
      rwa [List.getLast?_cons_of_ne_nil hne] at hlast
    · rw [if_pos hc]
      refine ⟨_, rfl, ih (fun hrow => hw ?_) ?_ (fun _ => rfl)⟩
      · have hback : w <:+ quoteRow run ++ c :: w := (List.suffix_cons c w).trans (List.suffix_append _ _)
        exact hrow.trans hback.isInfix
      · cases w with
        | nil => simp
        | cons d w => simpa using hlast

/-- Behind `run` quotes, the text ends in a row of `n` of them or more, and holds none in front of it. -/
def EndsInRow (n run : Nat) (w : List Char) : Prop :=
  ∃ v m, w = v ++ quoteRow m ∧ v.getLast? ≠ some '"' ∧ (v = [] → n ≤ run + m) ∧
    (v ≠ [] → n ≤ m ∧ ¬ quoteRow n <:+: quoteRow run ++ v)

theorem EndsInRow.one {n run : Nat} (h : n ≤ run + 1) : EndsInRow n run ['"'] :=
  ⟨[], 1, rfl, by simp, fun _ => h, fun hne => absurd rfl hne⟩

theorem EndsInRow.quote {n run : Nat} {w : List Char} (h : EndsInRow n (run + 1) w) : EndsInRow n run ('"' :: w) := by
  obtain ⟨v, m, rfl, hlast, hnil, hcons⟩ := h
  by_cases hv : v = []
  · subst hv
    refine ⟨[], m + 1, rfl, by simp, fun _ => ?_, fun hne => absurd rfl hne⟩
    have hlong := hnil rfl
    omega
  · refine ⟨'"' :: v, m, rfl, ?_, fun hnil => absurd hnil (List.cons_ne_nil _ _), fun _ => ?_⟩
    · rwa [List.getLast?_cons_of_ne_nil hv]
    · rw [quoteRow_append_cons]
      exact hcons hv

theorem EndsInRow.other {n run : Nat} (hrun : run < n) {c : Char} (hc : c ≠ '"') {w : List Char}
    (h : EndsInRow n 0 w) : EndsInRow n run (c :: w) := by
  obtain ⟨v, m, rfl, hlast, hnil, hcons⟩ := h
  refine ⟨c :: v, m, rfl, ?_, fun hnil => absurd hnil (List.cons_ne_nil _ _), fun _ => ?_⟩
  · cases v with
    | nil => simpa using hc
    | cons d v => simpa using hlast
  · by_cases hv : v = []
    · subst hv
      have hm := hnil rfl
      refine ⟨by omega, not_quoteRow_infix hrun hc ?_⟩
      simp [quoteRow]
      omega
    · exact ⟨(hcons hv).1, not_quoteRow_infix hrun hc (hcons hv).2⟩

/-- A raw string ends in a row that is long enough, and none stands in front of it. -/
theorem rawText_of_closes {n run : Nat} {w rest : List Char} (h : Closes [.rawText n run] w rest)
    (hrun : run < n ∨ w.head? = some '"') : EndsInRow n run w := by
  induction w generalizing run with
  | nil => cases h.eq_nil
  | cons c w ih =>
    rw [closes_cons_iff, stepModes_rawText] at h
    obtain ⟨ns, hns, hmore⟩ := h
    by_cases hc : c = '"'
    · subst hc
      rw [if_neg (by simp)] at hns
      split at hns
      · next hgo =>
        cases hns
        refine .quote (ih hmore ?_)
        cases w with
        | nil => cases hmore.eq_nil
        | cons d w => exact hgo
      · next hstop =>
        cases hns
        obtain rfl : w = [] := by
          cases w with
          | nil => rfl
          | cons d w => exact absurd hmore (not_closes_nil_cons d w rest)
        have hlong := (not_or.mp hstop).1
        exact .one (by omega)
    · rw [if_pos hc] at hns
      cases hns
      have hshort : run < n := by simpa [hc] using hrun
      exact .other hshort hc (ih hmore (.inl (by omega)))

/-- The quotes that open a raw string go up to the first other character. -/
theorem closes_rawOpening_iff {n : Nat} {w rest : List Char} : Closes [.rawOpening n] w rest ↔
    ∃ k c v, w = quoteRow k ++ c :: v ∧ c ≠ '"' ∧ Closes [.rawText (n + k) 0] v rest := by
  constructor
  · intro h
    induction w generalizing n with
    | nil => cases h.eq_nil
    | cons c w ih =>
      rw [closes_cons_iff, stepModes_rawOpening] at h
      obtain ⟨ns, hns, hmore⟩ := h
      cases hns
      by_cases hc : c = '"'
      · rw [if_pos hc] at hmore
        obtain ⟨k, d, v, rfl, hd, hv⟩ := ih hmore
        exact ⟨k + 1, d, v, by rw [hc, quoteRow_succ, List.cons_append], hd, by rwa [Nat.add_right_comm] at hv⟩
      · rw [if_neg hc] at hmore
        exact ⟨0, c, w, rfl, hc, hmore⟩
  · rintro ⟨k, c, v, rfl, hc, hv⟩
    induction k generalizing n with
    | zero =>
      refine closes_cons_iff.mpr ⟨_, stepModes_rawOpening, ?_⟩
      rwa [if_neg hc]
    | succ k ih =>
      rw [quoteRow_succ, List.cons_append]
      refine closes_cons_iff.mpr ⟨_, stepModes_rawOpening, ?_⟩
      rw [if_pos rfl]
      exact ih (by rwa [Nat.add_right_comm])

/-! ## From the opening quote on -/

/-- A quote without two more behind it opens a regular string. -/
theorem closes_regular {w rest : List Char} (hw : QuotedText '"' w) (hr : rest.head? ≠ some '"') :
    Closes [.opening false false] ('"' :: (w ++ ['"'])) rest := by
  have hquotes : quotes (w ++ ['"'] ++ rest) = false := by
    cases hw with
    | nil => simp [quotes_cons, hr]
    | escape c _ => simp [quotes_cons]
    | plain hc _ => simp [quotes_cons, hc.2.1]
  rw [closes_opening_iff, hquotes]
  exact closes_of_quotedText .string hw rest

/-- Three quotes or more open a raw string. -/
theorem closes_raw {n m : Nat} (hn : 3 ≤ n) (hm : n ≤ m) {w rest : List Char} (hw : RawText n w)
    (hr : rest.head? ≠ some '"') : Closes [.opening false false] (quoteRow n ++ w ++ quoteRow m) rest := by
  obtain ⟨hne, hfirst, hlast, hrow⟩ := hw
  cases w with
  | nil => exact absurd rfl hne
  | cons c w =>
    obtain ⟨k, rfl⟩ := Nat.exists_eq_add_of_le' hn
    have hquotes : quotes (quoteRow (k + 2) ++ c :: w ++ quoteRow m ++ rest) = true := rfl
    have hmore : ¬ quoteRow (k + 3) <:+: quoteRow 0 ++ w := fun h => hrow (h.trans (List.suffix_cons c w).isInfix)
    have hlast : w.getLast? ≠ some '"' := by
      cases w with
      | nil => simp
      | cons d w => simpa using hlast
    have hbody := closes_of_rawText (Nat.succ_pos (k + 2)) hm hmore hlast (fun _ => rfl) hr
    have hsum : k + 3 = 1 + (k + 2) := by omega
    rw [quoteRow_succ, List.cons_append, List.cons_append, closes_opening_iff, hquotes]
    refine closes_rawOpening_iff.mpr ⟨k + 2, c, w ++ quoteRow m, by simp, by simpa using hfirst, ?_⟩
    rwa [← hsum]

/-- What closes a string without signs is regular or raw. -/
theorem plainLiteral_of_closes {w rest : List Char} (h : Closes [.opening false false] ('"' :: w) rest) :
    PlainLiteral .string ('"' :: w) := by
  rw [closes_opening_iff] at h
  by_cases hquotes : quotes (w ++ rest) = true
  · rw [hquotes] at h
    obtain ⟨k, c, v, rfl, hc, hv⟩ := closes_rawOpening_iff.mp h
    have hk : 2 ≤ k := by
      rcases k with _ | _ | k
      · simp [quoteRow, quotes_cons, hc] at hquotes
      · simp [quoteRow, quotes_cons, hc] at hquotes
      · omega
    obtain ⟨u, m, rfl, hlast, hnil, hcons⟩ := rawText_of_closes hv (.inl (by omega))
    have hm : 1 + k ≤ m := by
      by_cases hu : u = []
      · simpa using hnil hu
      · exact (hcons hu).1
    have hrow : ¬ quoteRow (1 + k) <:+: u := by
      by_cases hu : u = []
      · subst hu
        simp [quoteRow]
      · exact (hcons hu).2
    have hrow : ¬ quoteRow (1 + k) <:+: quoteRow 0 ++ c :: u := not_quoteRow_infix (by omega) hc hrow
    have hcontent : RawText (1 + k) (c :: u) := by
      refine ⟨by simp, by simpa using hc, ?_, hrow⟩
      cases u with
      | nil => simpa using hc
      | cons d u => simpa using hlast
    have hliteral := PlainLiteral.raw (by omega) hm hcontent
    rwa [Nat.add_comm, quoteRow_succ, List.append_assoc, List.cons_append, List.cons_append] at hliteral
  · rw [Bool.not_eq_true] at hquotes
    rw [hquotes] at h
    obtain ⟨v, rfl, hv⟩ := quotedText_of_closes .string h
    exact .regular hv

end Literal

/-! ## Tokens -/

open Literal

variable {ls : Bool} {kind : LiteralKind} {w rest : List Char}

/-- A literal without holes is cut off as one token. -/
theorem PlainLiteral.cuts (h : PlainLiteral kind w) (hr : rest.head? ≠ some '"') : Cuts ls (.literal kind) w rest := by
  cases h with
  | regular hw => exact .string .plain (closes_regular hw hr)
  | char hw => exact .char (closes_of_quotedText .char hw rest)
  | verbatim hw =>
    have hclosed : Closes [.opening true false] ('"' :: (_ ++ ['"'])) rest :=
      closes_opening_iff.mpr (closes_of_verbatimText hw hr)
    exact .string .verbatim hclosed
  | raw hn hm hw =>
    obtain ⟨k, rfl⟩ := Nat.exists_eq_add_of_le' hn
    exact .string .plain (closes_raw hn hm hw hr)

/-- What is cut off as a character literal has the form of one. -/
theorem plainLiteral_of_cuts_char (h : Cuts ls (.literal .char) w rest) : PlainLiteral .char w := by
  obtain ⟨cs, rfl, hclosed⟩ := h.exists_char
  obtain ⟨v, rfl, hv⟩ := quotedText_of_closes .char hclosed
  exact .char hv

/-- What is cut off as a string without a dollar sign has the form of one. -/
theorem plainLiteral_of_cuts_string (h : Cuts ls (.literal .string) w rest) (hw : WithoutDollar w) :
    PlainLiteral .string w := by
  obtain ⟨signs, verbatim, interpolated, cs, rfl, hs, hclosed⟩ := h.exists_string
  cases hs with
  | plain => exact plainLiteral_of_closes hclosed
  | verbatim =>
    obtain ⟨v, rfl, hv⟩ := verbatimText_of_closes (closes_opening_iff.mp hclosed)
    exact .verbatim hv
  | _ => simp [WithoutDollar, signsOf, List.replicate_succ] at hw

/-! ## Whole texts -/

theorem PlainLiteral.head?_ne (h : PlainLiteral kind w) {c : Char} (hc : c ∉ ['"', '\'', '@']) :
    w.head? ≠ some c := by
  cases h with
  | @raw n m w hn hm hw =>
    obtain ⟨k, rfl⟩ := Nat.exists_eq_add_of_le' hn
    rw [quoteRow_succ]
    simp_all [eq_comm]
  | _ => simp_all [eq_comm]

/-- The literals without holes are scanned to exactly their grammar: at the front of a text each of them is a token of
its own, if no quote stands behind it, and each token of this kind is one of them. -/
theorem plainLiterals_of_lex {source : String} {ts : List Token} (h : lex source = .ok ts) :
    (∀ kind w rest, source.toList = w ++ rest → PlainLiteral kind w → rest.head? ≠ some '"' →
      ∃ more, ts = ⟨.literal kind, ⟨0, byteLength w⟩⟩ :: more) ∧
    ∀ t ∈ ts, ∀ w, t.span.Covers source.toList w → (t.kind = .literal .char → PlainLiteral .char w) ∧
      (t.kind = .literal .string → WithoutDollar w → PlainLiteral .string w) := by
  constructor
  · intro kind w rest hsource hw hr
    exact exists_cons_of_lex h hsource (hw.cuts hr) (hw.head?_ne (by decide))
  · intro t ht w hcovers
    constructor
    · intro hkind
      obtain ⟨ls, w', rest, hcovers', hcut⟩ := exists_cuts_of_lex h ht (by simp [hkind])
      rw [hcovers.unique hcovers']
      exact plainLiteral_of_cuts_char (hkind ▸ hcut)
    · intro hkind hw
      obtain ⟨ls, w', rest, hcovers', hcut⟩ := exists_cuts_of_lex h ht (by simp [hkind])
      obtain rfl := hcovers.unique hcovers'
      exact plainLiteral_of_cuts_string (hkind ▸ hcut) hw

/-- A string that holds a quote behind a backslash. -/
theorem plainLiterals_of_lex_sample :
    lex "\"\\\"\";" = .ok [⟨.literal .string, ⟨0, 4⟩⟩, ⟨.punctuation .semicolon, ⟨4, 5⟩⟩, ⟨.endOfText, ⟨5, 5⟩⟩] ∧
      PlainLiteral .string ['"', '\\', '"', '"'] ∧ ∃ more,
        [⟨.literal .string, ⟨0, 4⟩⟩, ⟨.punctuation .semicolon, ⟨4, 5⟩⟩, ⟨.endOfText, ⟨5, 5⟩⟩] =
          (⟨.literal .string, ⟨0, byteLength ['"', '\\', '"', '"']⟩⟩ : Token) :: more := by
  have hliteral : PlainLiteral .string ['"', '\\', '"', '"'] := .regular (.escape '"' .nil)
  have htiled : Tiled true [.token (.literal .string) ['"', '\\', '"', '"'], .token (.ofSign ';') [';']] :=
    .token (hliteral.cuts (by simp [Tile.text]))
      (.token (.sign (by decide) (by decide) (by decide +kernel) (by decide)) .nil)
  have hlex := lex_of_tiled htiled (by decide)
  exact ⟨hlex, hliteral, (plainLiterals_of_lex hlex).1 .string _ [';'] rfl hliteral (by decide)⟩

end TestScaffold
