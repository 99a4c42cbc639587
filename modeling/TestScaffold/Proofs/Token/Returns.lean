import TestScaffold.Proofs.Token.Cutout

/-!
# Carriage returns in front of line breaks

A line may end in a line break alone, or in a carriage return and a line break. What is cut off as one token is cut off
as the same token when the text gets its carriage returns, with one exception: the second half of an escape is one
character. An escape at the end of a line takes the line break with it, but of two characters it takes only the first,
and the literal breaks off at the second.

Results:
* `withReturns`: the text with its carriage returns.
* `closes_withReturns_iff`: a literal that closes goes on to do so, unless it has an escape at the end of a line.
* `cuts_withReturns_iff`: so a token stays one token.
-/

namespace TestScaffold

open Lexeme (continuesNumber)

/-! ## The text with carriage returns -/

/-- Every line break gets a carriage return in front. -/
def withReturns (cs : List Char) : List Char := cs.flatMap fun c => if c = '\n' then ['\r', '\n'] else [c]

@[simp] theorem withReturns_nil : withReturns [] = [] := rfl

@[simp] theorem withReturns_newline (cs : List Char) : withReturns ('\n' :: cs) = '\r' :: '\n' :: withReturns cs := rfl

theorem withReturns_cons {c : Char} (hc : c ≠ '\n') (cs : List Char) : withReturns (c :: cs) = c :: withReturns cs := by
  simp [withReturns, hc]

@[simp] theorem withReturns_append (xs ys : List Char) : withReturns (xs ++ ys) = withReturns xs ++ withReturns ys :=
  List.flatMap_append

theorem withReturns_eq_self {cs : List Char} (h : '\n' ∉ cs) : withReturns cs = cs := by
  induction cs with
  | nil => rfl
  | cons c cs ih =>
    rw [List.mem_cons, not_or] at h
    rw [withReturns_cons (Ne.symm h.1), ih h.2]

theorem withReturns_eq_nil {cs : List Char} (h : withReturns cs = []) : cs = [] := by
  cases cs with
  | nil => rfl
  | cons c cs =>
    by_cases hc : c = '\n'
    · subst hc
      cases h
    · rw [withReturns_cons hc] at h
      cases h

/-- Another character than these two stands at the front if it stood there before. -/
theorem head?_withReturns {c : Char} (hc : c ≠ '\n' ∧ c ≠ '\r') (cs : List Char) :
    (withReturns cs).head? = some c ↔ cs.head? = some c := by
  cases cs with
  | nil => simp
  | cons d cs =>
    by_cases hd : d = '\n'
    · subst hd
      simp [Ne.symm hc.1, Ne.symm hc.2]
    · rw [withReturns_cons hd]
      simp

namespace Literal

variable {m : Mode} {ms modes ns : List Mode} {c : Char} {next : List Char}

/-! ## One character -/

theorem quotes_withReturns (cs : List Char) : quotes (withReturns cs) = quotes cs := by
  cases cs with
  | nil => rfl
  | cons c cs =>
    by_cases hc : c = '\n'
    · subst hc
      simp [quotes_cons]
    · rw [withReturns_cons hc, quotes_cons, quotes_cons]
      have hhead := head?_withReturns (c := '"') (by decide) cs
      rw [Bool.eq_iff_iff]
      simp [hhead]

/-- What is made of a character depends on no line break behind it. -/
theorem stepModes_withReturns (m : Mode) (c : Char) (next : List Char) :
    stepModes m c (withReturns next) = stepModes m c next := by
  have hquote := head?_withReturns (c := '"') (by decide) next
  have hbrace := head?_withReturns (c := '{') (by decide) next
  cases m with
  | opening v i => rw [stepModes_opening, stepModes_opening, quotes_withReturns]
  | text v i => simp only [stepModes_text, beq_iff_eq, Bool.and_eq_true, hquote, hbrace]
  | rawOpening n => rw [stepModes_rawOpening, stepModes_rawOpening]
  | rawText n run => simp only [stepModes_rawText, hquote]
  | hole => simp only [stepModes_hole, hquote, quotes_withReturns]
  | charText => rw [stepModes_charText, stepModes_charText]
  | escaped kind => rfl

/-- The modes in which more than one character is read. -/
def Mode.Lasting : Mode → Prop
  | .opening _ _ | .escaped _ => False
  | _ => True

/-- The modes in which nothing goes beyond the end of the line. -/
def Mode.OnLine : Mode → Prop
  | .text false _ | .charText => True
  | _ => False

theorem Mode.OnLine.lasting (h : m.OnLine) : m.Lasting := by
  unfold OnLine at h
  split at h <;> trivial

theorem Mode.OnLine.stepModes_newline (h : m.OnLine) (next : List Char) : stepModes m '\n' next = none := by
  unfold OnLine at h
  split at h
  · rw [stepModes_text]
    rfl
  · rfl
  · exact absurd h id

/-- A carriage return changes nothing in front of a line break. -/
theorem Mode.Lasting.stepModes_return (h : m.Lasting) (next : List Char) : ∃ n, stepModes m '\r' next = some [n] ∧
    ∀ after, stepModes n '\n' after = stepModes m '\n' after := by
  cases m with
  | opening v i => exact absurd h id
  | text v i => exact ⟨.text v i, by rw [stepModes_text]; rfl, fun _ => rfl⟩
  | rawOpening n => exact ⟨.rawText n 0, rfl, fun _ => rfl⟩
  | rawText n run => exact ⟨.rawText n 0, rfl, fun _ => rfl⟩
  | hole => exact ⟨.hole, rfl, fun _ => rfl⟩
  | charText => exact ⟨.charText, rfl, fun _ => rfl⟩
  | escaped kind => exact absurd h id

/-! ## Where a scan stands -/

/-- What may be open in front of `next`: a quote that opens something stands there already, and so does the second of
two signs that are doubled. Any other second half of an escape lies in a text that does not go beyond the line. -/
inductive Ready : (modes : List Mode) → (next : List Char) → Prop
  | lasting {modes : List Mode} {next : List Char} (h : ∀ m ∈ modes, m.Lasting) : Ready modes next
  | opening {v i : Bool} {ms : List Mode} {next : List Char} (hq : next.head? = some '"') (h : ∀ m ∈ ms, m.Lasting) :
    Ready (.opening v i :: ms) next
  | doubled {kind : LiteralKind} {ms : List Mode} {next : List Char}
    (hq : next.head? = some '"' ∨ next.head? = some '{') (h : ∀ m ∈ ms, m.Lasting) : Ready (.escaped kind :: ms) next
  | escape {kind : LiteralKind} {m : Mode} {ms : List Mode} {next : List Char} (hm : m.OnLine)
    (h : ∀ m ∈ ms, m.Lasting) : Ready (.escaped kind :: m :: ms) next

theorem Ready.below (h : Ready (m :: ms) next) : ∀ m ∈ ms, m.Lasting := by
  cases h with
  | lasting h => exact fun m hm => h m (List.mem_cons_of_mem _ hm)
  | opening _ h => exact h
  | doubled _ h => exact h
  | escape hm h => exact List.forall_mem_cons.mpr ⟨hm.lasting, h⟩

theorem Ready.one {n : Mode} (hn : n.Lasting) (h : ∀ m ∈ ms, m.Lasting) : Ready (n :: ms) next :=
  .lasting (List.forall_mem_cons.mpr ⟨hn, h⟩)

theorem Ready.two {n n' : Mode} (hn : n.Lasting) (hn' : n'.Lasting) (h : ∀ m ∈ ms, m.Lasting) :
    Ready (n :: n' :: ms) next := .one hn (List.forall_mem_cons.mpr ⟨hn', h⟩)

/-- A sign that is doubled, or escaped, in a text is ready for its second half. -/
theorem Ready.of_text {v i : Bool} (h : ∀ m ∈ ms, m.Lasting) (hstep : stepModes (.text v i) c next = some ns) :
    Ready (ns ++ ms) next := by
  rw [stepModes_text] at hstep
  split at hstep
  · cases hstep
    split
    · exact .one trivial h
    · next hv =>
      obtain rfl : v = false := by simpa using hv
      exact .escape trivial h
  · cases hstep
    split
    · next hq =>
      rw [Bool.and_eq_true, beq_iff_eq] at hq
      exact .doubled (.inl hq.2) (List.forall_mem_cons.mpr ⟨trivial, h⟩)
    · exact .lasting h
  · cases hstep
    split
    · exact .one trivial h
    · split
      · next hq => exact .doubled (.inr (by simpa using hq)) (List.forall_mem_cons.mpr ⟨trivial, h⟩)
      · exact .two trivial trivial h
  · split at hstep
    · cases hstep
      exact .one trivial h
    · cases hstep
  · cases hstep
    exact .one trivial h

/-- A sign in a hole opens a literal only if its quote stands there. -/
theorem Ready.of_hole (h : ∀ m ∈ ms, m.Lasting) (hstep : stepModes .hole c next = some ns) : Ready (ns ++ ms) next := by
  rw [stepModes_hole] at hstep
  split at hstep
  · cases hstep
    exact .two trivial trivial h
  · cases hstep
    exact .lasting h
  · cases hstep
    split
    · exact .two trivial trivial h
    · exact .two trivial trivial h
  · cases hstep
    split
    · next hq => exact .opening hq (List.forall_mem_cons.mpr ⟨trivial, h⟩)
    · exact .one trivial h
  · cases hstep
    split
    · next hq => exact .opening hq (List.forall_mem_cons.mpr ⟨trivial, h⟩)
    · exact .one trivial h
  · cases hstep
    exact .two trivial trivial h
  · cases hstep
    exact .one trivial h

/-- What one character leaves open is ready for the next. -/
theorem Ready.step (h : Ready (m :: ms) (c :: next)) (hstep : stepModes m c next = some ns) :
    Ready (ns ++ ms) next := by
  have hbelow := h.below
  cases m with
  | text v i => exact .of_text hbelow hstep
  | hole => exact .of_hole hbelow hstep
  | opening v i =>
    rw [stepModes_opening] at hstep
    cases hstep
    split
    · exact .one trivial hbelow
    · exact .one trivial hbelow
  | rawOpening n =>
    rw [stepModes_rawOpening] at hstep
    cases hstep
    split
    · exact .one trivial hbelow
    · exact .one trivial hbelow
  | rawText n run =>
    rw [stepModes_rawText] at hstep
    split at hstep
    · cases hstep
      exact .one trivial hbelow
    · split at hstep
      · cases hstep
        exact .one trivial hbelow
      · cases hstep
        exact .lasting hbelow
  | charText =>
    rw [stepModes_charText] at hstep
    split at hstep
    · cases hstep
      exact .escape trivial hbelow
    · cases hstep
      exact .lasting hbelow
    · cases hstep
    · cases hstep
      exact .one trivial hbelow
  | escaped kind =>
    cases hstep
    exact .lasting hbelow

/-! ## Whole literals -/

/-- Whether the mode is the second half of an escape. -/
def Mode.isEscaped : Mode → Bool
  | .escaped _ => true
  | _ => false

/-- Whether the frames in the given modes hold an escape whose second half is a line break. -/
def escapesLineBreak : List Mode → List Char → Bool
  | m :: ms, c :: cs =>
    match stepModes m c cs with
    | some ns => m.isEscaped && c == '\n' || escapesLineBreak (ns ++ ms) cs
    | none => false
  | _, _ => false

@[simp] theorem escapesLineBreak_nil (cs : List Char) : escapesLineBreak [] cs = false := by
  rw [escapesLineBreak]
  simp

theorem escapesLineBreak_of_step (hstep : stepModes m c next = some ns) : escapesLineBreak (m :: ms) (c :: next) =
    (m.isEscaped && c == '\n' || escapesLineBreak (ns ++ ms) next) := by
  rw [escapesLineBreak, hstep]

/-- In front of `t`, frames are closed by what `w'` is with its carriage returns, and `rest'` is what stands behind it;
no escape is at the end of a line. -/
def ClosesUnbroken (modes : List Mode) (t w' rest' : List Char) : Prop :=
  escapesLineBreak modes t = false ∧
    ∃ w rest, t = w ++ rest ∧ w' = withReturns w ∧ rest' = withReturns rest ∧ Closes modes w rest

variable {t w' rest' : List Char}

theorem closesUnbroken_nil_iff (hsplit : w' ++ rest' = withReturns t) : ClosesUnbroken [] t w' rest' ↔ w' = [] := by
  constructor
  · rintro ⟨-, w, rest, -, rfl, -, h⟩
    rw [closes_nil_left_iff.mp h, withReturns_nil]
  · rintro rfl
    exact ⟨escapesLineBreak_nil t, [], t, rfl, rfl, hsplit, closes_nil_iff.mpr rfl⟩

theorem not_closesUnbroken_nil : ¬ ClosesUnbroken (m :: ms) t [] rest' := by
  rintro ⟨-, w, rest, -, hw, -, h⟩
  obtain rfl := withReturns_eq_nil hw.symm
  cases h.eq_nil

theorem closesUnbroken_cons_iff : ClosesUnbroken (m :: ms) (c :: t) (withReturns [c] ++ w') rest' ↔
    (m.isEscaped && c == '\n') = false ∧ ∃ ns, stepModes m c t = some ns ∧ ClosesUnbroken (ns ++ ms) t w' rest' := by
  constructor
  · rintro ⟨hescapes, w, rest, ht, hw, rfl, h⟩
    cases w with
    | nil => cases h.eq_nil
    | cons d w =>
      obtain ⟨rfl, rfl⟩ : c = d ∧ t = w ++ rest := List.cons.inj ht
      have hw : withReturns [c] ++ w' = withReturns [c] ++ withReturns w := by
        rw [← withReturns_append]
        exact hw
      obtain ⟨ns, hstep, hmore⟩ := closes_cons_iff.mp h
      rw [escapesLineBreak_of_step hstep, Bool.or_eq_false_iff] at hescapes
      exact ⟨hescapes.1, ns, hstep, hescapes.2, w, rest, rfl, List.append_cancel_left hw, rfl, hmore⟩
  · rintro ⟨hescape, ns, hstep, hescapes, w, rest, rfl, rfl, rfl, h⟩
    refine ⟨?_, c :: w, rest, rfl, ?_, rfl, closes_cons_iff.mpr ⟨ns, hstep, h⟩⟩
    · rw [escapesLineBreak_of_step hstep, hescape, hescapes]
      rfl
    · rw [← withReturns_append]
      rfl

/-- A line break that gets its carriage return is read as it was, unless an escape ends there. -/
theorem closes_return_newline_iff (hr : Ready (m :: ms) ('\n' :: t)) (hsplit : w' ++ rest' = withReturns t) :
    Closes (m :: ms) ('\r' :: '\n' :: w') rest' ↔ m.isEscaped = false ∧
      ∃ ns, stepModes m '\n' t = some ns ∧ Closes (ns ++ ms) w' rest' := by
  cases hr with
  | lasting h =>
    have hm : m.Lasting := h m List.mem_cons_self
    obtain ⟨n, hreturn, hnewline⟩ := hm.stepModes_return ('\n' :: w' ++ rest')
    have hescaped : m.isEscaped = false := by
      cases m <;> first | rfl | exact absurd hm id
    rw [closes_cons_of_step hreturn, List.singleton_append, closes_cons_iff, hnewline, hsplit, stepModes_withReturns]
    simp [hescaped]
  | opening hq => cases hq
  | doubled hq => rcases hq with hq | hq <;> cases hq
  | @escape kind n ms _ hn =>
    have hnot : ¬ Closes (n :: ms) ('\n' :: w') rest' := by
      rw [closes_cons_iff, hn.stepModes_newline]
      simp
    rw [closes_cons_of_step stepModes_escaped, List.nil_append]
    simp [hnot, Mode.isEscaped]

/-- Nothing ends between a carriage return and its line break. -/
theorem not_closes_return (hr : Ready (m :: ms) ('\n' :: t)) : ¬ Closes (m :: ms) ['\r'] rest' := by
  cases hr with
  | lasting h =>
    obtain ⟨n, hreturn, -⟩ := (h m List.mem_cons_self).stepModes_return ([] ++ rest')
    rw [closes_cons_of_step hreturn, closes_nil_iff]
    simp
  | opening hq => cases hq
  | doubled hq => rcases hq with hq | hq <;> cases hq
  | escape =>
    rw [closes_cons_of_step stepModes_escaped, closes_nil_iff]
    simp

theorem not_closesUnbroken_return : ¬ ClosesUnbroken (m :: ms) ('\n' :: t) ['\r'] rest' := by
  rintro ⟨-, w, rest, ht, hw, -, h⟩
  cases w with
  | nil => cases h.eq_nil
  | cons c w =>
    obtain ⟨rfl, -⟩ := List.cons.inj ht
    cases hw

/-- Where a text gets its carriage returns, frames are closed by what closed them before, and by nothing else, if no
escape is at the end of a line. -/
theorem closes_withReturns_iff (hr : Ready modes t) (hsplit : w' ++ rest' = withReturns t) :
    Closes modes w' rest' ↔ ClosesUnbroken modes t w' rest' := by
  induction t generalizing modes w' with
  | nil =>
    obtain ⟨rfl, rfl⟩ : w' = [] ∧ rest' = [] := by simpa using hsplit
    cases modes with
    | nil => simp [closes_nil_iff, closesUnbroken_nil_iff hsplit]
    | cons m ms => simp [closes_nil_iff, not_closesUnbroken_nil]
  | cons c t ih =>
    cases modes with
    | nil => rw [closes_nil_left_iff, closesUnbroken_nil_iff hsplit]
    | cons m ms =>
      have hmore {w' : List Char} (hsplit : w' ++ rest' = withReturns t) :
          (∃ ns, stepModes m c t = some ns ∧ Closes (ns ++ ms) w' rest') ↔
            ∃ ns, stepModes m c t = some ns ∧ ClosesUnbroken (ns ++ ms) t w' rest' :=
        exists_congr fun ns => and_congr_right fun hstep => ih (hr.step hstep) hsplit
      by_cases hc : c = '\n'
      · subst hc
        rcases w' with _ | ⟨d, _ | ⟨e, w'⟩⟩
        · simp [closes_nil_iff, not_closesUnbroken_nil]
        · obtain ⟨rfl, -⟩ : d = '\r' ∧ rest' = '\n' :: withReturns t := by simpa using hsplit
          simp [not_closes_return hr, not_closesUnbroken_return]
        · obtain ⟨rfl, rfl, htail⟩ : d = '\r' ∧ e = '\n' ∧ w' ++ rest' = withReturns t := by simpa using hsplit
          have hpiece : '\r' :: '\n' :: w' = withReturns ['\n'] ++ w' := rfl
          rw [closes_return_newline_iff hr htail, hmore htail, hpiece, closesUnbroken_cons_iff]
          simp
      · rw [withReturns_cons hc] at hsplit
        cases w' with
        | nil => simp [closes_nil_iff, not_closesUnbroken_nil]
        | cons d w' =>
          obtain ⟨rfl, htail⟩ : d = c ∧ w' ++ rest' = withReturns t := List.cons.inj hsplit
          have hpiece : d :: w' = withReturns [d] ++ w' := by rw [withReturns_cons hc]; rfl
          rw [closes_cons_iff, htail, stepModes_withReturns, hmore htail, hpiece, closesUnbroken_cons_iff]
          simp [hc]

end Literal

/-! ## Tokens -/

open Literal (Ready ClosesUnbroken closes_withReturns_iff)

variable {ls : Bool} {k : TokenKind} {t w rest w' rest' : List Char}

/-- Whether the text begins with a literal of this kind that has an escape at the end of a line. -/
def TokenKind.escapesLineBreak : TokenKind → List Char → Bool
  | literal .char, text => Literal.escapesLineBreak [.charText] text.tail
  | literal .string, text => Literal.escapesLineBreak [.opening (decide ('@' ∈ signsOf text)) (decide ('$' ∈ signsOf text))]
    (text.dropWhile (· ≠ '"'))
  | _, _ => false

/-- A stretch that goes beyond no line is the same in both texts. -/
theorem exists_eq_append_of_withReturns (hw : '\n' ∉ w ∧ '\r' ∉ w) (hsplit : w ++ rest' = withReturns t) :
    ∃ rest, t = w ++ rest ∧ rest' = withReturns rest := by
  induction w generalizing t with
  | nil => exact ⟨t, rfl, hsplit⟩
  | cons c w ih =>
    simp only [List.mem_cons, not_or] at hw
    cases t with
    | nil => cases hsplit
    | cons d t =>
      by_cases hd : d = '\n'
      · subst hd
        obtain ⟨rfl, -⟩ := List.cons.inj hsplit
        exact absurd rfl hw.2.1
      · rw [withReturns_cons hd] at hsplit
        obtain ⟨rfl, htail⟩ := List.cons.inj hsplit
        obtain ⟨rest, rfl, hrest⟩ := ih ⟨hw.1.2, hw.2.2⟩ htail
        exact ⟨rest, rfl, hrest⟩

/-- Behind a token, the text may get its carriage returns. -/
theorem takesPlace_withReturns (rest : List Char) :
    TakesPlace rest (withReturns rest) ∧ TakesPlace (withReturns rest) rest := by
  have hfresh (cs : List Char) : Fresh ('\n' :: cs) ∧ Fresh ('\r' :: cs) := by simp [Fresh, freshSigns]
  rcases rest with _ | ⟨c, rest⟩
  · exact ⟨.alike rfl, .alike rfl⟩
  · by_cases hc : c = '\n'
    · subst hc
      exact ⟨.fresh (hfresh _).2, .fresh (hfresh _).1⟩
    · rw [withReturns_cons hc]
      rcases rest with _ | ⟨d, rest⟩
      · exact ⟨.alike rfl, .alike rfl⟩
      · by_cases hd : d = '\n'
        · subst hd
          exact ⟨.freshBehind (hfresh _).2, .freshBehind (hfresh _).1⟩
        · rw [withReturns_cons hd]
          exact ⟨.alike rfl, .alike rfl⟩

theorem not_mem_of_numberEnds {c : Char} (hc : ∀ next, continuesNumber c next = false) (h : NumberEnds w rest) :
    c ∉ w := by
  induction w with
  | nil => simp
  | cons d w ih =>
    rw [List.mem_cons, not_or]
    refine ⟨?_, ih h.2⟩
    rintro rfl
    have hgo := h.1
    rw [hc] at hgo
    cases hgo

/-- Only literals go beyond a line. -/
theorem Cuts.on_line (h : Cuts ls k w rest) (hstring : k ≠ .literal .string) (hchar : k ≠ .literal .char) :
    '\n' ∉ w ∧ '\r' ∉ w := by
  have hname {name : String} (hn : Text.IsIdentifier name.toList) : '\n' ∉ name.toList ∧ '\r' ∉ name.toList := by
    have hpart := hn.isIdentifierPart
    constructor
    · intro hmem
      exact absurd (hpart _ hmem) (by decide +kernel)
    · intro hmem
      exact absurd (hpart _ hmem) (by decide +kernel)
  cases h with
  | word name hn => exact hname hn
  | verbatimName name hn => simpa using hname hn
  | @number _ c cs _ hc he =>
    have hnewline : c ≠ '\n' ∧ c ≠ '\r' := by
      constructor <;> rintro rfl <;> cases hc
    simp only [List.mem_cons, not_or]
    exact ⟨⟨hnewline.1.symm, not_mem_of_numberEnds (fun _ => rfl) he⟩,
      ⟨hnewline.2.symm, not_mem_of_numberEnds (fun _ => rfl) he⟩⟩
  | char => exact absurd rfl hchar
  | string => exact absurd rfl hstring
  | dollars n => simp [List.mem_replicate]
  | dollarsAt n => simp [List.mem_replicate]
  | @sign _ c _ hb =>
    have hnewline : '\n' ≠ c ∧ '\r' ≠ c := by
      constructor <;> rintro rfl <;> cases hb
    simpa using hnewline
  | _ => simp

/-- The text begins with the token that `w'` is with its carriage returns, and `rest'` is what stands behind it; it has
no escape at the end of a line. -/
def CutsUnbroken (ls : Bool) (k : TokenKind) (t w' rest' : List Char) : Prop :=
  k.escapesLineBreak t = false ∧
    ∃ w rest, t = w ++ rest ∧ w' = withReturns w ∧ rest' = withReturns rest ∧ Cuts ls k w rest

theorem cuts_char_withReturns_iff (hsplit : w' ++ rest' = withReturns t) :
    Cuts ls (.literal .char) w' rest' ↔ CutsUnbroken ls (.literal .char) t w' rest' := by
  have hready (t : List Char) : Ready [.charText] t := .lasting (by simp [Literal.Mode.Lasting])
  constructor
  · intro h
    obtain ⟨cs', rfl, hclosed⟩ := h.exists_char
    obtain ⟨t, rfl, htail⟩ := exists_eq_append_of_withReturns (w := ['\'']) (by decide) hsplit
    obtain ⟨hescapes, w, rest, rfl, rfl, rfl, hmore⟩ := (closes_withReturns_iff (hready t) htail).mp hclosed
    exact ⟨hescapes, '\'' :: w, rest, rfl, rfl, rfl, .char hmore⟩
  · rintro ⟨hescapes, w, rest, rfl, rfl, rfl, h⟩
    obtain ⟨cs, rfl, hclosed⟩ := h.exists_char
    have hmore := (closes_withReturns_iff (hready (cs ++ rest)) (withReturns_append cs rest).symm).mpr
      ⟨hescapes, cs, rest, rfl, rfl, rfl, hclosed⟩
    exact .char hmore

theorem StringSigns.escapesLineBreak {signs : List Char} {v i : Bool} (hs : StringSigns signs v i) (cs : List Char) :
    (TokenKind.literal .string).escapesLineBreak (signs ++ '"' :: cs) =
      Literal.escapesLineBreak [.opening v i] ('"' :: cs) := by
  obtain ⟨hv, hi⟩ := hs.eq_mem
  obtain ⟨hsigns, hbody⟩ := hs.signsOf_append cs
  rw [TokenKind.escapesLineBreak, hsigns, hbody, ← hv, ← hi]

theorem StringSigns.withReturns {signs : List Char} {v i : Bool} (hs : StringSigns signs v i) (cs : List Char) :
    withReturns (signs ++ '"' :: cs) = signs ++ '"' :: withReturns cs := by
  have hline : '\n' ∉ signs := by
    cases hs <;> simp [List.mem_replicate]
  rw [withReturns_append, withReturns_eq_self hline, withReturns_cons (by decide)]

theorem cuts_string_withReturns_iff (hsplit : w' ++ rest' = withReturns t) :
    Cuts ls (.literal .string) w' rest' ↔ CutsUnbroken ls (.literal .string) t w' rest' := by
  have hready (v i : Bool) (cs : List Char) : Ready [.opening v i] ('"' :: cs) := .opening rfl (by simp)
  constructor
  · intro h
    obtain ⟨signs, v, i, cs', rfl, hs, hclosed⟩ := h.exists_string
    have hline : '\n' ∉ signs ++ ['"'] ∧ '\r' ∉ signs ++ ['"'] := by
      constructor <;> cases hs <;> simp [List.mem_replicate]
    rw [List.append_cons, List.append_assoc (signs ++ ['"'])] at hsplit
    obtain ⟨t, rfl, htail⟩ := exists_eq_append_of_withReturns hline hsplit
    have hquote : '"' :: cs' ++ rest' = withReturns ('"' :: t) := by
      rw [withReturns_cons (by decide), ← htail]
      rfl
    obtain ⟨hescapes, w, rest, ht, hw, rfl, hmore⟩ := (closes_withReturns_iff (hready v i t) hquote).mp hclosed
    rw [← List.append_cons]
    cases w with
    | nil => cases hmore.eq_nil
    | cons c w =>
      obtain ⟨rfl, rfl⟩ : '"' = c ∧ t = w ++ rest := List.cons.inj ht
      obtain rfl : cs' = withReturns w := List.tail_eq_of_cons_eq (hw.trans (withReturns_cons (by decide) w))
      exact ⟨hs.escapesLineBreak _ ▸ hescapes, signs ++ '"' :: w, rest, by simp, (hs.withReturns w).symm, rfl,
        .string hs hmore⟩
  · rintro ⟨hescapes, w, rest, rfl, rfl, rfl, h⟩
    obtain ⟨signs, v, i, cs, rfl, hs, hclosed⟩ := h.exists_string
    have hquote : '"' :: withReturns cs ++ withReturns rest = withReturns ('"' :: (cs ++ rest)) := by
      rw [withReturns_cons (by decide), withReturns_append]
      rfl
    rw [List.append_assoc, List.cons_append, hs.escapesLineBreak] at hescapes
    have hmore := (closes_withReturns_iff (hready v i (cs ++ rest)) hquote).mpr
      ⟨hescapes, '"' :: cs, rest, rfl, (withReturns_cons (by decide) cs).symm, rfl, hclosed⟩
    rw [hs.withReturns]
    exact .string hs hmore

/-- What is cut off as one token is cut off as it when the text gets its carriage returns, and nothing else is, if it is
no literal with an escape at the end of a line. -/
theorem cuts_withReturns_iff (hsplit : w' ++ rest' = withReturns t) :
    Cuts ls k w' rest' ↔ CutsUnbroken ls k t w' rest' := by
  by_cases hstring : k = .literal .string
  · subst hstring
    exact cuts_string_withReturns_iff hsplit
  · by_cases hchar : k = .literal .char
    · subst hchar
      exact cuts_char_withReturns_iff hsplit
    · have hescapes (t : List Char) : k.escapesLineBreak t = false := by
        unfold TokenKind.escapesLineBreak
        split
        · exact absurd rfl hchar
        · exact absurd rfl hstring
        · rfl
      constructor
      · intro h
        have hline := h.on_line hstring hchar
        obtain ⟨rest, rfl, rfl⟩ := exists_eq_append_of_withReturns hline hsplit
        refine ⟨hescapes _, w', rest, rfl, (withReturns_eq_self hline.1).symm, rfl, ?_⟩
        exact h.elsewhere (takesPlace_withReturns rest).2 h.not_lineStart_of_hash
      · rintro ⟨-, w, rest, rfl, rfl, rfl, h⟩
        rw [withReturns_eq_self (h.on_line hstring hchar).1]
        exact h.elsewhere (takesPlace_withReturns rest).1 h.not_lineStart_of_hash

end TestScaffold
