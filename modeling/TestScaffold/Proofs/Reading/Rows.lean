import TestScaffold.Proofs.Reading.Groups

/-!
# Rows that are passed

What stands between two marks of interest is a row of tokens that mean nothing there and of properly nested groups. A
passage goes through all of it, whatever stands behind.

Results:
* `Nesting.Nested.withoutAngles`, `Nesting.nested_of_balanced`: proper nesting where angle brackets do not count.
* `Nesting.skipUntil_of_row`: passages go through rows.
* `Nesting.recover_semicolon`, `Nesting.recover_group`: so does recovery, to the end of a broken declaration.
-/

namespace TestScaffold.Nesting

open Token (front atEnd atMark atBodyEnd)

variable {angles : Bool} {closer : Punctuation} {stops : Punctuation → Bool} {ks ls : List TokenKind} {k : TokenKind}

/-! ## Tokens that mean nothing -/

theorem isFree_punctuation {p : Punctuation} : isFree angles closer (.punctuation p) = true ↔
    closing? angles p = none ∧ isCloser p = false ∧ p ≠ closer := by
  simp [isFree, and_assoc]

theorem isFree_of_isPlain (hcloser : isCloser closer = true) (h : isPlain k = true) : isFree false closer k = true := by
  cases k with
  | punctuation p =>
    refine isFree_punctuation.mpr ⟨?_, ?_, ?_⟩
    · cases p <;> simp_all [isPlain, closing?, groupCloser?]
    · simp_all [isPlain]
    · rintro rfl
      simp [isPlain, hcloser] at h
  | _ => exact h

theorem isFree_of_name? (h : k.name?.isSome = true) : isFree angles closer k = true := by
  cases k with
  | punctuation p => cases h
  | endOfText => cases h
  | _ => rfl

/-! ## Nesting without angle brackets -/

theorem isFree_withoutAngles {other : Punctuation} (h : isFree angles other k = true)
    (hcloser : isCloser closer = true) :
    isFree false closer k = true := by
  cases k with
  | punctuation p =>
    obtain ⟨hnone, hp, -⟩ := isFree_punctuation.mp h
    refine isFree_punctuation.mpr ⟨?_, hp, ?_⟩
    · cases p <;> simp_all [closing?]
    · rintro rfl
      rw [hp] at hcloser
      cases hcloser
  | _ => exact h

/-- A group is properly nested where angle brackets do not count: two of them are then tokens that mean nothing. -/
theorem nested_group {opener stop : Punctuation} {inner : List TokenKind} (hc : closing? angles opener = some stop)
    (content : ∀ closer, isCloser closer = true → Nested false closer inner) (hcloser : isCloser closer = true)
    (rest : Nested false closer ks) :
    Nested false closer (.punctuation opener :: (inner ++ .punctuation stop :: ks)) := by
  by_cases hangle : opener = .leftAngle
  · subst hangle
    obtain ⟨-, rfl⟩ : angles = true ∧ Punctuation.rightAngle = stop := by simpa [closing?] using hc
    have hopens : isFree false closer (.punctuation .leftAngle) = true := by
      cases closer <;> first | rfl | cases hcloser
    have hstops : isFree false closer (.punctuation .rightAngle) = true := by
      cases closer <;> first | rfl | cases hcloser
    exact .free hopens ((content closer hcloser).append (.free hstops rest))
  · have hsame : closing? false opener = some stop := by cases opener <;> simp_all [closing?]
    have hgroup : groupCloser? opener = some stop := by cases opener <;> simp_all [closing?]
    exact .group hsame (content stop (isCloser_of_groupCloser? hgroup)) rest

/-- Where angle brackets do not count, they do no harm either. -/
theorem Nested.withoutAngles {other : Punctuation} (h : Nested angles other ks) (hcloser : isCloser closer = true) :
    Nested false closer ks := by
  induction h generalizing closer with
  | nil => exact .nil
  | free hk _ ih => exact .free (isFree_withoutAngles hk hcloser) (ih hcloser)
  | group hc _ _ ihc ih => exact nested_group hc (fun _ h => ihc h) hcloser (ih hcloser)

theorem nested_of_balanced {top : TokenKind → Bool} (h : Balanced top ks) (hcloser : isCloser closer = true) :
    Nested false closer ks := by
  induction h generalizing closer with
  | nil => exact .nil
  | plain hk _ _ ih => exact .free (isFree_of_isPlain hcloser hk) (ih hcloser)
  | @group top opener stop inner ks hc _ _ ihc ih =>
    have hsame : closing? false opener = some stop := by cases opener <;> simp_all [closing?, groupCloser?]
    exact .group hsame (ihc (isCloser_of_groupCloser? hc)) (ih hcloser)

theorem nested_of_forall (h : ∀ k ∈ ks, isFree angles closer k = true) : Nested angles closer ks := by
  induction ks with
  | nil => exact .nil
  | cons k ks ih =>
    rw [List.forall_mem_cons] at h
    exact .free h.1 (ih h.2)

/-! ## Rows -/

/-- A row of tokens that a passage up to one of the marks `stops` goes through: none of these stands outside its groups,
and none begins one of them. -/
inductive Row (stops : Punctuation → Bool) (angles : Bool) : List TokenKind → Prop
  | nil : Row stops angles []
  | free {k : TokenKind} {ks : List TokenKind} (hk : isFree angles .rightBrace k = true)
      (hs : k.punctuation?.any stops = false) (rest : Row stops angles ks) : Row stops angles (k :: ks)
  | group {opener closer : Punctuation} {inner ks : List TokenKind} (hc : closing? angles opener = some closer)
      (hs : stops opener = false) (content : Nested (opener == .leftAngle) closer inner)
      (rest : Row stops angles ks) : Row stops angles (.punctuation opener :: (inner ++ .punctuation closer :: ks))

/-- The tokens of a row are properly nested. -/
theorem Row.nested (h : Row stops angles ks) : Nested false .rightBrace ks := by
  induction h with
  | nil => exact .nil
  | free hk _ _ ih => exact .free (isFree_withoutAngles hk rfl) ih
  | group hc _ content _ ih => exact nested_group hc (fun _ h => content.withoutAngles h) rfl ih

/-- Properly nested tokens are a row if no mark that stops the passage is among them. -/
theorem row_of_nested (h : Nested false closer ks) (hcloser : isCloser closer = true)
    (hs : ∀ k ∈ ks, k.punctuation?.any stops = false) (hbrace : .punctuation .rightBrace ∉ ks) :
    Row stops false ks := by
  induction h with
  | nil => exact .nil
  | @free closer k ks hk _ ih =>
    rw [List.forall_mem_cons] at hs
    rw [List.mem_cons, not_or] at hbrace
    refine .free ?_ hs.1 (ih hcloser hs.2 hbrace.2)
    exact isFree_withoutAngles hk rfl
  | @group closer opener stop inner ks hc content _ _ ih =>
    have hopener : stops opener = false := hs (.punctuation opener) List.mem_cons_self
    have hangle : (opener == .leftAngle) = false := by cases opener <;> simp_all [closing?]
    refine .group hc hopener (hangle ▸ content) (ih hcloser (fun k hk => hs k ?_) fun hk => hbrace ?_) <;> simp [hk]

/-- Words are a row. -/
theorem row_of_forall (h : ∀ k ∈ ks, (∃ word, k = .keyword word) ∨ ∃ name, k = .identifier name) :
    Row stops angles ks := by
  induction ks with
  | nil => exact .nil
  | cons k ks ih =>
    rw [List.forall_mem_cons] at h
    rcases h.1 with ⟨word, rfl⟩ | ⟨name, rfl⟩
    · exact .free rfl rfl (ih h.2)
    · exact .free rfl rfl (ih h.2)

theorem atGroup_of_closing? {p q : Punctuation} (h : closing? angles p = some q) {o : Token}
    (ho : o.kind = .punctuation p) (ts : List Token) : atGroup angles (o :: ts) = true := by
  cases p <;> simp_all [closing?, groupCloser?, atGroup, atMark, front, TokenKind.opensGroup]

theorem not_atGroup_of_isFree {t : Token} (h : isFree angles closer t.kind = true) (ts : List Token) :
    atGroup angles (t :: ts) = false := by
  cases hk : t.kind with
  | punctuation p =>
    rw [hk] at h
    have hnone := (isFree_punctuation.mp h).1
    cases p <;> simp_all [closing?, groupCloser?, atGroup, atMark, front, TokenKind.opensGroup]
  | _ => simp [atGroup, atMark, front, hk, TokenKind.opensGroup]

theorem not_atBodyEnd_of_isFree {t : Token} (h : isFree angles .rightBrace t.kind = true) (ts : List Token) :
    atBodyEnd (t :: ts) = false := by
  cases hk : t.kind with
  | punctuation p =>
    rw [hk] at h
    have hne := (isFree_punctuation.mp h).2.2
    simp [atBodyEnd, atEnd, atMark, front, hk, hne]
  | endOfText =>
    rw [hk] at h
    cases h
  | _ => simp [atBodyEnd, atEnd, atMark, front, hk]

/-- A passage goes through a row. -/
theorem skipUntil_of_row (h : Row stops angles ks) {us : List Token} (hu : us.map Token.kind = ks) (rest : List Token) :
    skipUntil stops angles (us ++ rest) = skipUntil stops angles rest := by
  induction h generalizing us with
  | nil => rw [List.map_eq_nil_iff.mp hu, List.nil_append]
  | @free k ks hk hs _ ih =>
    obtain ⟨t, us, rfl, rfl, hus⟩ := List.map_eq_cons_iff.mp hu
    have hstop : (front (t :: (us ++ rest))).kind.punctuation?.any stops = false := hs
    rw [List.cons_append, skipUntil, not_atBodyEnd_of_isFree hk, hstop, not_atGroup_of_isFree hk]
    exact ih hus
  | @group opener closer inner ks hc hs content _ ih =>
    obtain ⟨o, us, rfl, ho, hus⟩ := List.map_eq_cons_iff.mp hu
    obtain ⟨ins, us, rfl, hins, hus⟩ := List.map_eq_append_iff.mp hus
    obtain ⟨c, us, rfl, hck, hus⟩ := List.map_eq_cons_iff.mp hus
    have hts : o :: (ins ++ c :: us) ++ rest = o :: (ins ++ c :: (us ++ rest)) := by simp
    have hp : closing? true opener = some closer := (closing?_true opener).trans (closing?_eq_some hc).1
    have hskip : skipGroup (o :: (ins ++ c :: (us ++ rest))) = .done (o.span.merge c.span) (us ++ rest) :=
      (Outcome.closed rfl ho hp (hins ▸ content) hck).skipGroup_eq
    have hne : opener ≠ .rightBrace := by
      rintro rfl
      cases hc
    have hend : atBodyEnd (o :: (ins ++ c :: (us ++ rest))) = false := by
      simp [atBodyEnd, atEnd, atMark, front, ho, hne]
    have hstop : (front (o :: (ins ++ c :: (us ++ rest)))).kind.punctuation?.any stops = false := by
      simp [front, ho, TokenKind.punctuation?, hs]
    rw [hts, skipUntil, hend, hstop, atGroup_of_closing? hc ho]
    simp only [hskip, Step.done]
    exact ih hus

/-! ## Recovery -/

/-- The marks at which recovery ends its passage. -/
def endsItem (p : Punctuation) : Bool := p == .semicolon || p == .leftBrace

theorem recover_of_row {us : List Token} (h : Row endsItem false (us.map Token.kind)) {t : Token}
    (ht : t.kind.punctuation?.any endsItem = true) (rest : List Token) :
    recover (us ++ t :: rest) =
      if atMark .semicolon (t :: rest) then rest
      else if atMark .leftBrace (t :: rest) then (skipGroup (t :: rest)).rest
      else t :: rest := by
  have hstop : skipUntil endsItem false (t :: rest) = .done () (t :: rest) := by
    have hany : (front (t :: rest)).kind.punctuation?.any endsItem = true := ht
    rw [skipUntil, hany, Bool.or_true, if_pos rfl]
  have hskip : skipUntil (fun p => p == .semicolon || p == .leftBrace) false (us ++ t :: rest) = .done () (t :: rest) :=
    (skipUntil_of_row h rfl (t :: rest)).trans hstop
  unfold recover
  rw [hskip]
  rfl

/-- Recovery ends behind a semicolon. -/
theorem recover_semicolon {us : List Token} (h : Row endsItem false (us.map Token.kind)) {t : Token}
    (ht : t.kind = .punctuation .semicolon) (rest : List Token) : recover (us ++ t :: rest) = rest := by
  have hmark : atMark .semicolon (t :: rest) = true := by simp [atMark, front, ht]
  rw [recover_of_row h (by rw [ht]; rfl), if_pos hmark]

/-- Recovery ends behind a group in braces. -/
theorem recover_group {us inner : List Token} (h : Row endsItem false (us.map Token.kind)) {o c : Token}
    (ho : o.kind = .punctuation .leftBrace) (hc : c.kind = .punctuation .rightBrace)
    (hinner : Nested false .rightBrace (inner.map Token.kind)) (rest : List Token) :
    recover (us ++ o :: (inner ++ c :: rest)) = rest := by
  have hmark : ¬ atMark .semicolon (o :: (inner ++ c :: rest)) = true := by simp [atMark, front, ho]
  have hbrace : atMark .leftBrace (o :: (inner ++ c :: rest)) = true := by simp [atMark, front, ho]
  have hskip : skipGroup (o :: (inner ++ c :: rest)) = .done (o.span.merge c.span) rest :=
    (Outcome.closed rfl ho rfl hinner hc).skipGroup_eq
  rw [recover_of_row h (by rw [ho]; rfl), if_neg hmark, if_pos hbrace, hskip]
  rfl

end TestScaffold.Nesting
