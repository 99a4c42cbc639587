import TestScaffold.Token.Literal

/-!
# How far a literal reaches

Where a literal ends is settled by its own characters: neither the place it stands at nor what stands behind it has
a say, as long as no quote is put behind it that was not there.

Results:
* `Closes`: the frames of a stack are all closed by the end of a stretch of text, wherever it stands.
* `closes_of_scan`: whatever a scan passes up to its end is such a stretch.
* `Closes.in_front_of`: it stays one when something else is put behind it.
* `closes_cons_iff`: frames are closed character by character, where `stepModes` says what one character does.
-/

namespace TestScaffold.Literal

open Text (Cursor byteLength byteLength_cons)

/-- Frames that expect `modes` are all closed by the end of `text`, where `rest` stands behind it, and not before. -/
def Closes (modes : List Mode) (text rest : List Char) : Prop :=
  ∀ fs : List Frame, fs.map Frame.mode = modes → ∀ offset,
    scan fs offset (text ++ rest) = .closed ⟨offset + byteLength text, rest⟩

/-! ## One step -/

/-- Two quotes at the front make a string raw. -/
def quotes (next : List Char) : Bool := ['"', '"'].isPrefixOf next

/-- The modes that take the place of a frame do not depend on where it started and on its offset. Of what follows,
only the next character counts, and where a raw string may begin, whether two quotes follow. -/
theorem modes_step {f f' : Frame} (hmode : f.mode = f'.mode) (offset offset' : Nat) (c : Char)
    {next next' : List Char} (hhead : next.head? = next'.head?)
    (hquotes : quotes next' = quotes next ∨ quotes next' = false ∧
      ∀ ms, (f.step offset c next).map (List.map Frame.mode) ≠ some (.rawOpening 1 :: ms)) :
    (f'.step offset' c next').map (List.map Frame.mode) = (f.step offset c next).map (List.map Frame.mode) := by
  obtain ⟨start, mode⟩ := f
  obtain ⟨start', mode'⟩ := f'
  simp only at hmode
  subst hmode
  cases mode with
  | opening v i =>
    simp only [quotes] at hquotes
    simp only [Frame.step, Frame.ofQuote] at hquotes ⊢
    rcases hquotes with hq | ⟨hq, hraw⟩
    · simp [hq]
    · cases v <;> cases hn : ['"', '"'].isPrefixOf next <;> simp_all
  | text v i =>
    simp only [Frame.step, Frame.stepText, hhead]
    split <;> (try split) <;> (try split) <;> simp
  | rawOpening n => simp [Frame.step]
  | rawText n run =>
    simp only [Frame.step, hhead]
    split <;> (try split) <;> simp
  | hole =>
    simp only [quotes] at hquotes
    simp only [Frame.step, Frame.stepHole, Frame.ofQuote, hhead] at hquotes ⊢
    rcases hquotes with hq | ⟨hq, hraw⟩
    · simp only [hq]
      split <;> (try split) <;> simp
    · cases hn : ['"', '"'].isPrefixOf next <;> split <;> (try split) <;> simp_all
  | charText =>
    simp only [Frame.step, Frame.stepChar]
    split <;> simp
  | escaped kind => simp [Frame.step]

/-- Frames with the same modes are replaced by frames with the same modes. -/
theorem exists_step {f f' : Frame} (hmode : f.mode = f'.mode) {offset : Nat} (offset' : Nat) {c : Char}
    {next next' : List Char} (hhead : next.head? = next'.head?) {gs : List Frame}
    (h : f.step offset c next = some gs)
    (hquotes : quotes next' = quotes next ∨ quotes next' = false ∧ ∀ ms, gs.map Frame.mode ≠ .rawOpening 1 :: ms) :
    ∃ gs', f'.step offset' c next' = some gs' ∧ gs'.map Frame.mode = gs.map Frame.mode := by
  have hmodes := modes_step hmode offset offset' c hhead (by simpa [h] using hquotes)
  rw [h, Option.map_some] at hmodes
  exact Option.map_eq_some_iff.mp hmodes

/-! ## Whole stretches -/

/-- A scan that closes its frames has passed at least one character for each of them. -/
theorem length_add_length_rest_le {fs : List Frame} {offset : Nat} {cs : List Char} {next : Cursor}
    (h : scan fs offset cs = .closed next) : fs.length + next.rest.length ≤ cs.length := by
  induction cs generalizing fs offset with
  | nil =>
    cases fs with
    | nil =>
      rw [scan_nil] at h
      cases h
      simp
    | cons f fs => cases h
  | cons c cs ih =>
    cases fs with
    | nil =>
      rw [scan_nil] at h
      cases h
      simp
    | cons f fs =>
      rw [scan] at h
      cases hs : f.step offset c cs with
      | none =>
        rw [hs] at h
        cases h
      | some gs =>
        rw [hs] at h
        have hlength := ih h
        simp only [List.length_append, List.length_cons] at hlength ⊢
        omega

/-- A text that closes frames has at least one character for each of them. -/
theorem Closes.length_le {modes : List Mode} {text rest : List Char} (h : Closes modes text rest) :
    modes.length ≤ text.length := by
  have hscan := h (modes.map fun m => ⟨0, m⟩) (by simp [Function.comp_def]) 0
  have hlength := length_add_length_rest_le hscan
  rw [List.length_map, List.length_append] at hlength
  exact Nat.le_of_add_le_add_right hlength

theorem Closes.eq_nil {modes : List Mode} {rest : List Char} (h : Closes modes [] rest) : modes = [] :=
  List.eq_nil_of_length_eq_zero (Nat.le_zero.mp h.length_le)

/-- What a scan passes up to the end of its last frame is closed there, wherever it stands. -/
theorem closes_of_scan {fs : List Frame} {offset : Nat} {text rest : List Char} {next : Cursor}
    (h : scan fs offset (text ++ rest) = .closed next) (hrest : next.rest = rest) :
    Closes (fs.map Frame.mode) text rest := by
  induction text generalizing fs offset with
  | nil =>
    have hlength := length_add_length_rest_le h
    rw [hrest, List.nil_append] at hlength
    obtain rfl : fs = [] := List.eq_nil_of_length_eq_zero (by omega)
    intro fs' hfs' offset'
    obtain rfl : fs' = [] := List.map_eq_nil_iff.mp hfs'
    simp
  | cons c text ih =>
    cases fs with
    | nil =>
      rw [scan_nil] at h
      cases h
      have hlength := congrArg List.length hrest
      simp at hlength
      omega
    | cons f fs =>
      rw [List.cons_append, scan] at h
      cases hs : f.step offset c (text ++ rest) with
      | none =>
        rw [hs] at h
        cases h
      | some gs =>
        rw [hs] at h
        have hclosed := ih h
        intro fs' hfs' offset'
        obtain ⟨f', fs', rfl, hf', hfs'⟩ := List.map_eq_cons_iff.mp hfs'
        obtain ⟨gs', hs', hgs'⟩ := exists_step hf'.symm offset' rfl hs (.inl rfl)
        have hstack : (gs' ++ fs').map Frame.mode = (gs ++ fs).map Frame.mode := by simp [hgs', hfs']
        rw [List.cons_append, scan, hs']
        simp only
        rw [hclosed _ hstack, byteLength_cons, Nat.add_assoc]

/-! ## Another continuation -/

/-- Whether `rest'` may take the place of `rest` behind a literal: it brings no quote that was not there. -/
def MayFollow (rest rest' : List Char) : Prop := rest'.head? = rest.head? ∨ rest'.head? ≠ some '"'

/-- The last character of the last frame closes it in front of anything that may follow. -/
theorem step_last {f : Frame} {offset : Nat} {c : Char} {rest rest' : List Char} (hr : MayFollow rest rest')
    (h : f.step offset c rest = some []) : f.step offset c rest' = some [] := by
  obtain ⟨start, mode⟩ := f
  cases mode with
  | opening v i => simp [Frame.step] at h
  | text v i =>
    simp only [Frame.step, Frame.stepText] at h ⊢
    split at h
    · split at h <;> cases h
    · rcases hr with hr | hr
      · rwa [hr]
      · simp [hr]
    · split at h
      · cases h
      · split at h <;> cases h
    · split at h <;> cases h
    · cases h
  | rawOpening quotes => simp [Frame.step] at h
  | rawText quotes run =>
    simp only [Frame.step] at h ⊢
    rcases hr with hr | hr
    · rwa [hr]
    · split at h
      · cases h
      · split at h
        · cases h
        · next hc hq => simp_all
  | hole =>
    simp only [Frame.step, Frame.stepHole] at h ⊢
    split at h <;> (try split at h) <;> simp_all
  | charText =>
    simp only [Frame.step, Frame.stepChar] at h ⊢
    split at h <;> simp_all
  | escaped kind => rfl

/-- The quotes that open a raw string are never the end of it. -/
theorem not_closes_rawOpening (n : Nat) (ms : List Mode) (c : Char) (rest : List Char) :
    ¬ Closes (.rawOpening n :: ms) [c] rest := by
  intro h
  have hscan := h (⟨0, .rawOpening n⟩ :: ms.map fun m => ⟨0, m⟩) (by simp [Function.comp_def]) 0
  rw [List.singleton_append, scan, Frame.step] at hscan
  have hclosed : Closes _ [] rest := closes_of_scan hscan rfl
  cases hclosed.eq_nil

theorem quotes_cons (d : Char) (rest : List Char) : quotes (d :: rest) = (d == '"' && rest.head? == some '"') := by
  cases rest with
  | nil => simp [quotes, List.isPrefixOf]
  | cons e rest =>
    simp only [quotes, List.isPrefixOf, Bool.and_true, List.head?_cons, Option.some_beq_some]
    rw [BEq.comm (a := '"') (b := d), BEq.comm (a := '"') (b := e)]

/-- Two characters in front of the end, a raw string may not begin any more. -/
theorem quotes_in_front_of {ms : List Mode} {d : Char} {text rest rest' : List Char} (hr : MayFollow rest rest')
    (h : Closes ms (d :: text) rest) : quotes (d :: text ++ rest') = quotes (d :: text ++ rest) ∨
      quotes (d :: text ++ rest') = false ∧ ∀ ms', ms ≠ .rawOpening 1 :: ms' := by
  cases text with
  | cons e text => exact .inl (by simp [quotes_cons])
  | nil =>
    rcases hr with hr | hr
    · exact .inl (by simp [quotes_cons, hr])
    · refine .inr ⟨by simp [quotes_cons, hr], ?_⟩
      rintro ms' rfl
      exact not_closes_rawOpening 1 ms' d rest h

/-- Where a literal ends does not depend on what stands behind it. -/
theorem Closes.in_front_of {modes : List Mode} {text rest rest' : List Char} (h : Closes modes text rest)
    (hr : MayFollow rest rest') : Closes modes text rest' := by
  induction text generalizing modes with
  | nil =>
    obtain rfl := h.eq_nil
    intro fs hfs offset
    obtain rfl : fs = [] := List.map_eq_nil_iff.mp hfs
    simp
  | cons c text ih =>
    intro fs hfs offset
    have hscan := h fs hfs offset
    cases fs with
    | nil =>
      rw [scan_nil] at hscan
      have hlength := congrArg (fun e => e.next.rest.length) hscan
      simp [Ending.next] at hlength
      omega
    | cons f fs =>
      rw [List.cons_append, scan] at hscan ⊢
      cases hs : f.step offset c (text ++ rest) with
      | none =>
        rw [hs] at hscan
        cases hscan
      | some gs =>
        rw [hs] at hscan
        have hclosed := closes_of_scan hscan rfl
        have hmore := ih hclosed
        have hstep : ∃ gs', f.step offset c (text ++ rest') = some gs' ∧ gs'.map Frame.mode = gs.map Frame.mode := by
          cases text with
          | nil =>
            obtain ⟨rfl, -⟩ := List.append_eq_nil_iff.mp (List.map_eq_nil_iff.mp hclosed.eq_nil)
            exact ⟨[], step_last hr hs, rfl⟩
          | cons d text =>
            have hhead : (d :: text ++ rest).head? = (d :: text ++ rest').head? := rfl
            refine exists_step rfl offset hhead hs ?_
            rcases quotes_in_front_of hr hclosed with hq | ⟨hq, hraw⟩
            · exact .inl hq
            · refine .inr ⟨hq, fun ms hms => ?_⟩
              exact hraw (ms ++ fs.map Frame.mode) (by simp [hms])
        obtain ⟨gs', hs', hgs'⟩ := hstep
        rw [hs']
        simp only
        rw [hmore (gs' ++ fs) (by simp [hgs']), byteLength_cons, Nat.add_assoc]

/-! ## One character at a time -/

/-- The modes that take the place of a mode when `c` is read in front of `next`. -/
def stepModes (mode : Mode) (c : Char) (next : List Char) : Option (List Mode) :=
  (Frame.step ⟨0, mode⟩ 0 c next).map (List.map Frame.mode)

theorem stepModes_eq (f : Frame) (offset : Nat) (c : Char) (next : List Char) :
    stepModes f.mode c next = (f.step offset c next).map (List.map Frame.mode) := by
  have hmode : f.mode = (⟨0, f.mode⟩ : Frame).mode := rfl
  exact modes_step hmode offset 0 c rfl (.inl rfl)

theorem closes_nil_iff {modes : List Mode} {rest : List Char} : Closes modes [] rest ↔ modes = [] := by
  constructor
  · exact Closes.eq_nil
  · rintro rfl fs hfs offset
    obtain rfl : fs = [] := List.map_eq_nil_iff.mp hfs
    simp

theorem not_closes_nil_cons (c : Char) (text rest : List Char) : ¬ Closes [] (c :: text) rest := by
  intro h
  have hscan := h [] rfl 0
  rw [scan_nil] at hscan
  have hlength := congrArg (fun e => e.next.rest.length) hscan
  simp only [Ending.next, List.length_append, List.length_cons] at hlength
  omega

theorem closes_nil_left_iff {text rest : List Char} : Closes [] text rest ↔ text = [] := by
  cases text with
  | nil => simp [closes_nil_iff]
  | cons c text => simp [not_closes_nil_cons]

/-- A text closes frames if its first character is read by the uppermost one, and the others close what takes its
place. -/
theorem closes_cons_iff {m : Mode} {ms : List Mode} {c : Char} {text rest : List Char} :
    Closes (m :: ms) (c :: text) rest ↔
      ∃ ns, stepModes m c (text ++ rest) = some ns ∧ Closes (ns ++ ms) text rest := by
  constructor
  · intro h
    have hscan := h ((m :: ms).map fun m => ⟨0, m⟩) (by simp [Function.comp_def]) 0
    rw [List.map_cons, List.cons_append, scan] at hscan
    cases hs : Frame.step ⟨0, m⟩ 0 c (text ++ rest) with
    | none =>
      rw [hs] at hscan
      cases hscan
    | some gs =>
      rw [hs] at hscan
      refine ⟨gs.map Frame.mode, by rw [stepModes, hs, Option.map_some], ?_⟩
      have hclosed := closes_of_scan hscan rfl
      simpa [Function.comp_def] using hclosed
  · rintro ⟨ns, hstep, hclosed⟩ fs hfs offset
    obtain ⟨f, fs, rfl, rfl, rfl⟩ := List.map_eq_cons_iff.mp hfs
    rw [stepModes_eq f offset, Option.map_eq_some_iff] at hstep
    obtain ⟨gs, hs, rfl⟩ := hstep
    rw [List.cons_append, scan, hs]
    simp only
    rw [hclosed (gs ++ fs) (by simp), byteLength_cons, Nat.add_assoc]

theorem closes_cons_of_step {m : Mode} {ms ns : List Mode} {c : Char} {text rest : List Char}
    (h : stepModes m c (text ++ rest) = some ns) : Closes (m :: ms) (c :: text) rest ↔ Closes (ns ++ ms) text rest := by
  rw [closes_cons_iff, h]
  simp

/-- Frames may be closed one part of the stack after the other. -/
theorem Closes.append {ms ns : List Mode} {text more rest : List Char} (h : Closes ms text (more ++ rest))
    (k : Closes ns more rest) : Closes (ms ++ ns) (text ++ more) rest := by
  intro fs hfs offset
  obtain ⟨upper, lower, rfl, hupper, hlower⟩ := List.map_eq_append_iff.mp hfs
  rw [scan_append, List.append_assoc, h upper hupper]
  simp only
  rw [k lower hlower, Text.byteLength_append, Nat.add_assoc]

/-! ## What each mode makes of a character -/

section

variable {v i : Bool} {c : Char} {next : List Char}

theorem stepModes_opening : stepModes (.opening v i) c next =
    some [if !v && quotes next then .rawOpening 1 else .text v i] := by
  rfl

/-- The two characters behind an opening quote say which contents follow. -/
theorem closes_opening_iff {ms : List Mode} {text rest : List Char} :
    Closes (.opening v i :: ms) (c :: text) rest ↔
      Closes ((if !v && quotes (text ++ rest) then .rawOpening 1 else .text v i) :: ms) text rest := by
  constructor
  · intro h
    obtain ⟨ns, hns, hmore⟩ := closes_cons_iff.mp h
    rw [stepModes_opening] at hns
    cases hns
    exact hmore
  · exact fun h => closes_cons_iff.mpr ⟨_, stepModes_opening, h⟩

theorem stepModes_text : stepModes (.text v i) c next =
    match c with
    | '\\' => some (if v then [.text v i] else [.escaped .string, .text v i])
    | '"' => some (if v && next.head? == some '"' then [.escaped .string, .text v i] else [])
    | '{' =>
      some (if !i then [.text v i] else if next.head? == some '{' then [.escaped .string, .text v i]
        else [.hole, .text v i])
    | '\n' => if v then some [.text v i] else none
    | _ => some [.text v i] := by
  simp only [stepModes, Frame.step, Frame.stepText]
  split <;> (try split) <;> (try split) <;> simp_all

theorem stepModes_rawOpening {n : Nat} : stepModes (.rawOpening n) c next =
    some [if c = '"' then .rawOpening (n + 1) else .rawText n 0] := by
  simp only [stepModes, Frame.step, beq_iff_eq]
  split <;> rfl

theorem stepModes_rawText {n run : Nat} : stepModes (.rawText n run) c next =
    if c ≠ '"' then some [.rawText n 0]
    else if run + 1 < n ∨ next.head? = some '"' then some [.rawText n (run + 1)] else some [] := by
  simp only [stepModes, Frame.step, bne_iff_ne, Bool.or_eq_true, decide_eq_true_eq, beq_iff_eq]
  split
  · rfl
  · split <;> rfl

theorem stepModes_charText : stepModes .charText c next =
    match c with
    | '\\' => some [.escaped .char, .charText]
    | '\'' => some []
    | '\n' => none
    | _ => some [.charText] := by
  simp only [stepModes, Frame.step, Frame.stepChar]
  split <;> simp_all

theorem stepModes_escaped {kind : LiteralKind} : stepModes (.escaped kind) c next = some [] := rfl

/-- The second half of an escape is any one character. -/
theorem closes_escaped_iff {kind : LiteralKind} {ms : List Mode} {text rest : List Char} :
    Closes (.escaped kind :: ms) text rest ↔ ∃ d more, text = d :: more ∧ Closes ms more rest := by
  constructor
  · intro h
    cases text with
    | nil => cases h.eq_nil
    | cons d more =>
      obtain ⟨ns, hns, hmore⟩ := closes_cons_iff.mp h
      cases hns
      exact ⟨d, more, rfl, hmore⟩
  · rintro ⟨d, more, rfl, h⟩
    exact closes_cons_iff.mpr ⟨[], stepModes_escaped, h⟩

theorem stepModes_hole : stepModes .hole c next =
    match c with
    | '{' => some [.hole, .hole]
    | '}' => some []
    | '"' => some [if quotes next then .rawOpening 1 else .text false false, .hole]
    | '@' => some (if next.head? = some '"' then [.opening true false, .hole] else [.hole])
    | '$' => some (if next.head? = some '"' then [.opening false true, .hole] else [.hole])
    | '\'' => some [.charText, .hole]
    | _ => some [.hole] := by
  simp only [stepModes, Frame.step, Frame.stepHole, Frame.ofQuote, quotes, beq_iff_eq]
  split <;> simp [apply_ite]

end

end TestScaffold.Literal
