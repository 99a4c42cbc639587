import TestScaffold.Proofs.Token.Returns

/-!
# The tokens of a text with carriage returns

Line breaks stand in gaps and in literals. Where a text gets its carriage returns, comments and directives take them up
at the ends of their lines, and otherwise they are blanks. So the tokens stay the same, as long as no literal has an
escape at the end of a line; with one, the text is read without a fault before, but not after.

Results:
* `exists_tiled_withReturns`, `exists_tiled_of_withReturns`: the tiles of one text from those of the other.
* `EscapesLineBreak`: the exception.
* `exists_lex_returned_iff`: which texts are read with their carriage returns, and as which tokens.
-/

namespace TestScaffold

open Text (byteLength isBlank)

/-! ## Tiles -/

/-- The kinds of the tokens among the tiles. -/
def Tile.kinds : List Tile → List TokenKind
  | [] => []
  | token k _ :: tiles => k :: kinds tiles
  | gap _ :: tiles => kinds tiles

/-- No literal among the tiles has an escape at the end of a line. -/
def Tile.Unbroken : List Tile → Prop
  | [] => True
  | token k w :: tiles => k.escapesLineBreak (w ++ textOf tiles) = false ∧ Unbroken tiles
  | gap _ :: tiles => Unbroken tiles

theorem Tile.map_kind_tokens (offset : Nat) (tiles : List Tile) :
    (tokens offset tiles).map Token.kind = kinds tiles := by
  induction tiles generalizing offset with
  | nil => rfl
  | cons x tiles ih =>
    cases x with
    | token k w => simp [tokens, kinds, ih]
    | gap w => exact ih _

theorem Tile.map_kind_stream (offset : Nat) (tiles : List Tile) :
    (stream offset tiles).map Token.kind = kinds tiles ++ [.endOfText] := by
  simp [stream, map_kind_tokens]

variable {ls : Bool} {c : Char} {t v w rest w' rest' : List Char} {tiles : List Tile}

/-- A blank at the front of a text is its first tile. -/
theorem Tiled.exists_blank (h : Tiled ls tiles) (htext : Tile.textOf tiles = c :: t) (hc : isBlank c = true) :
    ∃ more, tiles = .gap [c] :: more ∧ Tile.textOf more = t ∧ Tiled (ls || c == '\n') more := by
  cases h with
  | nil => cases htext
  | token hcut _ =>
    obtain ⟨d, v, rfl, hblank, -⟩ := hcut.read
    obtain ⟨rfl, -⟩ := List.cons.inj htext
    rw [hblank] at hc
    cases hc
  | gap hgap hmore =>
    rcases hgap.read with ⟨d, rfl, -, rfl⟩ | ⟨d, v, rfl, hblank, -⟩
    · obtain ⟨rfl, rfl⟩ := List.cons.inj htext
      exact ⟨_, rfl, rfl, hmore⟩
    · obtain ⟨rfl, -⟩ := List.cons.inj htext
      rw [hblank] at hc
      cases hc

/-! ## Gaps -/

/-- A text with its carriage returns falls apart as the text does, unless it is cut between a carriage return and its
line break. -/
theorem exists_append_of_withReturns (hsplit : w' ++ rest' = withReturns t)
    (hcut : w'.getLast? ≠ some '\r' ∨ rest'.head? ≠ some '\n') :
    ∃ w rest, t = w ++ rest ∧ w' = withReturns w ∧ rest' = withReturns rest := by
  induction t generalizing w' with
  | nil =>
    obtain ⟨rfl, rfl⟩ : w' = [] ∧ rest' = [] := by simpa using hsplit
    exact ⟨[], [], rfl, rfl, rfl⟩
  | cons c t ih =>
    by_cases hc : c = '\n'
    · subst hc
      rcases w' with _ | ⟨d, _ | ⟨e, w'⟩⟩
      · exact ⟨[], '\n' :: t, rfl, rfl, hsplit⟩
      · obtain ⟨rfl, rfl⟩ : d = '\r' ∧ rest' = '\n' :: withReturns t := by simpa using hsplit
        simp at hcut
      · obtain ⟨rfl, rfl, htail⟩ : d = '\r' ∧ e = '\n' ∧ w' ++ rest' = withReturns t := by simpa using hsplit
        obtain ⟨w, rest, rfl, rfl, rfl⟩ := ih htail (by cases w' <;> simp_all)
        exact ⟨'\n' :: w, rest, rfl, rfl, rfl⟩
    · rw [withReturns_cons hc] at hsplit
      cases w' with
      | nil => exact ⟨[], c :: t, rfl, rfl, by rw [withReturns_cons hc]; exact hsplit⟩
      | cons d w' =>
        obtain ⟨rfl, htail⟩ : d = c ∧ w' ++ rest' = withReturns t := List.cons.inj hsplit
        obtain ⟨w, rest, rfl, rfl, rfl⟩ := ih htail (by cases w' <;> simp_all)
        exact ⟨d :: w, rest, rfl, (withReturns_cons hc w).symm, rfl⟩

/-- A comment ends where it did. -/
theorem endOfComment_infix_iff (v : List Char) : ['*', '/'] <:+: withReturns v ↔ ['*', '/'] <:+: v := by
  constructor
  · rintro ⟨a', b', h⟩
    rw [List.append_assoc] at h
    obtain ⟨a, x, rfl, -, hx⟩ := exists_append_of_withReturns h (.inr (by simp))
    obtain ⟨b, rfl, -⟩ := exists_eq_append_of_withReturns (by decide) hx
    exact ⟨a, b, by simp⟩
  · rintro ⟨a, b, rfl⟩
    have hend : withReturns ['*', '/'] = ['*', '/'] := rfl
    exact ⟨withReturns a, withReturns b, by rw [withReturns_append, withReturns_append, hend]⟩

theorem closedComment_withReturns (h : ClosedComment w) : ClosedComment (withReturns w) := by
  obtain ⟨v, hv, rfl⟩ := h
  refine ⟨withReturns v, (endOfComment_infix_iff v).not.mpr hv, ?_⟩
  rw [withReturns_cons (by decide), withReturns_cons (by decide), withReturns_append]
  rfl

theorem exists_closedComment_of_withReturns (h : ClosedComment w') (hsplit : w' ++ rest' = withReturns t) :
    ∃ w rest, t = w ++ rest ∧ rest' = withReturns rest ∧ ClosedComment w := by
  obtain ⟨v', hv', rfl⟩ := h
  have hsplit : ['/', '*'] ++ (v' ++ (['*', '/'] ++ rest')) = withReturns t := by simpa using hsplit
  obtain ⟨t, rfl, htail⟩ := exists_eq_append_of_withReturns (by decide) hsplit
  obtain ⟨v, x, rfl, rfl, hx⟩ := exists_append_of_withReturns htail (.inr (by simp))
  obtain ⟨rest, rfl, rfl⟩ := exists_eq_append_of_withReturns (by decide) hx
  exact ⟨'/' :: '*' :: (v ++ ['*', '/']), rest, by simp, rfl, v, (endOfComment_infix_iff v).not.mp hv', rfl⟩

/-- What goes on to the end of a line takes up the carriage return there. -/
theorem EndsLine.exists_withReturns (h : EndsLine w rest) (htext : Tile.textOf tiles = withReturns rest)
    (ht : Tiled false tiles) : ∃ w' more, w' ++ Tile.textOf more = withReturns (w ++ rest) ∧
      EndsLine w' (Tile.textOf more) ∧ Tiled false more ∧ Tile.kinds more = Tile.kinds tiles := by
  obtain ⟨hw, hend⟩ := h
  have hline : withReturns w = w := withReturns_eq_self fun hmem => hw '\n' hmem rfl
  cases rest with
  | nil => exact ⟨w, tiles, by rw [withReturns_append, hline, htext], ⟨hw, by simp [htext]⟩, ht, rfl⟩
  | cons c rest =>
    obtain rfl : c = '\n' := hend c rfl
    rw [withReturns_newline] at htext
    obtain ⟨more, rfl, hmore, ht⟩ := ht.exists_blank htext (by decide)
    refine ⟨w ++ ['\r'], more, by simp [hline, hmore], ⟨?_, by simp [hmore]⟩, ht, rfl⟩
    simpa [or_imp, forall_and] using hw

theorem head?_withReturns_ne_newline (cs : List Char) : (withReturns cs).head? ≠ some '\n' := by
  cases cs with
  | nil => simp
  | cons c cs =>
    by_cases hc : c = '\n'
    · subst hc
      simp
    · rw [withReturns_cons hc]
      simpa using hc

/-- A carriage return in front of a line break belongs to it. -/
theorem eq_newline_of_withReturns (h : '\r' :: '\n' :: rest' = withReturns t) :
    ∃ rest, t = '\n' :: rest ∧ rest' = withReturns rest := by
  cases t with
  | nil => cases h
  | cons c t =>
    by_cases hc : c = '\n'
    · subst hc
      exact ⟨t, rfl, by simpa using h⟩
    · rw [withReturns_cons hc] at h
      obtain ⟨-, htail⟩ := List.cons.inj h
      have hhead := head?_withReturns_ne_newline t
      rw [← htail] at hhead
      exact absurd rfl hhead

theorem not_mem_of_withReturns (h : '\n' ∉ withReturns w) : '\n' ∉ w := by
  intro hmem
  obtain ⟨a, b, rfl⟩ := List.append_of_mem hmem
  exact h (by simp)

theorem EndsLine.exists_of_withReturns (h : EndsLine w' (Tile.textOf tiles))
    (hsplit : w' ++ Tile.textOf tiles = withReturns t) (ht : Tiled false tiles) : ∃ w rest more,
      t = w ++ rest ∧ EndsLine w rest ∧ Tile.textOf more = withReturns rest ∧ Tiled false more ∧
        Tile.kinds more = Tile.kinds tiles := by
  obtain ⟨hw, hend⟩ := h
  have hline {w : List Char} (hmem : ∀ c ∈ withReturns w, c ∈ w') : ∀ c ∈ w, c ≠ '\n' := by
    rintro c hc rfl
    exact not_mem_of_withReturns (fun hin => hw _ (hmem _ hin) rfl) hc
  generalize htext : Tile.textOf tiles = text at hend hsplit
  cases text with
  | nil =>
    obtain ⟨w, rest, rfl, rfl, hrest⟩ := exists_append_of_withReturns hsplit (.inr (by simp))
    obtain rfl := withReturns_eq_nil hrest.symm
    exact ⟨w, [], tiles, rfl, ⟨hline fun c hc => hc, by simp⟩, htext, ht, rfl⟩
  | cons c r =>
    obtain rfl : c = '\n' := hend c rfl
    -- The comment has taken up the carriage return of the line break behind it.
    by_cases hlast : w'.getLast? = some '\r'
    · obtain ⟨v, rfl⟩ : ∃ v, w' = v ++ ['\r'] := List.getLast?_eq_some_iff.mp hlast
      rw [List.append_assoc, List.singleton_append] at hsplit
      obtain ⟨w, rest, rfl, rfl, hrest⟩ := exists_append_of_withReturns hsplit (.inr (by simp))
      obtain ⟨rest, rfl, -⟩ := eq_newline_of_withReturns hrest
      refine ⟨w, '\n' :: rest, .gap ['\r'] :: tiles, rfl, ⟨hline fun c hc => ?_, by simp⟩, ?_, ?_, rfl⟩
      · exact List.mem_append_left _ hc
      · rw [← hrest, Tile.textOf_cons, htext]
        rfl
      · exact .gap (.blank (by decide)) ht
    · obtain ⟨w, rest, -, -, hrest⟩ := exists_append_of_withReturns hsplit (.inl hlast)
      have hhead := head?_withReturns_ne_newline rest
      rw [← hrest] at hhead
      exact absurd rfl hhead

/-- A gap of a text with carriage returns was a gap before, together with a line break that is taken apart. -/
theorem Gap.exists_of_withReturns {after : Bool} (h : Gap ls w' (Tile.textOf tiles) after)
    (hsplit : w' ++ Tile.textOf tiles = withReturns t) (ht : Tiled after tiles) : ∃ w rest after' more,
      t = w ++ rest ∧ w ≠ [] ∧ Gap ls w rest after' ∧ Tile.textOf more = withReturns rest ∧ Tiled after' more ∧
        Tile.kinds more = Tile.kinds tiles := by
  cases h with
  | @blank _ c _ hc =>
    cases t with
    | nil => cases hsplit
    | cons d t =>
      by_cases hd : d = '\n'
      · subst hd
        obtain ⟨rfl, htext⟩ : c = '\r' ∧ Tile.textOf tiles = '\n' :: withReturns t := List.cons.inj hsplit
        obtain ⟨more, rfl, hmore, ht⟩ := ht.exists_blank htext (by decide)
        exact ⟨['\n'], t, _, more, rfl, by simp, .blank (by decide), hmore, by simpa using ht, rfl⟩
      · rw [withReturns_cons hd] at hsplit
        obtain ⟨rfl, htext⟩ : c = d ∧ Tile.textOf tiles = withReturns t := List.cons.inj hsplit
        exact ⟨[c], t, _, tiles, rfl, by simp, .blank hc, htext, ht, rfl⟩
  | lineComment hw =>
    obtain ⟨t, rfl, htail⟩ := exists_eq_append_of_withReturns (w := ['/', '/']) (by decide) hsplit
    obtain ⟨w, rest, more, rfl, hw, hmore, ht, hkinds⟩ := hw.exists_of_withReturns htail ht
    exact ⟨'/' :: '/' :: w, rest, _, more, rfl, by simp, .lineComment hw, hmore, ht, hkinds⟩
  | directive hw =>
    obtain ⟨t, rfl, htail⟩ := exists_eq_append_of_withReturns (w := ['#']) (by decide) hsplit
    obtain ⟨w, rest, more, rfl, hw, hmore, ht, hkinds⟩ := hw.exists_of_withReturns htail ht
    exact ⟨'#' :: w, rest, _, more, rfl, by simp, .directive hw, hmore, ht, hkinds⟩
  | blockComment hw =>
    obtain ⟨w, rest, rfl, hrest, hw⟩ := exists_closedComment_of_withReturns hw hsplit
    refine ⟨w, rest, _, tiles, rfl, ?_, .blockComment hw, hrest, ht, rfl⟩
    obtain ⟨v, -, rfl⟩ := hw
    simp

/-! ## All tiles -/

/-- The tiles of a text with carriage returns, from those of the text. -/
theorem exists_tiled_withReturns (h : Tiled ls tiles) (hu : Tile.Unbroken tiles) : ∃ more,
    Tile.textOf more = withReturns (Tile.textOf tiles) ∧ Tiled ls more ∧ Tile.kinds more = Tile.kinds tiles := by
  induction h with
  | nil => exact ⟨[], rfl, .nil, rfl⟩
  | @token ls k w tiles hcut _ ih =>
    obtain ⟨more, htext, ht, hkinds⟩ := ih hu.2
    have hcut := (cuts_withReturns_iff (withReturns_append w (Tile.textOf tiles)).symm).mpr
      ⟨hu.1, w, _, rfl, rfl, rfl, hcut⟩
    rw [← htext] at hcut
    exact ⟨.token k (withReturns w) :: more, by simp [Tile.text, htext], .token hcut ht, by simp [Tile.kinds, hkinds]⟩
  | @gap ls after w tiles hgap _ ih =>
    obtain ⟨more, htext, ht, hkinds⟩ := ih hu
    cases hgap with
    | @blank _ c _ hc =>
      by_cases hn : c = '\n'
      · subst hn
        refine ⟨.gap ['\r'] :: .gap ['\n'] :: more, by simp [Tile.text, htext], .gap (.blank (by decide)) ?_, hkinds⟩
        refine .gap (.blank hc) ?_
        simpa using ht
      · exact ⟨.gap [c] :: more, by simp [Tile.text, withReturns_cons hn, htext], .gap (.blank hc) ht, hkinds⟩
    | @lineComment _ w _ hw =>
      obtain ⟨w', more, hmore, hw, ht, hsame⟩ := hw.exists_withReturns htext ht
      refine ⟨.gap ('/' :: '/' :: w') :: more, ?_, .gap (.lineComment hw) ht, hsame.trans hkinds⟩
      simpa [Tile.text, withReturns_cons] using hmore
    | @directive w _ hw =>
      obtain ⟨w', more, hmore, hw, ht, hsame⟩ := hw.exists_withReturns htext ht
      refine ⟨.gap ('#' :: w') :: more, ?_, .gap (.directive hw) ht, hsame.trans hkinds⟩
      simpa [Tile.text, withReturns_cons] using hmore
    | blockComment hw =>
      exact ⟨.gap (withReturns w) :: more, by simp [Tile.text, htext],
        .gap (.blockComment (closedComment_withReturns hw)) ht, hkinds⟩

/-- The tiles of a text, from those of the text with its carriage returns. -/
theorem exists_tiled_of_withReturns (h : Tiled ls tiles) (htext : Tile.textOf tiles = withReturns t) : ∃ more,
    Tile.textOf more = t ∧ Tiled ls more ∧ Tile.Unbroken more ∧ Tile.kinds more = Tile.kinds tiles := by
  -- A line comment leaves the text behind it in other tiles, so the induction is on the length of the text.
  induction hlength : t.length using Nat.strongRecOn generalizing ls tiles t with
  | ind n ih =>
    cases h with
    | nil =>
      obtain rfl := withReturns_eq_nil htext.symm
      exact ⟨[], rfl, .nil, trivial, rfl⟩
    | @token _ k w' tiles hcut ht =>
      obtain ⟨hescapes, w, rest, rfl, -, htext, hcut⟩ := (cuts_withReturns_iff htext).mp hcut
      have hlt : rest.length < n := by
        obtain ⟨c, v, rfl, -⟩ := hcut.read
        simp at hlength
        omega
      obtain ⟨more, rfl, ht, hu, hkinds⟩ := ih rest.length hlt ht htext rfl
      exact ⟨.token k w :: more, rfl, .token hcut ht, ⟨hescapes, hu⟩, by simp [Tile.kinds, hkinds]⟩
    | gap hgap ht =>
      obtain ⟨w, rest, after, more, rfl, hne, hgap, hmore, ht, hsame⟩ := hgap.exists_of_withReturns htext ht
      have hlt : rest.length < n := by
        have hpos := List.length_pos_of_ne_nil hne
        simp at hlength
        omega
      obtain ⟨more, rfl, ht, hu, hkinds⟩ := ih rest.length hlt ht hmore rfl
      exact ⟨.gap w :: more, rfl, .gap hgap ht, hu, hkinds.trans hsame⟩

/-! ## Whole texts -/

/-- The text with its carriage returns. -/
def returned (source : String) : String := String.ofList (withReturns source.toList)

/-- A literal of the text has an escape at the end of a line. -/
def EscapesLineBreak (source : String) : Prop :=
  ∃ ts t before text, lex source = .ok ts ∧ t ∈ ts ∧ source.toList = before ++ text ∧
    t.span.start = byteLength before ∧ t.kind.escapesLineBreak text = true

/-- The text proper begins behind the byte-order mark as before. -/
theorem textStart_withReturns (cs : List Char) :
    textStart (withReturns cs) = ⟨(textStart cs).offset, withReturns (textStart cs).rest⟩ := by
  by_cases hmark : cs.head? = some '\ufeff'
  · obtain ⟨cs, rfl⟩ := List.head?_eq_some_iff.mp hmark
    rw [withReturns_cons (by decide)]
    rfl
  · have hstill : (withReturns cs).head? ≠ some '\ufeff' := (head?_withReturns (by decide) cs).not.mpr hmark
    rw [textStart_eq hmark, textStart_eq hstill]

theorem unbroken_iff : Tile.Unbroken tiles ↔ ∀ a k w b, tiles = a ++ .token k w :: b →
    k.escapesLineBreak (w ++ Tile.textOf b) = false := by
  constructor
  · intro h a k w b htiles
    subst htiles
    induction a with
    | nil => exact h.1
    | cons x a ih =>
      cases x with
      | token => exact ih h.2
      | gap => exact ih h
  · intro h
    induction tiles with
    | nil => trivial
    | cons x tiles ih =>
      have hmore := ih fun a k w b htiles => h (x :: a) k w b (by rw [htiles, List.cons_append])
      cases x with
      | token k w => exact ⟨h [] k w tiles rfl, hmore⟩
      | gap => exact hmore

/-- Whether a text has the exception is seen by its tiles. -/
theorem escapesLineBreak_iff {source : String} {mark : List Char} (hsource : source.toList = mark ++ Tile.textOf tiles)
    (hlex : lex source = .ok (Tile.stream (byteLength mark) tiles)) :
    EscapesLineBreak source ↔ ¬ Tile.Unbroken tiles := by
  rw [unbroken_iff]
  constructor
  · rintro ⟨ts, t, before, text, hts, hmem, htext, hstart, hescapes⟩ hall
    obtain rfl := Except.ok.inj (hlex.symm.trans hts)
    rcases List.mem_append.mp hmem with hmem | hmem
    · obtain ⟨a, w, b, rfl, hspan⟩ := Tile.exists_of_mem_tokens hmem
      have hsame : before ++ text = (mark ++ Tile.textOf a) ++ (w ++ Tile.textOf b) := by
        rw [← htext, hsource]
        simp [Tile.text]
      have hsize : byteLength before = byteLength (mark ++ Tile.textOf a) := by
        rw [← hstart, hspan, Text.byteLength_append]
      have hback := Text.splitAtByte?_append_right before text
      rw [hsame, hsize, Text.splitAtByte?_append_right] at hback
      obtain ⟨-, rfl⟩ := Prod.mk.inj (Option.some.inj hback)
      rw [hall a t.kind w b rfl] at hescapes
      cases hescapes
    · obtain rfl := List.mem_singleton.mp hmem
      cases hescapes
  · intro hnot
    simp only [not_forall] at hnot
    obtain ⟨a, k, w, b, rfl, hescapes⟩ := hnot
    refine ⟨_, ⟨k, ⟨byteLength mark + byteLength (Tile.textOf a), byteLength mark + byteLength (Tile.textOf a) +
      byteLength w⟩⟩, mark ++ Tile.textOf a, w ++ Tile.textOf b, hlex, ?_, ?_, ?_, by simpa using hescapes⟩
    · rw [Tile.stream, Tile.tokens_append]
      simp [Tile.tokens]
    · rw [hsource]
      simp [Tile.text]
    · rw [Text.byteLength_append]

/-- With its carriage returns, a text is read where it is read and has no escape at the end of a line, and as the same
tokens but for their places. -/
theorem exists_lex_returned_iff (source : String) (ks : List TokenKind) :
    (∃ us, lex (returned source) = .ok us ∧ us.map Token.kind = ks) ↔
      (∃ ts, lex source = .ok ts ∧ ts.map Token.kind = ks) ∧ ¬ EscapesLineBreak source := by
  obtain ⟨mark, cs, -, hcs, hstart⟩ := exists_textStart source.toList
  have hreturned : textStart (returned source).toList = ⟨byteLength mark, withReturns cs⟩ := by
    rw [returned, String.toList_ofList, textStart_withReturns, hstart]
  simp only [lex_eq_ok_iff, hreturned]
  constructor
  · rintro ⟨us, ⟨tiles, htiles, ht, rfl⟩, rfl⟩
    obtain ⟨more, rfl, hm, hu, hkinds⟩ := exists_tiled_of_withReturns ht htiles.symm
    have hlex : lex source = .ok (Tile.stream (byteLength mark) more) :=
      lex_eq_ok_iff.mpr ⟨more, by rw [hstart], hm, by rw [hstart]⟩
    refine ⟨⟨_, ⟨more, by rw [hstart], hm, rfl⟩, ?_⟩, ?_⟩
    · rw [Tile.map_kind_stream, Tile.map_kind_stream, hkinds]
    · rw [escapesLineBreak_iff hcs hlex]
      exact not_not_intro hu
  · rintro ⟨⟨ts, ⟨tiles, htiles, ht, rfl⟩, rfl⟩, hnot⟩
    rw [hstart] at htiles
    obtain rfl : cs = Tile.textOf tiles := htiles
    have hlex : lex source = .ok (Tile.stream (byteLength mark) tiles) :=
      lex_eq_ok_iff.mpr ⟨tiles, by rw [hstart], ht, by rw [hstart]⟩
    rw [escapesLineBreak_iff hcs hlex, Classical.not_not] at hnot
    obtain ⟨more, hmore, hm, hkinds⟩ := exists_tiled_withReturns ht hnot
    refine ⟨_, ⟨more, hmore.symm, hm, rfl⟩, ?_⟩
    rw [Tile.map_kind_stream, Tile.map_kind_stream, hkinds]

end TestScaffold
