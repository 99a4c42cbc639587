import TestScaffold.Declaration.Reader
import TestScaffold.Proofs.Token.Faults

/-!
# Where the faults of a text are reported

A fault is put at a token, at the delimiter that was opened, or at the stretch from one token to another. What holds of
the places of all tokens, and of the smallest stretch around two such places, therefore holds of all reports. Every
report fits its text, and can be shown with the line it is about.

Results:
* `Span.Spreads`: what holds of a stretch around two places where it holds of these.
* `Step.Keeps`: pieces of reading that report faults only at such places; chains of them are no different.
* `Reader.keeps_item`, `Reader.keeps_readFrom`, `Reader.keeps_ofLevels`: everything that reading reports.
* `DeclarationTree.shown_of_ofSource_error`: every report on a rejected text fits the text and can be shown.
-/

namespace TestScaffold

open Token (front)

/-! ## Places that reading spreads -/

/-- What holds of the beginning of a text and, with two places, of the smallest stretch around them. -/
structure Span.Spreads (p : Span → Prop) : Prop where
  zero : p .zero
  merge : ∀ {a b}, p a → p b → p (a.merge b)

/-- Whether `p` holds of the places of all tokens. -/
def Token.AllAt (p : Span → Prop) (ts : List Token) : Prop := ∀ t ∈ ts, p t.span

open Token (AllAt)

section AllAt

variable {p : Span → Prop} {ts us : List Token}

theorem Token.AllAt.of_suffix (h : AllAt p ts) (hs : us <:+ ts) : AllAt p us := fun t ht => h t (hs.subset ht)

theorem Token.AllAt.tail (h : AllAt p ts) : AllAt p ts.tail := h.of_suffix (List.tail_suffix ts)

theorem Token.AllAt.front (hp : Span.Spreads p) (h : AllAt p ts) : p (front ts).span := by
  cases ts with
  | nil => exact hp.zero
  | cons t ts => exact h t List.mem_cons_self

end AllAt

/-! ## Pieces of reading -/

/-- A piece of reading reports a fault only at a place where `p` holds, yields only what satisfies `q`, and leaves only
tokens at places where `p` holds. -/
structure Step.Keeps {α : Type} (p : Span → Prop) (q : α → Prop) (s : Step α) : Prop where
  ok : ∀ a, s.result = .ok a → q a
  error : ∀ d, s.result = .error d → p d.span
  rest : AllAt p s.rest

namespace Step

variable {α β : Type} {p : Span → Prop} {q : α → Prop} {r : β → Prop} {ts : List Token}

theorem keeps_done {a : α} (ha : q a) (h : AllAt p ts) : (done a ts).Keeps p q := by
  refine ⟨fun b hb => ?_, fun d hd => ?_, h⟩
  · cases hb
    exact ha
  · cases hd

theorem keeps_fail {f : Fault} {s : Span} (hs : p s) (h : AllAt p ts) : (fail f s ts : Step α).Keeps p q := by
  refine ⟨fun a ha => ?_, fun d hd => ?_, h⟩
  · cases ha
  · cases hd
    exact hs

theorem keeps_failExpecting (hp : Span.Spreads p) {what : Expectation} (h : AllAt p ts) :
    (failExpecting what ts : Step α).Keeps p q := keeps_fail (h.front hp) h

/-- A fault is passed on. -/
theorem Keeps.fails {s : Step α} (h : s.Keeps p q) {d : Diagnostic} (hd : s.result = .error d) :
    (⟨.error d, s.rest⟩ : Step β).Keeps p r := by
  refine ⟨fun b hb => ?_, fun e he => ?_, h.rest⟩
  · cases hb
  · cases he
    exact h.error d hd

/-- A chain of reading keeps what both of its parts keep. -/
theorem Keeps.andThen {s : Step α} {next : α → List Token → Step β} (h : s.Keeps p q)
    (hn : ∀ a us, q a → AllAt p us → (next a us).Keeps p r) : (s.andThen next).Keeps p r := by
  unfold Step.andThen
  split
  · next a ha => exact hn a s.rest (h.ok a ha) h.rest
  · next d hd => exact h.fails hd

theorem keeps_name (hp : Span.Spreads p) {what : Expectation} (h : AllAt p ts) :
    (name what ts).Keeps p fun _ => True := by
  unfold name
  split
  · exact keeps_done trivial h.tail
  · exact keeps_failExpecting hp h

end Step

open Step (Keeps keeps_done keeps_fail keeps_failExpecting)

variable {p : Span → Prop}

/-! ## Groups and passages -/

namespace Nesting

/-- Reading on to the end of a group reports faults at its tokens or at its open delimiters. -/
theorem keeps_closeAll (hp : Span.Spreads p) {angles : Bool} {first : Span} {d : Open} {outer : List Open}
    {ts : List Token} (hf : p first) (hd : p d.span) (ho : ∀ e ∈ outer, p e.span) (h : AllAt p ts) :
    (closeAll angles first d outer ts).Keeps p p := by
  fun_induction closeAll angles first d outer ts with
  | case1 d outer => exact keeps_fail hd h
  | case2 d outer t ts => exact keeps_fail hd h
  | case3 d t ts q hk he => exact keeps_done (hp.merge hf (h t List.mem_cons_self)) h.tail
  | case4 d t ts q hk he e es ih =>
    exact ih (ho e List.mem_cons_self) (fun o hmem => ho o (List.mem_cons_of_mem e hmem)) h.tail
  | case5 d outer t ts q hk closer he ih =>
    exact ih (h t List.mem_cons_self) (fun o hmem => (List.mem_cons.mp hmem).elim (fun heq => heq ▸ hd) (ho o)) h.tail
  | case6 d outer t ts q hk he => exact keeps_fail (h t List.mem_cons_self) h.tail
  | case7 d outer t ts q hk he ih => exact ih hd ho h.tail
  | case8 d outer t ts h₁ h₂ ih => exact ih hd ho h.tail

theorem keeps_skipGroup (hp : Span.Spreads p) {ts : List Token} (h : AllAt p ts) : (skipGroup ts).Keeps p p := by
  unfold skipGroup
  split
  · next d hd =>
    have hspan : d.span = (front ts).span := by
      obtain ⟨q, -, hq⟩ := Option.bind_eq_some_iff.mp hd
      obtain ⟨closer, -, rfl⟩ := Option.map_eq_some_iff.mp hq
      rfl
    rw [hspan]
    exact keeps_closeAll hp (h.front hp) (hspan ▸ h.front hp) (by simp) h.tail
  · refine keeps_fail (h.front hp) ?_
    split
    · exact h
    · exact h.tail

theorem keeps_skipUntil (hp : Span.Spreads p) {stops : Punctuation → Bool} {angles : Bool} {ts : List Token}
    (h : AllAt p ts) : (skipUntil stops angles ts).Keeps p fun _ => True := by
  fun_induction skipUntil stops angles ts with
  | case1 ts hs => exact keeps_done trivial h
  | case2 ts hs hg s a ha ih => exact ih (keeps_skipGroup hp h).rest
  | case3 ts hs hg s d hd => exact (keeps_skipGroup hp h).fails hd
  | case4 ts hs hg ih => exact ih h.tail

theorem keeps_skipToSemicolon (hp : Span.Spreads p) {ts : List Token} (h : AllAt p ts) :
    (skipToSemicolon ts).Keeps p p := by
  refine (keeps_skipUntil hp h).andThen fun _ us _ hus => ?_
  split
  · exact keeps_done (hp.merge (h.front hp) (hus.front hp)) hus.tail
  · exact keeps_failExpecting hp hus

end Nesting

open Nesting (keeps_skipGroup keeps_skipUntil keeps_skipToSemicolon)

/-! ## Members -/

theorem Head.keeps_read (hp : Span.Spreads p) {h : Head} {ts : List Token} (hts : AllAt p ts) :
    (h.read ts).Keeps p fun _ => True := by
  fun_induction Head.read h ts with
  | case1 h ts => exact keeps_failExpecting hp hts
  | case2 h ts hb ht => exact keeps_done trivial hts
  | case3 h ts hb ht s a ha ih => exact ih (keeps_skipGroup hp hts).rest
  | case4 h ts hb ht s d hd => exact (keeps_skipGroup hp hts).fails hd
  | case5 h ts hb ht ih => exact ih hts.tail
  | case6 h ts hb ht ih => exact ih hts.tail

namespace Member

variable {ts : List Token}

theorem keeps_methodRest (hp : Span.Spreads p) (h : AllAt p ts) : (methodRest ts).Keeps p p := by
  refine (keeps_skipGroup hp h).andThen fun parameters us hparameters hus => ?_
  refine (keeps_skipUntil hp hus).andThen fun _ vs _ hvs => ?_
  have merged {body : Span} {ws : List Token} (hbody : p body) (hws : AllAt p ws) :
      (Step.done (parameters.merge body) ws).Keeps p p := keeps_done (hp.merge hparameters hbody) hws
  split
  · exact (keeps_skipGroup hp hvs).andThen fun _ _ => merged
  · split
    · exact (keeps_skipToSemicolon hp hvs).andThen fun _ _ => merged
    · exact keeps_failExpecting hp hvs

theorem keeps_propertyRest (hp : Span.Spreads p) (h : AllAt p ts) : (propertyRest ts).Keeps p p := by
  refine (keeps_skipGroup hp h).andThen fun accessors us haccessors hus => ?_
  split
  · exact (keeps_skipToSemicolon hp hus).andThen fun _ _ hvalue hvs => keeps_done (hp.merge haccessors hvalue) hvs
  · exact keeps_done haccessors hus

theorem keeps_rest (hp : Span.Spreads p) (h : AllAt p ts) : (rest ts).Keeps p p := by
  unfold rest
  split
  · exact keeps_methodRest hp h
  · split
    · exact keeps_propertyRest hp h
    · exact keeps_skipToSemicolon hp h

theorem keeps_read (hp : Span.Spreads p) {typeName : String} {mods : List Keyword} {start : Span}
    {forced : Option DeclarationKind} (hstart : p start) (h : AllAt p ts) :
    (read typeName mods start forced ts).Keeps p fun _ => True := by
  refine (Head.keeps_read hp h).andThen fun head us _ hus => ?_
  split
  · exact keeps_fail (hp.merge hstart (hus.front hp)) hus
  · exact (keeps_rest hp hus).andThen fun _ _ _ hvs => keeps_done trivial hvs

end Member

/-! ## Declarations -/

/-- Whether all that was found amiss is reported at places where `p` holds. -/
def Found.ReportsAt (p : Span → Prop) (f : Found) : Prop := ∀ d ∈ f.problems.toList, p d.span

namespace Found.ReportsAt

theorem empty {ds : Array Declaration} : ReportsAt p { declarations := ds } := by
  intro d hd
  cases hd

theorem append {a b : Found} (ha : a.ReportsAt p) (hb : b.ReportsAt p) : (a.append b).ReportsAt p := by
  intro d hd
  rw [Found.append, Array.toList_append] at hd
  exact (List.mem_append.mp hd).elim (ha d) (hb d)

theorem report {a : Found} (ha : a.ReportsAt p) {d : Diagnostic} (hd : p d.span) : (a.report d).ReportsAt p := by
  intro e he
  rw [Found.report, Array.toList_push] at he
  exact (List.mem_append.mp he).elim (ha e) fun h => by rwa [List.mem_singleton.mp h]

end Found.ReportsAt

namespace Reader

/-- Whether a reader reports faults only at places where `p` holds, and leaves only tokens at such places. -/
def Keeps (p : Span → Prop) (reader : Reader) : Prop := ∀ scope braced owner ts, AllAt p ts →
  (reader.read scope braced owner ts).found.ReportsAt p ∧ AllAt p (reader.read scope braced owner ts).rest

variable {inner : Option Reader} {scope : Scope} {owner : String} {ts : List Token}

theorem keeps_dottedName (hp : Span.Spreads p) {name : String} (h : AllAt p ts) :
    (dottedName name ts).Keeps p fun _ => True := by
  fun_induction dottedName name ts with
  | case1 name ts hm n hn ih => exact ih h.tail.tail
  | case2 name ts => exact keeps_failExpecting hp h.tail
  | case3 name ts => exact keeps_done trivial h

theorem keeps_qualifiedName (hp : Span.Spreads p) (h : AllAt p ts) : (qualifiedName ts).Keeps p fun _ => True :=
  (Step.keeps_name hp h).andThen fun _ _ _ hus => keeps_dottedName hp hus

theorem keeps_skipAttributes (hp : Span.Spreads p) (h : AllAt p ts) : (skipAttributes ts).Keeps p fun _ => True := by
  fun_induction skipAttributes ts with
  | case1 ts hm s a ha ih => exact ih (keeps_skipGroup hp h).rest
  | case2 ts hm s d hd => exact (keeps_skipGroup hp h).fails hd
  | case3 ts => exact keeps_done trivial h

/-- A body that never closes is reported where it opens. -/
theorem keeps_inBraces (hp : Span.Spreads p) {reader : Reader} (hk : reader.Keeps p) (h : AllAt p ts) :
    (inBraces reader scope owner ts).Keeps p fun x => x.1.ReportsAt p := by
  obtain ⟨hfound, hrest⟩ := hk scope true owner ts.tail h.tail
  unfold inBraces
  simp only
  split
  · exact keeps_done hfound hrest.tail
  · exact keeps_done (hfound.report (h.front hp)) hrest

theorem keeps_namespaceDeclaration (hp : Span.Spreads p) (hk : ∀ reader ∈ inner, reader.Keeps p) {start : Span}
    (h : AllAt p ts) : (namespaceDeclaration inner scope start ts).Keeps p (Found.ReportsAt p) := by
  refine (keeps_qualifiedName hp h.tail).andThen fun name us _ hus => ?_
  split
  · exact keeps_fail (hus.front hp) hus.tail
  · cases inner with
    | none => exact keeps_fail (hus.front hp) hus
    | some reader =>
      simp only
      split
      · obtain ⟨hfound, hrest⟩ := hk reader rfl .namespaceBody false name us.tail hus.tail
        exact keeps_done hfound hrest
      · split
        · refine (keeps_inBraces hp (hk reader rfl) hus).andThen fun _ vs hfound hvs => ?_
          exact keeps_done hfound (hvs.of_suffix (Token.skipMark_suffix _ vs))
        · exact keeps_failExpecting hp hus

theorem keeps_typeBody (hp : Span.Spreads p) (hk : ∀ reader ∈ inner, reader.Keeps p) {kind : TypeKind}
    {name : String} (h : AllAt p ts) : (typeBody inner kind name ts).Keeps p fun x => x.1.ReportsAt p := by
  unfold typeBody
  split
  · exact (keeps_skipGroup hp h).andThen fun _ _ _ hus => keeps_done .empty hus
  · cases inner with
    | none => exact keeps_fail (h.front hp) h
    | some reader => exact keeps_inBraces hp (hk reader rfl) h

theorem keeps_typeDeclaration (hp : Span.Spreads p) (hk : ∀ reader ∈ inner, reader.Keeps p) {kind : TypeKind}
    {mods : List Keyword} {start : Span} (h : AllAt p ts) :
    (typeDeclaration inner kind mods start ts).Keeps p (Found.ReportsAt p) := by
  refine (Step.keeps_name hp h.tail).andThen fun name us _ hus => ?_
  refine (keeps_skipUntil hp hus).andThen fun _ vs _ hvs => ?_
  split
  · exact keeps_done .empty hvs.tail
  · split
    · refine (keeps_typeBody hp hk hvs).andThen fun _ ws hfound hws => ?_
      exact keeps_done hfound (hws.of_suffix (Token.skipMark_suffix _ ws))
    · exact keeps_failExpecting hp hvs

theorem keeps_member (hp : Span.Spreads p) {mods : List Keyword} {start : Span} {forced : Option DeclarationKind}
    (hstart : p start) (h : AllAt p ts) : (member owner mods start forced ts).Keeps p (Found.ReportsAt p) :=
  (Member.keeps_read hp hstart h).andThen fun _ _ _ hus => keeps_done .empty hus

theorem keeps_declaration (hp : Span.Spreads p) (hk : ∀ reader ∈ inner, reader.Keeps p) {mods : List Keyword}
    {start : Span} (hstart : p start) (h : AllAt p ts) :
    (declaration inner scope owner mods start ts).Keeps p (Found.ReportsAt p) := by
  unfold declaration
  split
  · exact keeps_typeDeclaration hp hk h
  · split
    · split
      · exact keeps_typeDeclaration hp hk h.tail
      · exact keeps_typeDeclaration hp hk h
    · split
      · exact keeps_namespaceDeclaration hp hk h
      · split
        · exact keeps_member hp hstart h.tail
        · split
          · exact keeps_member hp hstart h
          · exact keeps_failExpecting hp h

theorem keeps_item (hp : Span.Spreads p) (hk : ∀ reader ∈ inner, reader.Keeps p) (h : AllAt p ts) :
    (item inner scope owner ts).Keeps p (Found.ReportsAt p) := by
  unfold item
  split
  · exact (keeps_skipToSemicolon hp h).andThen fun _ _ _ hus => keeps_done .empty hus
  · refine (keeps_skipAttributes hp h).andThen fun _ us _ hus => ?_
    split
    · exact keeps_done .empty hus
    · exact keeps_declaration hp hk (hus.front hp) (hus.of_suffix (modifiers_suffix us))

/-! ## Lists and texts -/

/-- Reading a list on reports what is amiss in it at places where `p` holds. -/
theorem keeps_readFrom (hp : Span.Spreads p) (hk : ∀ reader ∈ inner, reader.Keeps p) {braced : Bool} {found : Found}
    (hf : found.ReportsAt p) (h : AllAt p ts) :
    (readFrom inner scope braced owner found ts).found.ReportsAt p ∧
      AllAt p (readFrom inner scope braced owner found ts).rest := by
  fun_induction readFrom inner scope braced owner found ts with
  | case1 found ts => exact ⟨hf, h⟩
  | case2 found ts => exact ⟨hf, h⟩
  | case3 found ts hend hb hbraced ih => exact ih (hf.report (h.front hp)) h.tail
  | case4 found ts hend hb s x hs ih =>
    have hitem : s.Keeps p (Found.ReportsAt p) := keeps_item hp hk h
    exact ih (hf.append (hitem.ok x hs)) hitem.rest
  | case5 found ts hend hb s d hs ih =>
    have hitem : s.Keeps p (Found.ReportsAt p) := keeps_item hp hk h
    exact ih (hf.report (hitem.error d hs)) (hitem.rest.of_suffix (Nesting.recover_suffix s.rest))

theorem keeps_ofLevels (hp : Span.Spreads p) (levels : Nat) : (ofLevels levels).Keeps p := by
  induction levels with
  | zero =>
    intro scope braced owner ts h
    exact keeps_readFrom hp (by simp) .empty h
  | succ levels ih =>
    intro scope braced owner ts h
    exact keeps_readFrom hp (by simpa using ih) .empty h

end Reader

namespace DeclarationTree

theorem reportsAt_of_ofTokens_error (hp : Span.Spreads p) {ts : List Token} {ds : List Diagnostic} (h : AllAt p ts)
    (he : ofTokens ts = .error ds) : ∀ d ∈ ds, p d.span := by
  obtain ⟨hfound, -⟩ := Reader.keeps_ofLevels hp maxNesting .text false "" ts h
  unfold ofTokens readDeclarations at he
  simp only at he
  split at he
  · cases he
  · cases he
    exact hfound

/-- Every report on a rejected text is put at a stretch of the text that cuts none of its characters, and can be shown
with the line it is about, whatever the file is called. -/
theorem shown_of_ofSource_error {source : String} {ds : List Diagnostic} (h : ofSource source = .error ds)
    {d : Diagnostic} (hd : d ∈ ds) :
    d.span.Fits source.toList ∧ ∀ file, ∃ text, d.render? file source = some text := by
  have hfits : d.span.Fits source.toList := by
    unfold ofSource at h
    cases hlex : lex source with
    | error es =>
      rw [hlex] at h
      obtain rfl : es = ds := Except.error.inj h
      exact fits_of_lex_error hlex d hd
    | ok ts =>
      rw [hlex] at h
      exact reportsAt_of_ofTokens_error ⟨Span.fits_zero _, Span.Fits.merge⟩ (fits_of_lex hlex) h d hd
  exact ⟨hfits, Diagnostic.exists_render? hfits⟩

/-- A string that is left open in a hole of another string, behind a letter of two bytes. -/
theorem shown_openString : ∃ d, ofSource "\u00e9 = $\"a\x7b\"b\u00e9" = .error [d] ∧ d ∈ [d] ∧ d.span = ⟨9, 13⟩ ∧
    d.span.Fits "\u00e9 = $\"a\x7b\"b\u00e9".toList ∧
      ∀ file, ∃ text, d.render? file "\u00e9 = $\"a\x7b\"b\u00e9" = some text := by
  have hread : (match ofSource "\u00e9 = $\"a\x7b\"b\u00e9" with
      | .ok _ => []
      | .error ds => ds) = [Fault.unterminatedString.report ⟨9, 13⟩] := by decide +kernel
  cases h : ofSource "\u00e9 = $\"a\x7b\"b\u00e9" with
  | ok t =>
    rw [h] at hread
    cases hread
  | error ds =>
    rw [h] at hread
    obtain rfl : ds = _ := hread
    have hd := List.mem_singleton_self (Fault.unterminatedString.report ⟨9, 13⟩)
    exact ⟨_, rfl, hd, rfl, shown_of_ofSource_error h hd⟩

end DeclarationTree

end TestScaffold
