import TestScaffold.Proofs.Reading.ContextualNames
import TestScaffold.Proofs.Reading.Surroundings
import TestScaffold.Proofs.TestUnit.Namespaces

/-!
# Structures that are marked `ref`

The word `ref` in front of `struct` changes nothing about the structure, whatever modifiers stand in front of it.

**Deviation.** The word is passed nowhere else. In front of a modifier of the structure, as in `ref partial struct`, it
ends the modifiers, and what begins with it is read as no structure: outside of types it is refused, and in a type it is
read as a member.

Results:
* `Reader.Site.StructAt`: a structure among the items of a list, and where a word may be put among its modifiers.
* `Reader.Items.Begins.exists_struct`: the tokens of a structure, and what is read of them.
* `DeclarationTree.refStruct_of_ofTokens`: `ref` among the modifiers of a structure changes nothing but places exactly
  where it stands directly in front of `struct`.
-/

namespace TestScaffold

open Token (front second atEnd atMark atKeyword atBodyEnd)
open Token (AttributeLists Plugs)
open Written (Modifier bare modifierTokens modifierKeywords)

namespace Reader

/-- A structure stands here. Its modifiers end with `back`, and none of them is the word `ref`. -/
def Site.StructAt (s : Site) (back : List Token) : Prop :=
  s.form? = some (.type .structType s.heading) ∧
    ∃ words, (skipAttributes s.tokens).rest = words ++ (back ++ s.heading) ∧
      ∀ w ∈ words ++ back, w.kind ≠ .identifier "ref"

/-! ## Words in front of a structure -/

section

variable {scope : Scope} {owner name : String} {mods : List Keyword} {start : Span} {ts us rest : List Token}
  {inner : Option Reader} {r : Token} {x : Found}

theorem exists_modifierTokens (h : ∀ t ∈ ts, IsModifier t) (href : ∀ t ∈ ts, t.kind ≠ .identifier "ref") :
    ∃ ms, ts.map Token.kind = modifierTokens ms := by
  induction ts with
  | nil => exact ⟨[], rfl⟩
  | cons t ts ih =>
    rw [List.forall_mem_cons] at h href
    obtain ⟨ms, hms⟩ := ih h.2 href.2
    obtain ⟨k, hk, hmodifier⟩ := h.1.resolve_right href.1
    exact ⟨⟨k, hmodifier⟩ :: ms, by rw [List.map_cons, hms, hk]; rfl⟩

theorem typeKind?_eq_struct {k : Keyword} (h : typeKind? k = some .structType) : k = .structKw := by
  cases k <;> first | rfl | cases h

/-- Only the word `struct` introduces a structure. -/
theorem kind_of_form_struct (h : form scope mods ts = .type .structType us) :
    (front ts).kind = .keyword .structKw := by
  unfold form at h
  cases hk : (front ts).kind.keyword?.bind typeKind? with
  | some kind =>
    rw [hk] at h
    obtain rfl : kind = .structType := (Form.type.inj h).1
    obtain ⟨k, hkeyword, hkind⟩ := Option.bind_eq_some_iff.mp hk
    obtain rfl := typeKind?_eq_struct hkind
    cases hfront : (front ts).kind with
    | keyword k =>
      rw [hfront] at hkeyword
      exact congrArg TokenKind.keyword (Option.some.inj hkeyword)
    | _ =>
      rw [hfront] at hkeyword
      cases hkeyword
  | none =>
    rw [hk] at h
    dsimp only at h
    split at h
    · cases h
    · split at h
      · cases h
      · split at h
        · cases h
        · split at h <;> cases h

theorem exists_eq_of_typeDeclaration {kind : TypeKind} (h : (typeDeclaration inner kind mods start ts).result = .ok x) :
    ∃ d, x.declarations = #[d] ∧ d.kind = .type kind := by
  obtain ⟨-, -, he⟩ := typeDeclaration_cases h
  rw [he] at h
  unfold typeEnd at h
  split at h
  · cases h
    exact ⟨_, rfl, rfl⟩
  · split at h
    · obtain ⟨⟨found, stop⟩, -, he⟩ := Step.andThen_eq_ok h
      rw [he] at h
      cases h
      exact ⟨_, rfl, rfl⟩
    · cases h

/-- A word in front of other tokens takes their place, if these go on before the end of the text. -/
theorem plugs_insert (hr : r.kind = .identifier name) (hrest : ¬ atEnd rest = true) (before : List Token) :
    Plugs (before ++ r :: rest) (before ++ rest) := by
  refine Plugs.append ⟨?_, .inr (by simp [Token.Follows, atMark, front, hr])⟩ before
  obtain ⟨hcons, hkind⟩ := Token.exists_cons hrest
  rw [hcons, Token.EndsAlike]
  simp [hr, hkind]

theorem not_atBodyEnd_insert (hr : r.kind = .identifier name) {before : List Token}
    (h : ¬ atBodyEnd (before ++ rest) = true) : ¬ atBodyEnd (before ++ r :: rest) = true := by
  cases before with
  | nil => simp [atBodyEnd, atEnd, atMark, front, hr]
  | cons t before => exact h

/-- The word `ref` is passed in front of `struct`. -/
theorem item_refStruct {attributes words : List Token} {ms : List Modifier} (inner : Option Reader) (scope : Scope)
    (owner : String) (lists : AttributeLists (attributes.map Token.kind))
    (hwords : words.map Token.kind = modifierTokens ms) (hr : r.kind = .identifier "ref")
    (hstruct : (front rest).kind = .keyword .structKw) (hspan : r.span = (front rest).span) :
    item inner scope owner (attributes ++ (words ++ r :: rest)) =
      item inner scope owner (attributes ++ (words ++ rest)) := by
  have hb : BeginsDeclaration (front rest).kind := ⟨.structKw, hstruct, by decide, by decide⟩
  have hmodifier := isModifier_of_map_eq hwords
  have hp : ∀ t ∈ words ++ [r], IsModifier t := by
    intro t ht
    rcases List.mem_append.mp ht with ht | ht
    · exact hmodifier t ht
    · exact .inr (List.mem_singleton.mp ht ▸ hr)
  have hmods : modifiers (r :: rest) = modifiers rest := by
    rw [modifiers, hr]
    simp [atKeyword, hstruct]
  have hstart : (front (words ++ r :: rest)).span = (front (words ++ rest)).span := by
    cases words with
    | nil => exact hspan
    | cons t words => rfl
  have hitem := item_of_beginsDeclaration inner scope owner lists hp hb
  rw [List.append_assoc, List.singleton_append] at hitem
  rw [hitem, item_of_beginsDeclaration inner scope owner lists hmodifier hb, modifiers_append hwords,
    modifiers_append hwords, hmods, hstart]

/-- In front of a modifier it is not passed, and what begins with it is read as a member or not at all. -/
theorem item_refModifier {attributes words back : List Token} {ms ns : List Modifier} (inner : Option Reader)
    (scope : Scope) (owner : String) (lists : AttributeLists (attributes.map Token.kind))
    (hwords : words.map Token.kind = modifierTokens ms) (hback : back.map Token.kind = modifierTokens ns)
    (hne : back ≠ []) (hr : r.kind = .identifier "ref") (hstruct : (front rest).kind = .keyword .structKw) :
    item inner scope owner (attributes ++ (words ++ r :: (back ++ rest))) =
      if scope == .typeBody then
        member owner (modifierKeywords ms) (front (words ++ r :: (back ++ rest))).span none (r :: (back ++ rest))
      else .failExpecting .declaration (r :: (back ++ rest)) := by
  have hb : BeginsDeclaration (front rest).kind := ⟨.structKw, hstruct, by decide, by decide⟩
  have hp : ∀ t ∈ words ++ r :: back, IsModifier t := by
    intro t ht
    rcases List.mem_append.mp ht with ht | ht
    · exact isModifier_of_map_eq hwords t ht
    · rcases List.mem_cons.mp ht with rfl | ht
      · exact .inr hr
      · exact isModifier_of_map_eq hback t ht
  have hword (k : Keyword) : (front (r :: (back ++ rest))).kind ≠ .keyword k := by simp [front, hr]
  -- No modifier is the word `struct`, in front of which `ref` would be passed.
  have hsecond : (second (r :: (back ++ rest))).kind ≠ .keyword .structKw := by
    cases back with
    | nil => exact absurd rfl hne
    | cons b back =>
      intro hb
      have hb : b.kind = .keyword .structKw := hb
      rcases isModifier_of_map_eq hback b List.mem_cons_self with ⟨k, hk, hmodifier⟩ | hk
      · obtain rfl : k = .structKw := TokenKind.keyword.inj (hk.symm.trans hb)
        cases hmodifier
      · rw [hb] at hk
        cases hk
  have hmods : modifiers (r :: (back ++ rest)) = ([], r :: (back ++ rest)) :=
    modifiers_eq_nil (fun k hk => absurd hk (hword k)) fun _ => hsecond
  have hform (mods : List Keyword) : form scope mods (r :: (back ++ rest)) =
      if scope == .typeBody then .member none (r :: (back ++ rest)) else .unknown (r :: (back ++ rest)) :=
    form_of_plain scope mods (fun k hk => absurd hk (hword k)) (by simp [atRecord, atKeyword, front, hr])
  have hitem := item_of_beginsDeclaration inner scope owner lists hp hb
  rw [List.append_assoc, List.cons_append, modifiers_append hwords, hmods, List.append_nil,
    declaration_eq_form, hform] at hitem
  rw [hitem]
  split <;> rfl

end

namespace Items

variable {c e : Items} {levels m : Nat} {x : Found} {s : Site} {back before : List Token} {r : Token}

/-- The tokens of a structure, and what is read of them. -/
theorem Begins.exists_struct (h : e.Begins m x) (hs : (e.first m).StructAt back) : ∃ attributes words ms ns,
    e.tokens = attributes ++ (words ++ (back ++ (e.first m).heading)) ∧ AttributeLists (attributes.map Token.kind) ∧
      words.map Token.kind = modifierTokens ms ∧ back.map Token.kind = modifierTokens ns ∧
      (front (e.first m).heading).kind = .keyword .structKw ∧
      ∃ d, x.declarations = #[d] ∧ d.kind = .type .structType := by
  obtain ⟨hform, words, hrest, href⟩ := hs
  cases h.readsFirst with
  | directive hd => rw [Site.form?_eq_none (.inl hd)] at hform; cases hform
  | attributes hd ha hb => rw [Site.form?_eq_none (.inr hb)] at hform; cases hform
  | declaration hd ha hb hf hread =>
    rw [Site.form?_eq hd hb] at hform
    have hform := Option.some.inj hform
    have hstruct := kind_of_form_struct hform
    have hheading : (e.first m).heading = (modifiers (skipAttributes e.tokens).rest).2 := Site.heading_eq hd
    obtain ⟨attributes, htokens, lists, -⟩ := reads_skipAttributes ha
    obtain ⟨passed, hpassed, hmodifier, -⟩ := exists_modifiers (skipAttributes e.tokens).rest
    have hrest : (skipAttributes e.tokens).rest = words ++ (back ++ (e.first m).heading) := hrest
    have hall : words ++ back = passed := by
      rw [← hheading, hrest, ← List.append_assoc] at hpassed
      exact List.append_cancel_right hpassed
    rw [← hall] at hmodifier
    obtain ⟨ms, hms⟩ := exists_modifierTokens (fun t ht => hmodifier t (List.mem_append_left back ht))
      fun t ht => href t (List.mem_append_left back ht)
    obtain ⟨ns, hns⟩ := exists_modifierTokens (fun t ht => hmodifier t (List.mem_append_right words ht))
      fun t ht => href t (List.mem_append_right words ht)
    have hdeclaration : typeDeclaration (below m) .structType _ _ (e.first m).heading = _ := (hf.trans hform) ▸ hread
    refine ⟨attributes, words, ms, ns, ?_, lists, hms, hns, hstruct, ?_⟩
    · rw [← hrest]
      exact htokens
    · exact exists_eq_of_typeDeclaration (congrArg Step.result hdeclaration)

/-- With `ref` directly in front of `struct` the same is read of a list that begins with a structure. -/
theorem Begins.read_refStruct (h : e.Begins m x) (hs : (e.first m).StructAt []) (hr : r.kind = .identifier "ref")
    (hspan : r.span = (front (e.first m).heading).span) (htokens : e.tokens = before ++ (e.first m).heading) :
    (e.from (before ++ r :: (e.first m).heading)).read m = e.read m := by
  obtain ⟨attributes, words, ms, ns, hall, lists, hms, -, hstruct, -⟩ := h.exists_struct hs
  rw [List.nil_append, ← List.append_assoc] at hall
  obtain rfl : before = attributes ++ words := List.append_cancel_right (htokens.symm.trans hall)
  have hitem := item_refStruct (below m) e.scope e.owner lists hms hr hstruct hspan
  rw [← List.append_assoc, ← List.append_assoc, ← htokens] at hitem
  exact h.read_congr (not_atBodyEnd_insert hr (htokens ▸ h.not_atBodyEnd)) hitem

/-- With `ref` in front of one of its modifiers, what begins the list is no structure. -/
theorem Begins.diverges_refModifier (h : e.Begins m x) (hs : (e.first m).StructAt back) (hback : back ≠ [])
    (hr : r.kind = .identifier "ref") (htokens : e.tokens = before ++ (back ++ (e.first m).heading)) :
    e.Diverges (e.from (before ++ r :: (back ++ (e.first m).heading))) m := by
  obtain ⟨attributes, words, ms, ns, hall, lists, hms, hns, hstruct, d, hx, hd⟩ := h.exists_struct hs
  rw [← List.append_assoc] at hall
  obtain rfl : before = attributes ++ words := List.append_cancel_right (htokens.symm.trans hall)
  have hitem := item_refModifier (below m) e.scope e.owner lists hms hns hback hr hstruct
  rw [← List.append_assoc] at hitem
  intro hproblems
  have hend : ¬ atBodyEnd (attributes ++ words ++ r :: (back ++ (e.first m).heading)) = true :=
    not_atBodyEnd_insert hr (htokens ▸ h.not_atBodyEnd)
  obtain ⟨x', hx', hproblems'⟩ := exists_item_of_readFrom hend hproblems
  have hbegins : (e.from (attributes ++ words ++ r :: (back ++ (e.first m).heading))).Begins m x' :=
    ⟨hend, hx', hproblems'⟩
  have hx' : (item (below m) e.scope e.owner _).result = .ok x' := hx'
  rw [hitem] at hx'
  -- In a type a member is read, whose kind is none of a type. Elsewhere nothing is read.
  split at hx'
  · obtain ⟨own, d', -, halone, rfl, -⟩ := @declares_member m False _ _ _ _ _ _ (.inr rfl) hx'
    rw [h.read_eq, hbegins.read_eq]
    have hne : d.kind ≠ d'.kind := by
      intro heq
      rw [← heq, hd] at halone
      cases halone
    simp only [Found.append, hx, Array.toList_append, Declaration.kindsAll_append, Declaration.kindsAll_singleton]
    exact (Departs.of_head hne _ _).append _ _
  · cases hx'

/-- With `ref` among the modifiers of a structure, wherever that stands, the same is read exactly if `ref` stands
directly in front of `struct`. -/
theorem read_insert_ref (hn : levels ≤ maxNesting) (h : (c.read levels).found.problems = #[]) (hs : s ∈ sites levels c)
    (hstruct : s.StructAt back) (htokens : c.tokens = before ++ (back ++ s.heading)) (hr : r.kind = .identifier "ref")
    (hspan : r.span = (front s.heading).span) :
    (back = [] → (c.from (before ++ r :: (back ++ s.heading))).read levels = c.read levels) ∧
      (back ≠ [] → c.Diverges (c.from (before ++ r :: (back ++ s.heading))) levels) := by
  obtain ⟨m, e, x, around, hbegins, rfl, haround⟩ := exists_surrounds hn h s hs
  obtain ⟨attributes, words, -, ns, hall, -, -, hns, hkeyword, -⟩ := hbegins.exists_struct hstruct
  rw [← List.append_assoc] at hall
  have hplace : ¬ atEnd (back ++ (e.first m).heading) = true := by
    cases back with
    | nil => simp [atEnd, hkeyword]
    | cons b back =>
      rcases isModifier_of_map_eq hns b List.mem_cons_self with ⟨k, hk, -⟩ | hk <;> simp [atEnd, front, hk]
  have hbefore : before = around ++ (attributes ++ words) := by
    rw [haround.eq_append, hall, ← List.append_assoc] at htokens
    exact (List.append_cancel_right htokens).symm
  have hplugs := plugs_insert hr hplace (attributes ++ words)
  rw [← hall] at hplugs
  rw [hbefore, List.append_assoc]
  refine ⟨?_, fun hback => haround.diverges _ hplugs (hbegins.diverges_refModifier hstruct hback hr hall)⟩
  rintro rfl
  exact haround.same _ hplugs (hbegins.read_refStruct hstruct hr hspan hall)

end Items

end Reader

/-! ## Texts -/

namespace DeclarationTree

open Reader

theorem kinds_unplaced (t : DeclarationTree) : t.unplaced.kinds = t.kinds := by
  rw [kinds, unplaced, Array.toList_map, List.map_map]
  rfl

/-- The word `ref` among the modifiers of a structure, behind which the modifiers `back` stand. The text stays accepted
with the same tree but for places exactly if nothing stands between `ref` and `struct`. -/
theorem refStruct_of_ofTokens {ts us before back : List Token} {t : DeclarationTree} {s : Site}
    (h : ofTokens ts = .ok t) (hs : s ∈ sites maxNesting (.ofText ts)) (hstruct : s.StructAt back)
    (hts : ts = before ++ (back ++ s.heading))
    (hus : us.map Token.kind = before.map Token.kind ++ .identifier "ref" :: (back ++ s.heading).map Token.kind) :
    (∃ t', ofTokens us = .ok t' ∧ t'.unplaced = t.unplaced) ↔ back = [] := by
  obtain ⟨d, hd, rfl⟩ := ofTokens_eq_ok_iff.mp h
  obtain ⟨hproblems, hd⟩ := readDeclarations_eq_ok_iff.mp hd
  -- At the place of the token behind it `ref` changes no place where it is passed.
  obtain ⟨r, hr, hspan⟩ : ∃ r : Token, r.kind = .identifier "ref" ∧ r.span = (front s.heading).span :=
    ⟨⟨_, _⟩, rfl, rfl⟩
  have hkinds : us.map Token.kind = (before ++ r :: (back ++ s.heading)).map Token.kind := by
    rw [hus, ← hr, ← List.map_cons, ← List.map_append]
  have hread : ((Items.ofText ts).read maxNesting).found.problems = #[] := hproblems
  obtain ⟨hsame, hdiverges⟩ := Items.read_insert_ref (Nat.le_refl maxNesting) hread hs hstruct hts hr hspan
  constructor
  · rintro ⟨t', ht', hunplaced⟩
    refine Decidable.byContradiction fun hback => ?_
    obtain ⟨_, ht'', hunplaced'⟩ := Written.exists_ofTokens_of_kinds ht' hkinds.symm
    obtain ⟨d', hread, rfl⟩ := ofTokens_eq_ok_iff.mp ht''
    obtain ⟨hproblems', hd'⟩ := readDeclarations_eq_ok_iff.mp hread
    have hequal : (ofDeclaration d).kinds = (ofDeclaration d').kinds := by
      rw [← kinds_unplaced, ← hunplaced, ← hunplaced', kinds_unplaced]
    rw [kinds_ofDeclaration, kinds_ofDeclaration, hd, hd', Declaration.kinds, Declaration.kinds] at hequal
    exact (hdiverges hback hproblems').ne (List.cons.inj hequal).2
  · rintro rfl
    have hbody : readFrom (below maxNesting) .text false "" {} (before ++ r :: ([] ++ s.heading)) =
        readFrom (below maxNesting) .text false "" {} ts := hsame rfl
    have hread : readDeclarations (before ++ r :: ([] ++ s.heading)) = .ok d :=
      readDeclarations_eq_ok_iff.mpr (by rw [hbody]; exact ⟨hproblems, hd⟩)
    exact Written.exists_ofTokens_of_kinds (ofTokens_eq_ok_iff.mpr ⟨d, hread, rfl⟩) hkinds

/-- A structure `S` in the body of a class, from its keyword on to the end of the text. -/
def structHeading : List Token :=
  bare [.keyword .structKw, .identifier "S", .punctuation .leftBrace, .punctuation .rightBrace,
    .punctuation .rightBrace, .endOfText]

/-- A class `A` that holds the structure, with the words `words` in front of it. -/
def structTokens (words : List TokenKind) : List Token :=
  bare [.keyword .classKw, .identifier "A", .punctuation .leftBrace] ++ (bare words ++ structHeading)

/-- The structure among the items of that text, where it is `public partial`. -/
def partialStruct : Site :=
  ⟨.typeBody, bare [.keyword .publicKw, .keyword .partialKw] ++ structHeading,
    bare [.punctuation .rightBrace, .endOfText]⟩

deriving instance DecidableEq for Site
deriving instance DecidableEq for Form

theorem refStruct_partial : ∃ t, ofTokens (structTokens [.keyword .publicKw, .keyword .partialKw]) = .ok t ∧
    (∃ t', ofTokens (structTokens [.keyword .publicKw, .keyword .partialKw, .identifier "ref"]) = .ok t' ∧
      t'.unplaced = t.unplaced) ∧
    ¬ ∃ t', ofTokens (structTokens [.keyword .publicKw, .identifier "ref", .keyword .partialKw]) = .ok t' ∧
      t'.unplaced = t.unplaced := by
  obtain ⟨t, ht⟩ := @exists_eq_ok _ _ (ofTokens (structTokens [.keyword .publicKw, .keyword .partialKw]))
    (by decide +kernel)
  have hs : partialStruct ∈ sites maxNesting (.ofText (structTokens [.keyword .publicKw, .keyword .partialKw])) := by
    decide +kernel
  have hbehind : partialStruct.StructAt [] :=
    ⟨by decide +kernel, bare [.keyword .publicKw, .keyword .partialKw], by decide +kernel, by decide⟩
  have hinside : partialStruct.StructAt (bare [.keyword .partialKw]) :=
    ⟨by decide +kernel, bare [.keyword .publicKw], by decide +kernel, by decide⟩
  have hts : structTokens [.keyword .publicKw, .keyword .partialKw] =
      bare [.keyword .classKw, .identifier "A", .punctuation .leftBrace, .keyword .publicKw, .keyword .partialKw] ++
        ([] ++ partialStruct.heading) := by decide +kernel
  have hts' : structTokens [.keyword .publicKw, .keyword .partialKw] =
      bare [.keyword .classKw, .identifier "A", .punctuation .leftBrace, .keyword .publicKw] ++
        (bare [.keyword .partialKw] ++ partialStruct.heading) := by decide +kernel
  refine ⟨t, ht, (refStruct_of_ofTokens ht hs hbehind hts ?_).mpr rfl, fun h => ?_⟩
  · decide +kernel
  · exact absurd ((refStruct_of_ofTokens ht hs hinside hts' (by decide +kernel)).mp h) (by decide)

/-- In front of `partial`, which stands last among modifiers, `ref` makes the structure a member. -/
theorem not_refStruct_partial :
    partialStruct ∈ sites maxNesting (.ofText (structTokens [.keyword .publicKw, .keyword .partialKw])) ∧
      partialStruct.StructAt (bare [.keyword .partialKw]) ∧
      ∃ t t', ofTokens (structTokens [.keyword .publicKw, .keyword .partialKw]) = .ok t ∧
        ofTokens (structTokens [.keyword .publicKw, .identifier "ref", .keyword .partialKw]) = .ok t' ∧
        t.kinds = [.unit, .type .classType, .type .structType] ∧ t'.kinds = [.unit, .type .classType, .property] := by
  refine ⟨by decide +kernel, ⟨by decide +kernel, bare [.keyword .publicKw], by decide +kernel, by decide⟩, ?_⟩
  obtain ⟨t, ht⟩ := @exists_eq_ok _ _ (ofTokens (structTokens [.keyword .publicKw, .keyword .partialKw]))
    (by decide +kernel)
  obtain ⟨t', ht'⟩ := @exists_eq_ok _ _
    (ofTokens (structTokens [.keyword .publicKw, .identifier "ref", .keyword .partialKw])) (by decide +kernel)
  have hkinds : ((ofTokens (structTokens [.keyword .publicKw, .keyword .partialKw])).map kinds).toOption =
      some [.unit, .type .classType, .type .structType] := by decide +kernel
  have hkinds' : ((ofTokens (structTokens [.keyword .publicKw, .identifier "ref", .keyword .partialKw])).map
      kinds).toOption = some [.unit, .type .classType, .property] := by decide +kernel
  rw [ht] at hkinds
  rw [ht'] at hkinds'
  exact ⟨t, t', ht, ht', Option.some.inj hkinds, Option.some.inj hkinds'⟩

end DeclarationTree

end TestScaffold
