import TestScaffold.Declaration.Reader
import TestScaffold.Proofs.Declaration.Growth
import TestScaffold.Proofs.Text.Characters

/-!
# What reading admits

Whatever the tokens are, and whatever faults they hold, a declaration that is found is of a kind that may stand where
it was found, bears modifiers only where it may, and is called by names that stand in the tokens.

Results:
* `Admits`: what may stand directly inside what.
* `Reader.sound_item`, `Reader.sound_readFrom`, `Reader.sound_ofLevels`: one item, a list of items, and lists whose
  bodies nest hold only what is admitted.
* `fitting_of_readDeclarations`: so does the text as a whole.
-/

namespace TestScaffold

open Token (front second atEnd atMark atKeyword)
open Declaration (Fitting)

/-! ## Names -/

/-- Every name that stands in the tokens is one. -/
def Words (isName : String → Prop) (ts : List Token) : Prop :=
  ∀ t ∈ ts, ∀ n, t.kind.name? = some n → isName n

variable {isName : String → Prop}

theorem Words.of_suffix {ts us : List Token} (h : Words isName ts) (hs : us <:+ ts) : Words isName us :=
  fun t ht => h t (hs.subset ht)

theorem Words.front {ts : List Token} (h : Words isName ts) {n : String} (hn : (front ts).kind.name? = some n) :
    isName n := by
  cases ts with
  | nil => cases hn
  | cons t ts => exact h t List.mem_cons_self n hn

theorem Words.of_name {ts : List Token} (h : Words isName ts) {what : Expectation} {n : String}
    (hn : (Step.name what ts).result = .ok n) : isName n := by
  unfold Step.name at hn
  split at hn
  · next m hm =>
    have hmn : m = n := Except.ok.inj hn
    subst hmn
    exact h.front hm
  · cases hn

/-! ## What may stand where -/

namespace DeclarationKind

/-- Whether the declaration is a type whose body holds declarations. -/
def holdsMembers : DeclarationKind → Bool
  | type kind => kind != .enumType
  | _ => false

/-- Whether the declaration is a member of a type: a method, a constructor, a property or a field. -/
def isMember : DeclarationKind → Bool
  | method | constructor | property | field => true
  | _ => false

end DeclarationKind

/-- What may stand directly inside what. -/
structure Admits (isName : String → Prop) (outer inner : Heading) : Prop where
  outer_kind : outer.kind = .unit ∨ outer.kind = .namespaceBlock ∨ outer.kind.holdsMembers = true
  inner_kind : inner.kind ≠ .unit
  of_namespace : inner.kind = .namespaceBlock → outer.kind = .unit ∨ outer.kind = .namespaceBlock
  of_member : inner.kind.isMember = true → outer.kind.holdsMembers = true
  of_constructor : inner.kind = .constructor → inner.name = outer.name
  /-- A namespace has no modifiers, and whatever has some has only such. -/
  modifiers : ∀ k ∈ inner.modifiers, k.isModifier = true ∧ inner.kind ≠ .namespaceBlock
  name : inner.kind ≠ .namespaceBlock → isName inner.name
  dotted : inner.kind = .namespaceBlock → Dotted isName inner.name

/-- Whether a list of declarations that stands at `scope` and belongs to `owner` may stand inside `outer`. -/
structure Scope.Around (scope : Scope) (owner : String) (outer : Heading) : Prop where
  name : outer.name = owner
  kind : match scope with
    | .text => outer.kind = .unit
    | .namespaceBody => outer.kind = .namespaceBlock
    | .typeBody => outer.kind.holdsMembers = true

theorem Scope.Around.outer_kind {scope : Scope} {owner : String} {outer : Heading} (h : scope.Around owner outer) :
    outer.kind = .unit ∨ outer.kind = .namespaceBlock ∨ outer.kind.holdsMembers = true := by
  have hkind := h.kind
  cases scope with
  | text => exact .inl hkind
  | namespaceBody => exact .inr (.inl hkind)
  | typeBody => exact .inr (.inr hkind)

/-- What was found in a list may stand where the list stands. -/
def Found.Sound (isName : String → Prop) (scope : Scope) (owner : String) (x : Found) : Prop :=
  ∀ outer, scope.Around owner outer → Fitting (Admits isName) outer x.declarations.toList

theorem Declaration.Fitting.append {fits : Heading → Heading → Prop} {outer : Heading} {ds es : List Declaration}
    (h : Fitting fits outer ds) (k : Fitting fits outer es) : Fitting fits outer (ds ++ es) := by
  induction h with
  | nil => exact k
  | cons head inside _ _ ih => exact .cons head inside (ih k)

namespace Found

variable {scope : Scope} {owner : String}

theorem sound_empty : Found.Sound isName scope owner {} := fun _ _ => .nil

theorem Sound.append {x y : Found} (h : x.Sound isName scope owner) (k : y.Sound isName scope owner) :
    (x.append y).Sound isName scope owner := by
  intro outer hout
  rw [Found.append, Array.toList_append]
  exact (h outer hout).append (k outer hout)

theorem Sound.report {x : Found} (h : x.Sound isName scope owner) (d : Diagnostic) :
    (x.report d).Sound isName scope owner := h

theorem sound_wrap {x : Found} {kind : DeclarationKind} {name : String} {mods : List Keyword} {span : Span}
    (hf : ∀ outer p, scope.Around owner outer → Admits isName outer ⟨kind, name, mods, p⟩)
    (hi : ∀ p, Fitting (Admits isName) ⟨kind, name, mods, p⟩ x.declarations.toList) :
    (x.wrap kind name mods span).Sound isName scope owner := by
  intro outer hout
  exact .cons (fun p => hf outer p hout) hi .nil

end Found

/-! ## Members -/

theorem Head.name_note (hthis : isName Keyword.thisKw.spelling) (hop : isName Keyword.operatorKw.spelling)
    {kind : TokenKind} (hk : ∀ n, kind.name? = some n → isName n) {h : Head} (hn : ∀ n, h.name = some n → isName n) :
    ∀ n, (h.note kind).name = some n → isName n := by
  intro n
  unfold Head.note
  split
  · exact hn n
  · rintro ⟨rfl⟩
    exact hop
  · rintro ⟨rfl⟩
    exact hthis
  · split
    · next m hm =>
      split
      · exact hn n
      · rintro ⟨rfl⟩
        exact hk _ hm
    · exact hn n

/-- The name that a head declares stands in the tokens, or is one of the two words that serve as a name. -/
theorem Head.name_read (hthis : isName Keyword.thisKw.spelling) (hop : isName Keyword.operatorKw.spelling)
    {ts : List Token} (hw : Words isName ts) {h k : Head} (hn : ∀ n, h.name = some n → isName n)
    (hr : (h.read ts).result = .ok k) : ∀ n, k.name = some n → isName n := by
  have note {ts : List Token} (hw : Words isName ts) {h : Head} (hn : ∀ n, h.name = some n → isName n) :=
    Head.name_note hthis hop (fun n => hw.front) hn
  fun_induction Head.read h ts with
  | case1 h ts => cases hr
  | case2 h ts =>
    cases hr
    exact hn
  | case3 h ts _ _ s _ _ ih => exact ih (hw.of_suffix (Nesting.rest_skipGroup_suffix ts)) hn hr
  | case4 h ts => cases hr
  | case5 h ts _ _ ih => exact ih (hw.of_suffix (List.tail_suffix ts)) (note hw hn) hr
  | case6 h ts _ _ ih => exact ih (hw.of_suffix (List.tail_suffix ts)) (note hw hn) hr

/-- The head of a member never makes it a type, a namespace or a whole text. -/
theorem Head.kind_eq_other_or_isMember (h : Head) (typeName : String) (ts : List Token) :
    h.kind typeName ts = .other ∨ (h.kind typeName ts).isMember = true := by
  unfold Head.kind
  split
  · split
    · exact .inl rfl
    · split
      · exact .inr rfl
      · exact .inr rfl
  · split
    · exact .inr rfl
    · exact .inr rfl

theorem Head.name_of_constructor {h : Head} {typeName : String} {ts : List Token}
    (hc : h.kind typeName ts = .constructor) : h.name = some typeName := by
  unfold Head.kind at hc
  split at hc
  · split at hc
    · cases hc
    · split at hc
      · next hn => simp_all
      · cases hc
  · split at hc <;> cases hc

/-- What a member that is read in full declares. -/
theorem Member.of_read (hthis : isName Keyword.thisKw.spelling) (hop : isName Keyword.operatorKw.spelling)
    {typeName : String} {mods : List Keyword} {start : Span} {forced : Option DeclarationKind} {ts : List Token}
    (hw : Words isName ts) {d : Declaration} (h : (read typeName mods start forced ts).result = .ok d) :
    isName d.name ∧ d.modifiers = mods ∧ d.children = [] ∧
      ∃ head : Head, ∃ us, head.name = some d.name ∧ d.kind = forced.getD (head.kind typeName us) := by
  obtain ⟨head, hhead, he⟩ := Step.andThen_eq_ok h
  have he : read typeName mods start forced ts = _ := he
  rw [he] at h
  split at h
  · cases h
  · next name hname =>
    obtain ⟨stop, hstop, hr⟩ := Step.andThen_eq_ok h
    rw [hr] at h
    cases h
    exact ⟨Head.name_read hthis hop hw (by simp) hhead name hname, rfl, rfl, head, _, hname, rfl⟩

namespace Reader

variable {scope : Scope} {owner : String} {mods : List Keyword} {start : Span} {ts : List Token} {x : Found}
  {inner : Option Reader}

/-- What the reader finds may stand where it was found. -/
def Sound (isName : String → Prop) (r : Reader) : Prop :=
  ∀ scope braced owner ts, Words isName ts → (r.read scope braced owner ts).found.Sound isName scope owner

theorem isModifier_of_mem_modifiers (ts : List Token) : ∀ k ∈ (modifiers ts).1, k.isModifier = true := by
  fun_induction modifiers ts with
  | case1 => simp
  | case2 t ts k hk hm ks rest hr ih =>
    intro j hj
    rcases List.mem_cons.mp hj with rfl | hj
    · exact hm
    · exact ih j (by rw [hr]; exact hj)
  | case3 => simp
  | case4 t ts name hk hn ih => exact ih
  | case5 => simp
  | case6 => simp

/-- Members stand in types. What has only the form of a member may stand anywhere. -/
theorem sound_member (hthis : isName Keyword.thisKw.spelling) (hop : isName Keyword.operatorKw.spelling)
    (hw : Words isName ts) (hm : ∀ k ∈ mods, k.isModifier = true) {forced : Option DeclarationKind}
    (hforced : forced = some .other ∨ forced = none ∧ scope = .typeBody)
    (h : (member owner mods start forced ts).result = .ok x) : x.Sound isName scope owner := by
  obtain ⟨d, hd, he⟩ := Step.andThen_eq_ok h
  have he : member owner mods start forced ts = _ := he
  rw [he] at h
  cases h
  obtain ⟨hname, hmods, hchildren, head, us, hhead, hkind⟩ := Member.of_read hthis hop hw hd
  -- Delegates and events are given their kind; outside of types nothing else is read as a member.
  have hcases : d.kind = .other ∨ d.kind.isMember = true ∧ scope = .typeBody := by
    rcases hforced with rfl | ⟨rfl, hscope⟩
    · exact .inl hkind
    · rw [hkind]
      rcases head.kind_eq_other_or_isMember owner us with ho | ho
      · exact .inl ho
      · exact .inr ⟨ho, hscope⟩
  have hne : d.kind ≠ .unit ∧ d.kind ≠ .namespaceBlock := by
    rcases hcases with ho | ⟨ho, -⟩
    · rw [ho]
      decide
    · constructor <;> intro hk <;> rw [hk] at ho <;> cases ho
  intro outer hout
  refine .cons (fun p => ?_) (fun p => by rw [hchildren]; exact .nil) .nil
  refine ⟨hout.outer_kind, hne.1, fun hk => absurd hk hne.2, ?_, ?_, ?_, fun _ => hname, fun hk => absurd hk hne.2⟩
  · intro hmember
    rcases hcases with ho | ⟨-, rfl⟩
    · have hbad : d.kind.isMember = true := hmember
      rw [ho] at hbad
      cases hbad
    · exact hout.kind
  · intro hc
    have hc : d.kind = .constructor := hc
    rcases hforced with rfl | ⟨rfl, -⟩
    · rw [hkind] at hc
      cases hc
    · have hown : head.name = some owner := Head.name_of_constructor (hkind.symm.trans hc)
      rw [hhead] at hown
      exact (Option.some.inj hown).trans hout.name.symm
  · intro k hk
    have hk : k ∈ d.modifiers := hk
    rw [hmods] at hk
    exact ⟨hm k hk, hne.2⟩

/-! ## Namespaces and types -/

theorem dotted_of_dottedName {name s : String} (hw : Words isName ts) (hn : Dotted isName name)
    (h : (dottedName name ts).result = .ok s) : Dotted isName s := by
  fun_induction dottedName name ts with
  | case1 name ts _ n hname ih =>
    have htail : Words isName ts.tail := hw.of_suffix (List.tail_suffix ts)
    exact ih (htail.of_suffix (List.tail_suffix ts.tail)) (hn.append (.of_name (htail.front hname))) h
  | case2 name ts => cases h
  | case3 name ts =>
    cases h
    exact hn

theorem dotted_of_qualifiedName {s : String} (hw : Words isName ts) (h : (qualifiedName ts).result = .ok s) :
    Dotted isName s := by
  obtain ⟨name, hname, he⟩ := Step.andThen_eq_ok h
  have he : qualifiedName ts = _ := he
  rw [he] at h
  exact dotted_of_dottedName (hw.of_suffix (Step.rest_name_suffix _ ts)) (.of_name (hw.of_name hname)) h

theorem sound_inBraces {r : Reader} (hr : r.Sound isName) (hw : Words isName ts) {stop : Span}
    (h : (inBraces r scope owner ts).result = .ok (x, stop)) : x.Sound isName scope owner := by
  have hbody := hr scope true owner ts.tail (hw.of_suffix (List.tail_suffix ts))
  unfold inBraces at h
  simp only at h
  split at h
  · cases h
    exact hbody
  · cases h
    exact hbody.report _

/-- A namespace stands in the text or in a namespace, and holds what may stand in it. -/
theorem sound_wrap_namespace (hs : scope ≠ .typeBody) {name : String} (hn : Dotted isName name)
    (hx : x.Sound isName .namespaceBody name) (span : Span) :
    (x.wrap .namespaceBlock name [] span).Sound isName scope owner := by
  refine Found.sound_wrap ?_ (fun p => hx _ ⟨rfl, rfl⟩)
  intro outer p hout
  have hplace : outer.kind = .unit ∨ outer.kind = .namespaceBlock := by
    have hkind := hout.kind
    cases scope with
    | text => exact .inl hkind
    | namespaceBody => exact .inr hkind
    | typeBody => exact absurd rfl hs
  exact ⟨hout.outer_kind, by simp, fun _ => hplace, by simp [DeclarationKind.isMember], by simp, by simp, by simp,
    fun _ => hn⟩

theorem sound_namespaceDeclaration (hi : ∀ r ∈ inner, r.Sound isName) (hs : scope ≠ .typeBody)
    (hw : Words isName ts) (h : (namespaceDeclaration inner scope start ts).result = .ok x) :
    x.Sound isName scope owner := by
  have htail : Words isName ts.tail := hw.of_suffix (List.tail_suffix ts)
  obtain ⟨name, hname, he⟩ := Step.andThen_eq_ok h
  have he : namespaceDeclaration inner scope start ts = _ := he
  have hdotted := dotted_of_qualifiedName htail hname
  have hrest : (qualifiedName ts.tail).rest <:+ ts.tail :=
    Step.rest_andThen_suffix (Step.rest_name_suffix _ _) rest_dottedName_suffix
  have hwrest := htail.of_suffix hrest
  rw [he] at h
  clear he
  split at h
  · cases h
  · split at h
    · cases h
    · next reader =>
      have hreader := hi reader rfl
      split at h
      · cases h
        exact sound_wrap_namespace hs hdotted
          (hreader .namespaceBody false name _ (hwrest.of_suffix (List.tail_suffix _))) _
      · split at h
        · obtain ⟨⟨found, stop⟩, hfound, he'⟩ := Step.andThen_eq_ok h
          rw [he'] at h
          cases h
          exact sound_wrap_namespace hs hdotted (sound_inBraces hreader hwrest hfound) _
        · cases h

/-- A type may stand anywhere, and holds what may stand in it. -/
theorem sound_wrap_type (hm : ∀ k ∈ mods, k.isModifier = true) {kind : TypeKind} {name : String} (hn : isName name)
    (hx : ∀ p, Fitting (Admits isName) ⟨.type kind, name, mods, p⟩ x.declarations.toList) (span : Span) :
    (x.wrap (.type kind) name mods span).Sound isName scope owner := by
  refine Found.sound_wrap ?_ hx
  intro outer p hout
  exact ⟨hout.outer_kind, by simp, by simp, by simp [DeclarationKind.isMember], by simp,
    fun k hk => ⟨hm k hk, by simp⟩, fun _ => hn, by simp⟩

theorem sound_typeBody (hi : ∀ r ∈ inner, r.Sound isName) {kind : TypeKind} {name : String} (hw : Words isName ts)
    {stop : Span} (h : (typeBody inner kind name ts).result = .ok (x, stop)) (p : Option Nat) :
    Fitting (Admits isName) ⟨.type kind, name, mods, p⟩ x.declarations.toList := by
  unfold typeBody at h
  split at h
  · obtain ⟨body, _, he⟩ := Step.andThen_eq_ok h
    rw [he] at h
    cases h
    exact .nil
  · next hk =>
    split at h
    · cases h
    · next reader =>
      have hholds : (DeclarationKind.type kind).holdsMembers = true := by simpa [DeclarationKind.holdsMembers] using hk
      exact sound_inBraces (hi reader rfl) hw h _ ⟨rfl, hholds⟩

theorem sound_typeDeclaration (hi : ∀ r ∈ inner, r.Sound isName) {kind : TypeKind}
    (hm : ∀ k ∈ mods, k.isModifier = true) (hw : Words isName ts)
    (h : (typeDeclaration inner kind mods start ts).result = .ok x) : x.Sound isName scope owner := by
  have htail : Words isName ts.tail := hw.of_suffix (List.tail_suffix ts)
  obtain ⟨name, hname, he⟩ := Step.andThen_eq_ok h
  have he : typeDeclaration inner kind mods start ts = _ := he
  have hn := htail.of_name hname
  have hwheader := htail.of_suffix (Step.rest_name_suffix (.typeName kind) ts.tail)
  rw [he] at h
  obtain ⟨_, _, he'⟩ := Step.andThen_eq_ok h
  rw [he'] at h
  split at h
  · cases h
    exact sound_wrap_type hm hn (fun p => .nil) _
  · split at h
    · obtain ⟨⟨found, stop⟩, hfound, he''⟩ := Step.andThen_eq_ok h
      rw [he''] at h
      cases h
      exact sound_wrap_type hm hn
        (sound_typeBody hi (hwheader.of_suffix (Nesting.rest_skipUntil_suffix _ _ _)) hfound) _
    · cases h

/-! ## Lists of declarations -/

theorem sound_declaration (hthis : isName Keyword.thisKw.spelling) (hop : isName Keyword.operatorKw.spelling)
    (hi : ∀ r ∈ inner, r.Sound isName) (hm : ∀ k ∈ mods, k.isModifier = true) (hw : Words isName ts)
    (h : (declaration inner scope owner mods start ts).result = .ok x) : x.Sound isName scope owner := by
  have htail : Words isName ts.tail := hw.of_suffix (List.tail_suffix ts)
  unfold declaration at h
  split at h
  · exact sound_typeDeclaration hi hm hw h
  · split at h
    · split at h
      · exact sound_typeDeclaration hi hm htail h
      · exact sound_typeDeclaration hi hm hw h
    · split at h
      · next hns =>
        have hs : scope ≠ .typeBody := by simp_all
        exact sound_namespaceDeclaration hi hs hw h
      · split at h
        · exact sound_member hthis hop htail hm (.inl rfl) h
        · split at h
          · next hs => exact sound_member hthis hop hw hm (.inr ⟨rfl, by simpa using hs⟩) h
          · cases h

/-- An item holds only what may stand where it stands. -/
theorem sound_item (hthis : isName Keyword.thisKw.spelling) (hop : isName Keyword.operatorKw.spelling)
    (hi : ∀ r ∈ inner, r.Sound isName) (hw : Words isName ts) (h : (item inner scope owner ts).result = .ok x) :
    x.Sound isName scope owner := by
  unfold item at h
  split at h
  · obtain ⟨_, _, he⟩ := Step.andThen_eq_ok h
    rw [he] at h
    cases h
    exact Found.sound_empty
  · obtain ⟨_, _, he⟩ := Step.andThen_eq_ok h
    have hrest := hw.of_suffix (rest_skipAttributes_suffix ts)
    rw [he] at h
    split at h
    · cases h
      exact Found.sound_empty
    · exact sound_declaration hthis hop hi (isModifier_of_mem_modifiers _) (hrest.of_suffix (modifiers_suffix _)) h

/-- Reading on adds only what may stand there, also behind a broken declaration. -/
theorem sound_readFrom (hthis : isName Keyword.thisKw.spelling) (hop : isName Keyword.operatorKw.spelling)
    (hi : ∀ r ∈ inner, r.Sound isName) {braced : Bool} {found : Found} (hf : found.Sound isName scope owner)
    (hw : Words isName ts) : (readFrom inner scope braced owner found ts).found.Sound isName scope owner := by
  -- Each item leaves a suffix of the tokens, so the words in it are still names.
  fun_induction readFrom inner scope braced owner found ts with
  | case1 found ts => exact hf
  | case2 found ts => exact hf
  | case3 found ts _ _ _ ih => exact ih (hf.report _) (hw.of_suffix (List.tail_suffix ts))
  | case4 found ts _ _ s x hx ih =>
    exact ih (hf.append (sound_item hthis hop hi hw hx)) (hw.of_suffix (rest_item_suffix _ _ _ ts))
  | case5 found ts _ _ s d _ ih =>
    exact ih (hf.report d) (hw.of_suffix ((Nesting.recover_suffix _).trans (rest_item_suffix _ _ _ ts)))

theorem sound_ofLevels (hthis : isName Keyword.thisKw.spelling) (hop : isName Keyword.operatorKw.spelling)
    (levels : Nat) : (ofLevels levels).Sound isName := by
  induction levels with
  | zero =>
    intro scope braced owner ts hw
    exact sound_readFrom hthis hop (by simp) Found.sound_empty hw
  | succ levels ih =>
    intro scope braced owner ts hw
    exact sound_readFrom hthis hop (by simpa using ih) Found.sound_empty hw

end Reader

/-- The declarations of a whole text fit each other. -/
theorem fitting_of_readDeclarations (hthis : isName Keyword.thisKw.spelling)
    (hop : isName Keyword.operatorKw.spelling) {ts : List Token} (hw : Words isName ts) {d : Declaration}
    (h : readDeclarations ts = .ok d) :
    d.heading none = ⟨.unit, "", [], none⟩ ∧ Fitting (Admits isName) (d.heading none) d.children := by
  have hsound := Reader.sound_ofLevels hthis hop maxNesting .text false "" ts hw
  unfold readDeclarations at h
  simp only at h
  split at h
  · cases h
    exact ⟨rfl, hsound _ ⟨rfl, rfl⟩⟩
  · cases h

end TestScaffold
