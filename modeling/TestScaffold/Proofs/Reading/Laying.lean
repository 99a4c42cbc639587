import TestScaffold.Declaration.Reader
import TestScaffold.Proofs.Reading.Bodies

/-!
# Reading lays declarations out

Where reading meets no fault, the declarations it finds are laid out in the tokens it takes. It finds the same in front
of any tokens that begin alike, and where bodies may nest deeper; a namespace or a type it also finds where that
makes up the text.

Results:
* `Reader.finds_declaration`, `Reader.takesItem_item`: one declaration, and one item.
* `Reader.takesFrom_readFrom`, `Reader.laysOut_ofLevels`: lists of items, and lists whose bodies nest.
* `laidOut_of_readDeclarations`: a whole text.
* `readDeclarations_alone`: a namespace or a type as a text of its own.
-/

namespace TestScaffold

open Token (front atEnd atMark atKeyword atBodyEnd)
open Token (back Alike Inside Closed Follows Replaces Ended AttributeLists)
open Step (Reads)

namespace Reader

/-! ## Declarations -/

/-- Reading a declaration finds it and nothing else, and finds a namespace or a type likewise where that makes up the
text. -/
def FindsDeclaration (levels : Nat) (scope : Scope) (owner : String) (endless : Prop) (mods : List Keyword)
    (start : Span) (ts : List Token) (x : Found) : Prop :=
  ∃ own d, 2 ≤ own.length ∧ (d.kind.standsAlone = true → BeginsDeclaration (front ts).kind) ∧
    Finds levels (fun m => declaration (below m) scope owner mods start)
      (fun m => declaration (below m) .text "" mods start) endless mods start ts x own d

section Declaration

variable {levels : Nat} {scope : Scope} {owner : String} {endless : Prop} {mods : List Keyword} {start : Span}
  {ts : List Token} {x : Found}

theorem finds_type (hlays : ∀ l, l < levels → LaysOut l) {kind : TypeKind}
    (hk : (front ts).kind.keyword?.bind typeKind? = some kind)
    (h : (declaration (below levels) scope owner mods start ts).result = .ok x) (hx : x.problems = #[]) :
    FindsDeclaration levels scope owner endless mods start ts x := by
  have hbegins := beginsDeclaration_of_typeKind? hk
  have hsame (scope : Scope) (owner : String) (m : Nat) (us : List Token) (hus : SameHead us ts) :
      declaration (below m) scope owner mods start us = typeDeclaration (below m) kind mods start us := by
    simp only [declaration, hus.1, hk]
  rw [hsame _ _ _ _ (.refl ts)] at h
  obtain ⟨own, d, htwo, hfinds⟩ := declares_typeDeclaration hlays hbegins.not_atEnd h hx
  exact ⟨own, d, htwo, fun _ => hbegins, hfinds.congr htwo (hsame scope owner) fun _ => hsame .text ""⟩

theorem finds_record (hlays : ∀ l, l < levels → LaysOut l) (hk : (front ts).kind.keyword?.bind typeKind? = none)
    (hr : atRecord ts = true) (h : (declaration (below levels) scope owner mods start ts).result = .ok x)
    (hx : x.problems = #[]) : FindsDeclaration levels scope owner endless mods start ts x := by
  have hrecord : atKeyword .recordKw ts = true := by simp_all [atRecord]
  have hbegins : BeginsDeclaration (front ts).kind := ⟨.recordKw, eq_of_beq hrecord, by decide, by decide⟩
  have hsame (scope : Scope) (owner : String) (m : Nat) (us : List Token) (hus : SameHead us ts) :
      declaration (below m) scope owner mods start us =
        typeDeclaration (below m) .recordType mods start (if atRecordFlavour ts then us.tail else us) := by
    simp only [declaration, hus.1, hk, hus.atRecord, hr, hus.atRecordFlavour, if_true]
  rw [hsame _ _ _ _ (.refl ts)] at h
  by_cases hf : atRecordFlavour ts = true
  · simp only [hf, if_true] at h hsame
    have hend := not_atEnd_tail_of_atRecordFlavour hrecord hf
    obtain ⟨own, d, htwo, hfinds⟩ := declares_typeDeclaration hlays hend h hx
    exact ⟨front ts :: own, d, Nat.le_succ_of_le htwo, fun _ => hbegins,
      hfinds.behind hbegins.not_atEnd (hsame scope owner) fun _ => hsame .text ""⟩
  · simp only [hf] at h hsame
    obtain ⟨own, d, htwo, hfinds⟩ := declares_typeDeclaration hlays hbegins.not_atEnd h hx
    exact ⟨own, d, htwo, fun _ => hbegins, hfinds.congr htwo (hsame scope owner) fun _ => hsame .text ""⟩

theorem finds_namespace (hlays : ∀ l, l < levels → LaysOut l) (hk : (front ts).kind.keyword?.bind typeKind? = none)
    (hr : ¬ atRecord ts = true) (hn : (atKeyword .namespaceKw ts && scope != .typeBody && mods.isEmpty) = true)
    (h : (declaration (below levels) scope owner mods start ts).result = .ok x) (hx : x.problems = #[]) :
    FindsDeclaration levels scope owner (mods = [] ∧ AtEndless scope ts) mods start ts x := by
  obtain ⟨⟨hnamespace, hscope⟩, rfl⟩ : (atKeyword .namespaceKw ts = true ∧ scope ≠ .typeBody) ∧ mods = [] := by
    simpa using hn
  have hbegins : BeginsDeclaration (front ts).kind := ⟨.namespaceKw, eq_of_beq hnamespace, by decide, by decide⟩
  have hsame {scope : Scope} (hscope : scope ≠ .typeBody) (owner : String) (m : Nat) (us : List Token)
      (hus : SameHead us ts) : declaration (below m) scope owner [] start us =
        namespaceDeclaration (below m) scope start us := by
    simp [declaration, hus.1, hk, hus.atRecord, hr, hus.alike.atKeyword, hnamespace, hscope]
  rw [hsame hscope _ _ _ (.refl ts)] at h
  obtain ⟨own, d, htwo, hfinds⟩ := declares_namespaceDeclaration hlays hnamespace h hx
  exact ⟨own, d, htwo, fun _ => hbegins,
    (hfinds.imp fun hendless => ⟨rfl, hendless⟩).congr htwo (hsame hscope owner) fun _ => hsame (by decide) ""⟩

theorem finds_member (hk : (front ts).kind.keyword?.bind typeKind? = none) (hr : ¬ atRecord ts = true)
    (hn : ¬ (atKeyword .namespaceKw ts && scope != .typeBody && mods.isEmpty) = true)
    (h : (declaration (below levels) scope owner mods start ts).result = .ok x) :
    FindsDeclaration levels scope owner endless mods start ts x := by
  by_cases hd : (atKeyword .delegateKw ts || (atKeyword .eventKw ts && scope == .typeBody)) = true
  · have hsame (m : Nat) (us : List Token) (hus : SameHead us ts) :
        declaration (below m) scope owner mods start us = member owner mods start (some .other) us.tail := by
      simp only [declaration, hus.1, hk, hus.atRecord, hus.alike.atKeyword]
      rw [if_neg hr, if_neg hn, if_pos hd]
    have hend : ¬ atEnd ts = true := by
      rcases Bool.or_eq_true _ _ ▸ hd with hd | hd
      · exact Token.not_atEnd_of_atKeyword hd
      · exact Token.not_atEnd_of_atKeyword (Bool.and_eq_true _ _ ▸ hd : _ ∧ _).1
    rw [hsame _ _ (.refl ts)] at h
    obtain ⟨own, d, htwo, halone, hfinds⟩ := declares_member (.inl rfl) h
    exact ⟨front ts :: own, d, Nat.le_succ_of_le htwo, by simp [halone], hfinds.behind hend hsame (by simp [halone])⟩
  by_cases hs : (scope == .typeBody) = true
  · have hsame (m : Nat) (us : List Token) (hus : SameHead us ts) :
        declaration (below m) scope owner mods start us = member owner mods start none us := by
      simp only [declaration, hus.1, hk, hus.atRecord, hus.alike.atKeyword]
      rw [if_neg hr, if_neg hn, if_neg hd, if_pos hs]
    rw [hsame _ _ (.refl ts)] at h
    obtain ⟨own, d, htwo, halone, hfinds⟩ := declares_member (.inr rfl) h
    exact ⟨own, d, htwo, by simp [halone], hfinds.congr htwo hsame (by simp [halone])⟩
  · simp only [declaration, hk] at h
    rw [if_neg hr, if_neg hn, if_neg hd, if_neg hs] at h
    cases h

/-- A declaration is told by the words in front of it. -/
theorem finds_declaration (hlays : ∀ l, l < levels → LaysOut l)
    (h : (declaration (below levels) scope owner mods start ts).result = .ok x) (hx : x.problems = #[]) :
    FindsDeclaration levels scope owner (mods = [] ∧ AtEndless scope ts) mods start ts x := by
  cases hk : (front ts).kind.keyword?.bind typeKind? with
  | some kind => exact finds_type hlays hk h hx
  | none =>
    by_cases hr : atRecord ts = true
    · exact finds_record hlays hk hr h hx
    by_cases hn : (atKeyword .namespaceKw ts && scope != .typeBody && mods.isEmpty) = true
    · exact finds_namespace hlays hk hr hn h hx
    · exact finds_member hk hr hn h

end Declaration

/-! ## Items -/

/-- What follows the attribute lists of an item. -/
def behindAttributes (inner : Option Reader) (scope : Scope) (owner : String) (ts : List Token) : Step Found :=
  if atBodyEnd ts then .done {} ts
  else declaration inner scope owner (modifiers ts).1 (front ts).span (modifiers ts).2

theorem item_eq (inner : Option Reader) (scope : Scope) (owner : String) (ts : List Token) :
    item inner scope owner ts =
      if scope != .typeBody && atDirective ts then (Nesting.skipToSemicolon ts).andThen fun _ rest => .done {} rest
      else (skipAttributes ts).andThen fun _ rest => behindAttributes inner scope owner rest := rfl

section Item

variable {levels : Nat} {scope : Scope} {owner : String} {ts : List Token} {x : Found}

/-- A declaration is found with its modifiers. -/
theorem finds_behindAttributes (hlays : ∀ l, l < levels → LaysOut l) (hend : ¬ atBodyEnd ts = true)
    (h : (behindAttributes (below levels) scope owner ts).result = .ok x) (hx : x.problems = #[]) :
    ∃ own d, 2 ≤ own.length ∧ (modifiers own).1 = d.modifiers ∧
      (d.kind.standsAlone = true → (∃ k, (front own).kind = .keyword k) ∨ (front own).kind = .identifier "ref") ∧
        Finds levels (fun m => behindAttributes (below m) scope owner) (fun m => item (below m) .text "")
          (AtEndless scope ts) (modifiers ts).1 (front ts).span ts x own d := by
  have hbehind (m : Nat) (scope : Scope) (owner : String) {us : List Token} (hus : Alike us ts) :
      behindAttributes (below m) scope owner us =
        declaration (below m) scope owner (modifiers us).1 (front us).span (modifiers us).2 := by
    rw [behindAttributes, hus.atBodyEnd, if_neg hend]
  rw [hbehind levels scope owner (.refl ts)] at h
  obtain ⟨own, d, htwo, hbegins, rfl, hmods, trail, hrest, hdeclares⟩ := finds_declaration hlays h hx
  obtain ⟨passed, hall, hpassed, hsame⟩ := exists_modifiers_append hrest htwo
  rw [hrest, Token.front_append hdeclares.ended.ne_nil] at hbegins
  have again (m : Nat) (scope : Scope) (owner : String) (us : List Token) :
      behindAttributes (below m) scope owner (passed ++ (own ++ us)) =
        declaration (below m) scope owner (modifiers ts).1 (front ts).span (own ++ us) := by
    obtain ⟨hhead, hmodifiers⟩ := hsame us
    rw [hbehind m scope owner hhead.alike, hmodifiers, hhead.1]
  have alone (hd : d.kind.standsAlone = true) (m : Nat) (us : List Token) :
      item (below m) .text "" (passed ++ (own ++ us)) =
        declaration (below m) .text "" (modifiers ts).1 (front ts).span (own ++ us) := by
    have hb : BeginsDeclaration (front (own ++ us)).kind := by
      rw [Token.front_append hdeclares.ended.ne_nil]
      exact hbegins hd
    have hbracket : ¬ atMark .leftBracket (passed ++ (own ++ us)) = true := by
      rcases keyword_or_ref hpassed hb with ⟨k, hk⟩ | hk <;> simp [atMark, hk]
    rw [item_eq, not_atDirective hpassed hb, skipAttributes, if_neg hbracket, ← again m .text "" us]
    rfl
  refine ⟨passed ++ own, d, by simpa using Nat.le_add_left_of_le htwo, ?_,
    fun hd => keyword_or_ref hpassed (hbegins hd), rfl, hmods, trail, ?_⟩
  · have hself := (hsame []).2
    rw [List.append_nil] at hself
    rw [hself, hmods]
  · simp only [hbehind levels scope owner (.refl ts)]
    refine ⟨hall, (hdeclares.prepend (inside_of_isModifier hpassed) (fun m us => again m scope owner us) alone).imp ?_⟩
    rintro ⟨hnone, hendless⟩
    have hkeyword : (front (modifiers ts).2).kind = .keyword .namespaceKw := eq_of_beq hendless.2.1
    rwa [modifiers_eq_self hnone (by simp [atKeyword, hkeyword])] at hendless

/-- Whether an item may end with `used` in front of `us`: attribute lists with nothing behind them stand at the end of
a list. -/
def MayEnd (used us : List Token) : Prop := atBodyEnd us = true ∨ (back used).kind ≠ .punctuation .rightBracket

/-- Reading an item takes the tokens `used`, in which it lays out what it finds, in front of whatever is laid out
behind them. What stands behind may be replaced unless the item is `endless`. -/
structure TakesItem (levels : Nat) (scope : Scope) (owner : String) (endless : Prop) (used rest : List Token)
    (x : Found) : Prop where
  ne_nil : used ≠ []
  again : ∀ m, levels ≤ m → Reads (item (below m) scope owner) used rest x
  resumes : ¬ endless → ∀ us, Follows us → MayEnd used us → ∀ m, levels ≤ m →
    Reads (item (below m) scope owner) used us x
  laidOut : ∀ more after es, rest = more ++ after → (atBodyEnd rest = true → more = []) → LaidOut after more es →
    LaidOut after (used ++ more) (x.declarations.toList ++ es)

theorem takesItem_directive {endless : Prop} (hd : (scope != .typeBody && atDirective ts) = true)
    (h : (item (below levels) scope owner ts).result = .ok x) : ∃ used,
    ts = used ++ (item (below levels) scope owner ts).rest ∧
      TakesItem levels scope owner endless used (item (below levels) scope owner ts).rest x := by
  have hsame (m : Nat) {us : List Token} (hus : SameHead us ts) : item (below m) scope owner us =
      (Nesting.skipToSemicolon us).andThen fun _ rest => .done {} rest := by
    rw [item_eq, hus.atDirective, if_pos hd]
  rw [hsame levels (.refl ts)] at h
  obtain ⟨_, hs, rfl, hleft⟩ := Step.of_map (g := fun _ => ({} : Found)) h
  have hleft : (item (below levels) scope owner ts).rest = _ :=
    (congrArg Step.rest (hsame levels (.refl ts))).trans hleft
  obtain ⟨used, hts, hlast, hall⟩ := Nesting.spans_skipToSemicolon hs
  have again (us : List Token) (m : Nat) (htwo : 2 ≤ used.length) :
      Reads (item (below m) scope owner) used us ({} : Found) :=
    ((hall us).toReads.map fun _ => ({} : Found)).congr fun us => hsame m (.of_append hts htwo us)
  have hdirective : atDirective ts = true := (Bool.and_eq_true _ _ ▸ hd : _ ∧ _).2
  have htwo : 2 ≤ used.length := by
    rw [hts] at hdirective
    exact two_le_of_atDirective hdirective hlast
  rw [hleft]
  exact ⟨used, hts, (hall []).ne_nil, fun m _ => again _ m htwo, fun _ us _ _ m _ => again us m htwo,
    fun more after es _ _ hmore => .pass (.inl (.inl hlast)) (.inl (.inl hlast)) hmore⟩

/-- An item that is no directive takes its attribute lists, and then what follows them. -/
theorem reads_item {attributes used rest us : List Token} (hd : ¬ (scope != .typeBody && atDirective ts) = true)
    (hts : ts = attributes ++ used ++ rest) (htwo : 2 ≤ (attributes ++ used).length)
    (ha : Reads skipAttributes attributes (used ++ us) ()) {m : Nat}
    (hm : Reads (behindAttributes (below m) scope owner) used us x) :
    Reads (item (below m) scope owner) (attributes ++ used) us x := by
  have hchain : Reads (fun ts => (skipAttributes ts).andThen fun _ rest => behindAttributes (below m) scope owner rest)
    (attributes ++ used) us x := ha.andThen hm
  refine hchain.congr fun us => ?_
  rw [item_eq, (SameHead.of_append hts htwo us).atDirective, if_neg hd]

/-- Attribute lists with nothing behind them stand at the end of a list. -/
theorem takesItem_attributes {endless : Prop} (hd : ¬ (scope != .typeBody && atDirective ts) = true)
    (hend : ¬ atBodyEnd ts = true) {attributes rest : List Token} (hts : ts = attributes ++ rest)
    (ha : AttributeLists (attributes.map Token.kind))
    (hended : attributes = [] ∨ (back attributes).kind = .punctuation .rightBracket)
    (hreads : ∀ us, ¬ atMark .leftBracket us = true → Reads skipAttributes attributes us ())
    (hb : atBodyEnd rest = true) : TakesItem levels scope owner endless attributes rest {} := by
  have hne : attributes ≠ [] := by
    rintro rfl
    rw [List.nil_append] at hts
    exact hend (hts ▸ hb)
  have htwo : 2 ≤ attributes.length := by
    rw [← List.length_map Token.kind]
    exact two_le_length_of_attributeLists ha (by simpa using hne)
  have hlast := hended.resolve_left hne
  have again (m : Nat) (us : List Token) (hus : atBodyEnd us = true) :
      Reads (item (below m) scope owner) attributes us {} := by
    have hbracket : ¬ atMark .leftBracket us = true := by
      intro hm
      simp [atBodyEnd, atEnd, atMark, Token.kind_of_atMark hm] at hus
    have hbehind : Reads (behindAttributes (below m) scope owner) [] us {} := by
      refine ⟨fun vs hvs => ?_, Token.inside_nil⟩
      rw [List.nil_append, behindAttributes, hvs.atBodyEnd, if_pos hus]
    have hitem : Reads (item (below m) scope owner) (attributes ++ []) us {} :=
      reads_item hd (by simpa using hts) (by simpa using htwo) (hreads us hbracket) hbehind
    rwa [List.append_nil] at hitem
  refine ⟨hne, fun m _ => again m rest hb, fun _ us _ hmay m _ => ?_, fun more after es hrest hmore hlaid => ?_⟩
  · exact again m us (hmay.resolve_right fun hnot => hnot hlast)
  · exact .pass (.inr hlast) (.inr (hmore hb)) hlaid

/-- A namespace or a type that is read as an item of the text makes up a text. -/
theorem read_alone {own : List Token} {d : Declaration} (hb : ¬ atBodyEnd own = true) (hne : own ≠ [])
    {us : List Token} (hus : atEnd us = true)
    (h : item (below maxNesting) .text "" (own ++ us) = .done { declarations := #[d] } us) :
    (ofLevels maxNesting).read .text false "" (own ++ us) = ⟨{ declarations := #[d] }, us⟩ := by
  have halike : Alike (own ++ us) own := by rw [Alike, Token.front_append hne]
  have hitem : (item (below maxNesting) .text "" (own ++ us)).result = .ok { declarations := #[d] } := by rw [h]; rfl
  rw [read_ofLevels, readFrom_of_ok (by rwa [halike.atBodyEnd]) hitem, h, Step.rest_done, readFrom, if_pos hus]
  rfl

/-- A declaration fills the tokens it takes. -/
theorem fills_of_declares (hn : levels ≤ maxNesting) {attributes own trail rest : List Token} {d : Declaration}
    (hitem : (item (below levels) scope owner (attributes ++ (own ++ (trail ++ rest)))).result =
      .ok { declarations := #[d] })
    (ha : AttributeLists (attributes.map Token.kind)) (hbracket : ¬ atMark .leftBracket own = true)
    (hb : ¬ atBodyEnd own = true) (hmods : (modifiers own).1 = d.modifiers)
    (hbegins : d.kind.standsAlone = true → (∃ k, (front own).kind = .keyword k) ∨ (front own).kind = .identifier "ref")
    {endless : Prop} (h : Declares levels (fun m => behindAttributes (below m) scope owner)
      (fun m => item (below m) .text "") endless (front own).span own trail rest d) :
    d.Fills attributes own (trail ++ rest) where
  read := ⟨_, _, _, hitem⟩
  attributes := ha
  not_atMark := hbracket
  modifiers := hmods
  inside t ht := (h.again levels (Nat.le_refl levels) rest (.refl rest)).inside t (List.mem_append_left trail ht)
  ended := h.ended
  span hordered := h.span [] hordered rfl
  begins := hbegins
  alone hd _ hus := read_alone hb h.ended.ne_nil hus (h.alone hd maxNesting hn _ hus)

/-- A declaration is laid out in the tokens it takes. -/
theorem laidOut_of_declares {f g : Nat → List Token → Step Found} {endless : Prop} {start : Span}
    {after attributes own trail more : List Token} {d : Declaration} {es : List Declaration}
    (hfills : d.Fills attributes own (trail ++ (more ++ after)))
    (h : Declares levels f g endless start own trail (more ++ after) d)
    (hmore : atBodyEnd (more ++ after) = true → more = [])
    (hlaid : LaidOut after more es) : LaidOut after (attributes ++ (own ++ trail) ++ more) (d :: es) := by
  obtain ⟨head, body, foot, rfl, hopens, hbody⟩ := h.laidOut
  have hrest : LaidOut after (trail ++ more) es := by
    rcases h.trail_closed with htrail | hclosed
    · rwa [htrail, List.nil_append]
    · exact .pass (.inl hclosed) (.inl hclosed) hlaid
  have hclosed : Closed (head ++ (body ++ foot)) ∨ trail ++ more = [] := by
    rcases h.closed with hclosed | ⟨rfl, hend⟩
    · exact .inl hclosed
    · exact .inr (hmore (by rw [atBodyEnd, hend, Bool.true_or]))
  rw [← List.append_assoc trail] at hfills hbody
  have hall := LaidOut.cons hfills hopens hbody hclosed hrest
  simpa using hall

/-- A declaration takes its attribute lists and its own tokens. -/
theorem takesItem_declaration (hn : levels ≤ maxNesting) (hlays : ∀ l, l < levels → LaysOut l)
    (hd : ¬ (scope != .typeBody && atDirective ts) = true)
    {attributes rest : List Token} (hts : ts = attributes ++ rest) (ha : AttributeLists (attributes.map Token.kind))
    (hbracket : ¬ atMark .leftBracket rest = true)
    (hreads : ∀ us, ¬ atMark .leftBracket us = true → Reads skipAttributes attributes us ())
    (hb : ¬ atBodyEnd rest = true) (hitem : (item (below levels) scope owner ts).result = .ok x)
    (h : (behindAttributes (below levels) scope owner rest).result = .ok x) (hx : x.problems = #[]) : ∃ used,
    rest = used ++ (behindAttributes (below levels) scope owner rest).rest ∧
      TakesItem levels scope owner (AtEndless scope rest) (attributes ++ used)
        (behindAttributes (below levels) scope owner rest).rest x := by
  obtain ⟨own, d, htwo, hmods, hbegins, rfl, -, trail, hrest, hdeclares⟩ := finds_behindAttributes hlays hb h hx
  have hrest : rest = own ++ (trail ++ (behindAttributes (below levels) scope owner rest).rest) := hrest
  have hne := hdeclares.ended.ne_nil
  have hfront : front rest = front own := by rw [hrest, Token.front_append hne]
  have halike : Alike own rest := (congrArg Token.kind hfront).symm
  have hdeclares : Declares levels (fun m => behindAttributes (below m) scope owner) (fun m => item (below m) .text "")
    (AtEndless scope rest) (front own).span own trail (behindAttributes (below levels) scope owner rest).rest d :=
    hfront ▸ hdeclares
  rw [← halike.atMark] at hbracket
  rw [← halike.atBodyEnd] at hb
  generalize AtEndless scope rest = endless at hdeclares ⊢
  generalize (behindAttributes (below levels) scope owner rest).rest = left at hrest hdeclares ⊢
  rw [hts, hrest] at hitem
  have hfills := fills_of_declares hn hitem ha hbracket hb hmods hbegins hdeclares
  have again (m : Nat) (hm : levels ≤ m) (us : List Token) (hus : Replaces endless us left) :
      Reads (item (below m) scope owner) (attributes ++ (own ++ trail)) us { declarations := #[d] } := by
    have hall : ts = attributes ++ (own ++ trail) ++ left := by
      rw [hts, hrest]
      simp
    refine reads_item hd hall ?_ (hreads _ ?_) (hdeclares.again m hm us hus)
    · simp only [List.length_append]
      omega
    · rwa [List.append_assoc, atMark, Token.front_append hne]
  refine ⟨own ++ trail, by rw [List.append_assoc, ← hrest], by simp [hne], fun m hm => again m hm left (.refl left),
    fun hnot us hus _ m hm => again m hm us (.inr ⟨hnot, hus⟩), fun more after es hleft hmore hlaid => ?_⟩
  · rw [hleft] at hfills hdeclares hmore
    exact laidOut_of_declares hfills hdeclares hmore hlaid

/-- An item takes its tokens, in which it lays out what it finds. -/
theorem takesItem_item (hn : levels ≤ maxNesting) (hlays : ∀ l, l < levels → LaysOut l) (hend : ¬ atBodyEnd ts = true)
    (h : (item (below levels) scope owner ts).result = .ok x) (hx : x.problems = #[]) : ∃ used,
    ts = used ++ (item (below levels) scope owner ts).rest ∧
      TakesItem levels scope owner (AtEndless scope (skipAttributes ts).rest) used
        (item (below levels) scope owner ts).rest x := by
  by_cases hd : (scope != .typeBody && atDirective ts) = true
  · exact takesItem_directive hd h
  · have hitem := h
    have heq : item (below levels) scope owner ts =
        (skipAttributes ts).andThen fun _ rest => behindAttributes (below levels) scope owner rest := by
      rw [item_eq, if_neg hd]
    rw [heq] at h ⊢
    obtain ⟨_, ha, he⟩ := Step.andThen_eq_ok h
    obtain ⟨attributes, hts, hlists, hended, hbracket, hreads⟩ := reads_skipAttributes ha
    rw [he] at h ⊢
    by_cases hb : atBodyEnd (skipAttributes ts).rest = true
    · have hnone : behindAttributes (below levels) scope owner (skipAttributes ts).rest =
          .done {} (skipAttributes ts).rest := by rw [behindAttributes, if_pos hb]
      rw [hnone] at h ⊢
      obtain rfl := Except.ok.inj h
      exact ⟨attributes, hts, takesItem_attributes hd hend hts hlists hended hreads hb⟩
    · obtain ⟨used, hrest, htakes⟩ := takesItem_declaration hn hlays hd hts hlists hbracket hreads hb hitem h hx
      exact ⟨attributes ++ used, by rw [List.append_assoc, ← hrest, ← hts], htakes⟩

end Item

/-! ## Lists -/

theorem problems_append_eq_empty {a b : Found} (h : (a.append b).problems = #[]) :
    a.problems = #[] ∧ b.problems = #[] := by
  simpa [Found.append] using h

/-- Reading a list lays out what it finds behind what has been found. -/
structure TakesFrom (levels : Nat) (scope : Scope) (braced : Bool) (owner : String) (found : Found)
    (ts used : List Token) (ds : List Declaration) (b : Body) : Prop where
  eq_append : ts = used ++ b.rest
  inside : Inside used
  ne_end : atBodyEnd ts = true → used = []
  laidOut : LaidOut b.rest used ds
  declarations_eq : b.found.declarations.toList = found.declarations.toList ++ ds
  problems_eq : found.problems = #[]
  atEnd_rest : braced = false → atEnd b.rest = true
  again : ∀ m, levels ≤ m → ∀ us, Alike us b.rest →
    readFrom (below m) scope braced owner found (used ++ us) = ⟨b.found, us⟩

theorem takesFrom_readFrom {levels : Nat} (hn : levels ≤ maxNesting) (hlays : ∀ l, l < levels → LaysOut l)
    {scope : Scope} {braced : Bool} {owner : String} {found : Found} {ts : List Token}
    (hx : (readFrom (below levels) scope braced owner found ts).found.problems = #[]) : ∃ used ds,
    TakesFrom levels scope braced owner found ts used ds (readFrom (below levels) scope braced owner found ts) := by
  -- Where the list ends nothing is taken, and nothing is taken again in front of tokens that begin alike.
  have stop {found : Found} {ts : List Token} (hx : found.problems = #[]) (hend : braced = false → atEnd ts = true)
      (hagain : ∀ m, ∀ us, Alike us ts → readFrom (below m) scope braced owner found us = ⟨found, us⟩) :
      ∃ used ds, TakesFrom levels scope braced owner found ts used ds ⟨found, ts⟩ := by
    exact ⟨[], [], rfl, Token.inside_nil, fun _ => rfl, .nil, by simp, hx, hend, fun m _ us hus => hagain m us hus⟩
  fun_induction readFrom (below levels) scope braced owner found ts with
  | case1 found ts hend =>
    refine stop hx (fun _ => hend) fun m us hus => ?_
    rw [readFrom, hus.atEnd, if_pos hend]
  | case2 found ts hend hb hbraced =>
    refine stop hx (by simp [hbraced]) fun m us hus => ?_
    rw [readFrom, hus.atEnd, if_neg hend, hus.atMark, if_pos hb, if_pos hbraced]
  | case3 found ts hend hb hbraced ih =>
    obtain ⟨used, ds, htakes⟩ := ih hx
    have hproblems := htakes.problems_eq
    simp [Found.report] at hproblems
  | case4 found ts hend hb s x hs ih =>
    have hbody : ¬ atBodyEnd ts = true := by simp [atBodyEnd, hend, hb]
    obtain ⟨more, ds, htakes⟩ := ih hx
    obtain ⟨hfound, hproblems⟩ := problems_append_eq_empty htakes.problems_eq
    obtain ⟨used, hts, hitem⟩ := takesItem_item hn hlays hbody hs hproblems
    have hrest : s.rest = more ++ _ := htakes.eq_append
    have hts : ts = used ++ s.rest := hts
    refine ⟨used ++ more, x.declarations.toList ++ ds, ?_, ?_, fun hend => absurd hend hbody, ?_, ?_, hfound,
      htakes.atEnd_rest, fun m hm us hus => ?_⟩
    · rw [List.append_assoc, ← hrest, ← hts]
    · exact (hitem.again levels (Nat.le_refl levels)).inside.append htakes.inside
    · exact hitem.laidOut more _ ds hrest htakes.ne_end htakes.laidOut
    · rw [htakes.declarations_eq, Found.append, Array.toList_append, List.append_assoc]
    · have hmore : Alike (more ++ us) s.rest := hrest ▸ hus.append more
      have hread : item (below m) scope owner (used ++ (more ++ us)) = .done x (more ++ us) :=
        (hitem.again m hm).again (more ++ us) hmore
      have halike := Token.alike_of_eq_append hts hitem.ne_nil (more ++ us)
      have hok : (item (below m) scope owner (used ++ (more ++ us))).result = .ok x := by rw [hread]; rfl
      rw [List.append_assoc, readFrom_of_ok (by rwa [halike.atBodyEnd]) hok, hread]
      exact htakes.again m hm us hus
  | case5 found ts hend hb s d hs ih =>
    obtain ⟨used, ds, htakes⟩ := ih hx
    have hproblems := htakes.problems_eq
    simp [Found.report] at hproblems

/-- Lists of declarations are laid out wherever reading meets no fault in them, however deep their bodies nest. -/
theorem laysOut_ofLevels (levels : Nat) (hn : levels ≤ maxNesting) : LaysOut levels := by
  induction levels using Nat.strongRecOn with
  | ind levels ih =>
    intro scope braced owner ts hx
    rw [read_ofLevels] at hx ⊢
    have hlays (l : Nat) (hl : l < levels) : LaysOut l := ih l hl (Nat.le_trans (Nat.le_of_lt hl) hn)
    obtain ⟨used, ds, htakes⟩ := takesFrom_readFrom hn hlays hx
    refine ⟨used, htakes.eq_append, htakes.inside, ?_, htakes.atEnd_rest, fun m hm us hus => ?_⟩
    · rw [htakes.declarations_eq]
      exact htakes.laidOut
    · rw [read_ofLevels]
      exact htakes.again m hm us hus

end Reader

/-! ## Texts -/

/-- A text is accepted where reading it as a list meets no fault. -/
theorem readDeclarations_eq_ok_iff {ts : List Token} {d : Declaration} : readDeclarations ts = .ok d ↔
    (Reader.readFrom (Reader.below maxNesting) .text false "" {} ts).found.problems = #[] ∧
      d = ⟨.unit, "", [],
        Span.zero.merge (front (Reader.readFrom (Reader.below maxNesting) .text false "" {} ts).rest).span,
        (Reader.readFrom (Reader.below maxNesting) .text false "" {} ts).found.declarations.toList⟩ := by
  unfold readDeclarations
  rw [Reader.read_ofLevels]
  generalize Reader.readFrom (Reader.below maxNesting) .text false "" {} ts = b
  by_cases hx : b.found.problems = #[]
  · simp [hx, eq_comm]
  · simp [hx]

theorem exists_eq_ok {ε α : Type} {x : Except ε α} (h : x.isOk = true) : ∃ a, x = .ok a := by
  cases x with
  | error e => cases h
  | ok a => exact ⟨a, rfl⟩

theorem DeclarationTree.ofTokens_eq_ok_iff {ts : List Token} {t : DeclarationTree} :
    ofTokens ts = .ok t ↔ ∃ d, readDeclarations ts = .ok d ∧ ofDeclaration d = t := by
  unfold ofTokens
  cases readDeclarations ts <;> simp [Except.map]

theorem DeclarationTree.ofSource_eq_ok_iff {source : String} {t : DeclarationTree} : ofSource source = .ok t ↔
    ∃ ts d, lex source = .ok ts ∧ readDeclarations ts = .ok d ∧ ofDeclaration d = t := by
  unfold ofSource
  cases lex source with
  | error ds => simp [bind, Except.bind]
  | ok ts => simp [bind, Except.bind, ofTokens_eq_ok_iff]

/-- The declarations of a text are laid out in its tokens. -/
theorem laidOut_of_readDeclarations {ts : List Token} {d : Declaration} (h : readDeclarations ts = .ok d) :
    ∃ used rest, ts = used ++ rest ∧ atEnd rest = true ∧ Inside used ∧ LaidOut rest used d.children ∧
      d = ⟨.unit, "", [], Span.zero.merge (front rest).span, d.children⟩ := by
  obtain ⟨hx, rfl⟩ := readDeclarations_eq_ok_iff.mp h
  rw [← Reader.read_ofLevels] at hx ⊢
  obtain ⟨used, htakes⟩ := Reader.laysOut_ofLevels maxNesting (Nat.le_refl maxNesting) .text false "" ts hx
  exact ⟨used, _, htakes.eq_append, htakes.atEnd_rest rfl, htakes.inside, htakes.laidOut, rfl⟩

/-- A namespace or a type makes up a text, which declares it and nothing else. -/
theorem readDeclarations_alone {d : Declaration} {attributes own after : List Token} (h : d.Fills attributes own after)
    (hd : d.kind.standsAlone = true) {us : List Token} (hus : atEnd us = true) :
    readDeclarations (own ++ us) = .ok ⟨.unit, "", [], Span.zero.merge (front us).span, [d]⟩ := by
  unfold readDeclarations
  rw [h.alone hd us hus]
  rfl

end TestScaffold
