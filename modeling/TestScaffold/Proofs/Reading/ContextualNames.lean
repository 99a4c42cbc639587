import TestScaffold.Proofs.Reading.Renaming

/-!
# Contextual keywords as names

A word that is reserved in some positions only may stand wherever a declaration is named. It is read as something else
in one position: in front of a member that begins with its own name, as constructors do, where modifiers and records
begin as well.

Results:
* `Reader.Site.Misreads`: an item in which a keyword would be read in that position.
* `Respelling.allows_nameSpots`: in all other items, a change of declared names leaves alone what decides how they are
  read.
* `DeclarationTree.renamed_of_ofTokens`: a text that is accepted is accepted with a contextual keyword in place of a
  declared name, and nothing but that name changes in its tree.
* `DeclarationTree.not_renamed_constructor`: a constructor whose type is called `partial` is rejected.
-/

namespace TestScaffold

open Token (front second wordAt)

theorem Keyword.spelling_ne_empty (k : Keyword) : k.spelling ≠ "" := by
  cases k <;> decide

theorem TokenKind.eq_of_word_eq_spelling {kind : TokenKind} {k : Keyword} (h : kind.word = k.spelling) :
    kind = .identifier k.spelling ∨ kind = .keyword k := by
  cases kind with
  | identifier name => exact .inl (congrArg identifier h)
  | keyword k' => exact .inr (congrArg keyword (Keyword.spelling_injective h))
  | _ => exact absurd h.symm k.spelling_ne_empty

/-! ## Members that begin with their names -/

namespace Head

/-- No name stands behind the name of a member. -/
theorem name?_second_of_spot {k : Head} {ts : List Token} {x : String} (hread : (Head.read {} ts).result = .ok k)
    (hx : (front ts).kind = .identifier x) (hspot : Head.spot {} none ts = some ts) :
    (second ts).kind.name? = none := by
  have hn : (front ts).kind.name? = some x := by rw [hx]; rfl
  have hbehind : (Head.read {} ts).rest.length < ts.length :=
    ((suffix_of_spot hspot).resolve_left (by simp)).1
  rw [spot_of_name? {} none hn, Head.note_of_name? {} hn] at hspot
  match ts, hspot with
  | [], _ => cases hx
  | [t], _ =>
    have hrest : (Head.read {} [t]).rest = [] := List.length_eq_zero_iff.mp (Nat.lt_one_iff.mp hbehind)
    have hend := not_atEnd_of_read hread
    rw [hrest] at hend
    exact absurd rfl hend
  | t :: u :: us, hspot =>
    refine Option.eq_none_iff_forall_ne_some.mpr fun n hsecond => ?_
    have hsecond : (front (u :: us)).kind.name? = some n := hsecond
    rw [List.tail_cons, spot_of_name? _ _ hsecond] at hspot
    rcases suffix_of_spot hspot with hlast | ⟨-, hsuffix⟩
    · have hsame : u :: us = t :: u :: us := Option.some.inj hlast
      have hlength : us.length + 1 = us.length + 1 + 1 := congrArg List.length hsame
      omega
    · have hle : us.length + 1 + 1 ≤ us.length := hsuffix.length_le
      omega

end Head

namespace Reader

/-- An item that begins with its own name `x`, which in the form of the keyword `k` would be read as a modifier or as
the beginning of a record. -/
def Site.Misreads (s : Site) (x : String) (k : Keyword) : Prop :=
  s.heading ∈ s.spots ∧ (front s.heading).kind = .identifier x ∧
    (k.isModifier = true ∨ k = .recordKw ∧ atRecordFlavour s.heading = true)

instance (s : Site) (x : String) (k : Keyword) : Decidable (s.Misreads x k) :=
  inferInstanceAs (Decidable (_ ∧ _ ∧ _))

theorem mem_flatten_nameSpots {levels : Nat} {c : Items} {us : List Token} :
    us ∈ (nameSpots levels c).flatten ↔ ∃ s ∈ sites levels c, us ∈ s.spots := by
  simp only [nameSpots, List.mem_flatten, List.mem_filterMap, Option.map_eq_some_iff]
  constructor
  · rintro ⟨_, ⟨s, hs, f, hf, rfl⟩, hus⟩
    exact ⟨s, hs, by simpa [Site.spots, hf] using hus⟩
  · rintro ⟨s, hs, hus⟩
    cases hf : s.form? with
    | none => simp [Site.spots, hf] at hus
    | some f => exact ⟨_, ⟨s, hs, f, hf, rfl⟩, by simpa [Site.spots, hf] using hus⟩

namespace Items

variable {c : Items} {levels : Nat} {x : Found}

/-- What begins with its own name is a member, and no name stands behind that one. -/
theorem Begins.name?_second_heading (h : c.Begins levels x) {n : String}
    (hn : (front (c.first levels).heading).kind = .identifier n)
    (hspot : (c.first levels).heading ∈ (c.first levels).spots) :
    (second (c.first levels).heading).kind.name? = none := by
  cases h.readsFirst with
  | directive hd =>
    rw [Site.spots, Site.form?_eq_none (.inl hd)] at hspot
    cases hspot
  | attributes hd ha hb =>
    rw [Site.spots, Site.form?_eq_none (.inr hb)] at hspot
    cases hspot
  | @declaration x f hd ha hb hf hread =>
    have hform := Site.form?_eq hd hb
    have hplain : f = if c.scope == .typeBody then .member none (c.first levels).heading
        else .unknown (c.first levels).heading :=
      hf.trans (form_of_plain _ _ (by simp [hn]) (by simp [atRecord, Token.atKeyword, hn]))
    have hspots : (c.first levels).spots = f.spots := by
      rw [Site.spots, hform, hf]
      rfl
    rw [hspots] at hspot
    by_cases hscope : (c.scope == .typeBody) = true
    · rw [if_pos hscope] at hplain
      rw [hplain] at hread hspot
      obtain ⟨d, hd, -⟩ := Step.andThen_eq_ok (congrArg Step.result hread)
      obtain ⟨k, hk, -⟩ := Step.andThen_eq_ok hd
      exact Head.name?_second_of_spot hk hn (Option.mem_toList.mp hspot)
    · rw [if_neg hscope] at hplain
      rw [hplain] at hspot
      cases hspot

/-- A keyword that occurs in no form is no word of a declared name. -/
theorem wordAt_ne_spelling {k : Keyword} (h : (c.read levels).found.problems = #[])
    (hfresh : ∀ u ∈ c.tokens, u.kind ≠ .keyword k ∧ u.kind ≠ .identifier k.spelling) {us : List Token}
    (hus : us ∈ (nameSpots levels c).flatten) : wordAt us ≠ k.spelling := by
  obtain ⟨s, hs, hus⟩ := mem_flatten_nameSpots.mp hus
  obtain ⟨hlt, hsuffix⟩ := (within_of_mem_sites h s hs).spot_suffix hus
  intro hword
  match us with
  | [] => exact absurd hlt (Nat.not_lt_zero _)
  | u :: us =>
    obtain ⟨hkeyword, hidentifier⟩ := hfresh u (hsuffix.mem List.mem_cons_self)
    exact (TokenKind.eq_of_word_eq_spelling hword).elim hidentifier hkeyword

end Items

end Reader

/-! ## Changes of declared names -/

namespace Respelling

open Reader

variable {r : Respelling} {us : List Token}

/-- Where a declared name is spelled like the identifier that is replaced, it is that identifier. -/
theorem word_of_mem (hname : wordAt us = r.name → (front us).kind = .identifier r.name) (hus : us ∈ r.spots) :
    r.word us = if wordAt us = r.name then r.keyword.spelling else wordAt us := by
  rw [word]
  rcases r.token_cases us with hsame | ⟨hkind, -, hchange⟩
  · rw [hsame, if_neg]
    · rfl
    · intro hword
      rw [token, if_pos ⟨hname hword, hus⟩] at hsame
      have hkind := hname hword
      rw [← hsame] at hkind
      cases hkind
  · rw [hchange, if_pos]
    · rfl
    · rw [wordAt, hkind]
      rfl

theorem separates_spots (hname : ∀ us ∈ r.spots, wordAt us = r.name → (front us).kind = .identifier r.name)
    (hfresh : ∀ us ∈ r.spots, wordAt us ≠ r.keyword.spelling) : r.Separates (· ∈ r.spots) := by
  intro us vs hus hvs
  have hus' := hfresh us hus
  have hvs' := hfresh vs hvs
  rw [word_of_mem (hname us hus) hus, word_of_mem (hname vs hvs) hvs]
  split <;> split <;> grind

/-- A change of the names of a list touches nothing that decides how its items are read, but at the front of items that
begin with their own names. -/
theorem allows_nameSpots {levels : Nat} {c : Items} (h : (c.read levels).found.problems = #[])
    (hspots : r.spots = (nameSpots levels c).flatten)
    (hfirst : ∀ s ∈ sites levels c, ¬ s.Misreads r.name r.keyword) :
    ∀ s ∈ sites levels c, r.Allows (· ∈ r.spots) s := by
  intro s hs
  have hwithin := Items.within_of_mem_sites h s hs
  -- A change in the item outside of its body is one of its own name.
  have hown {us : List Token} (hsuffix : us <:+ s.tokens) (hheading : s.heading.length ≤ us.length)
      (hrest : s.rest.length < us.length) (hchange : r.token us ≠ front us) :
      us ∈ s.spots ∧ (front us).kind = .identifier r.name := by
    obtain ⟨hkind, hus, -⟩ := (r.token_cases us).resolve_left hchange
    rw [hspots] at hus
    obtain ⟨s', hs', hus⟩ := mem_flatten_nameSpots.mp hus
    exact ⟨Items.mem_spots_of_mem_sites h s hs s' hs' us hus hrest hheading hsuffix.length_le, hkind⟩
  refine ⟨fun us hus => ?_, fun us hsuffix hlt => ?_, fun hform => ?_⟩
  · rw [hspots]
    exact mem_flatten_nameSpots.mpr ⟨s, hs, hus⟩
  · refine Decidable.byContradiction fun hchange => ?_
    have hspot := (hown hsuffix (Nat.le_of_lt hlt) (Nat.lt_of_le_of_lt hwithin.rest_le hlt) hchange).1
    exact absurd (hwithin.spot us hspot).2.length_le (Nat.not_le.mpr hlt)
  · refine (Decidable.em _).imp_right fun hchange => ?_
    obtain ⟨l, d, x, hbegins, rfl⟩ := Items.exists_begins_of_mem_sites h s hs
    obtain ⟨hspot, hkind⟩ :=
      hown (Site.heading_suffix _) (Nat.le_refl _) (hbegins.length_rest_lt_heading hform) hchange
    have hread := hfirst _ hs
    rw [Site.Misreads, not_and, not_and] at hread
    obtain ⟨hmodifier, hrecord⟩ := not_or.mp (hread hspot hkind)
    refine ⟨hmodifier, fun hk => ⟨by simpa [hk] using hrecord, ?_⟩⟩
    rw [hbegins.name?_second_heading hkind hspot]
    rfl

end Respelling

/-! ## Texts -/

/-- The list that a text is. -/
def Reader.Items.ofText (ts : List Token) : Reader.Items := ⟨.text, false, "", ts⟩

/-- For each declaration of a text, in preorder, where the words stand that make up its name. -/
def declaredNames (ts : List Token) : List (List (List Token)) := Reader.nameSpots maxNesting (.ofText ts)

/-- The change that puts a contextual keyword in place of the identifier `x` where that is a declared name, or a part of
one. -/
def Respelling.ofNames (x : String) (k : Keyword) (hk : k.isContextual = true) (ts : List Token) : Respelling :=
  ⟨x, k, hk, (declaredNames ts).flatten⟩

/-- The names that are read are made of the words at their spots. -/
theorem Reader.Items.names_read {levels : Nat} {c : Reader.Items} (h : (c.read levels).found.problems = #[]) :
    Declaration.namesAll (c.read levels).found.declarations.toList =
      (Reader.nameSpots levels c).map fun row => ".".intercalate (row.map wordAt) := by
  -- This is what a change of words that changes nothing says.
  let r : Respelling := ⟨"", .recordKw, rfl, []⟩
  have htoken (us : List Token) : r.token us = front us := (r.token_cases us).resolve_right fun h => by cases h.2.1
  have htokens (ts : List Token) : r.tokens ts = ts := by
    induction ts with
    | nil => rfl
    | cons t ts ih => rw [Respelling.tokens, htoken, ih, front]
  have hword : r.word = wordAt := funext fun us => by rw [Respelling.word, htoken, wordAt]
  have hseparates : r.Separates fun _ => True := fun us vs _ _ => by rw [hword]
  have hcalls : r.Calls (fun _ => True) c c.owner := fun _ =>
    ⟨[⟨.identifier c.owner, .zero⟩], trivial, rfl, by rw [hword]; rfl⟩
  have hrenames := r.renames_read hseparates h
    (fun s _ => ⟨fun _ _ => trivial, fun us _ _ => htoken us, fun _ => .inl (htoken _)⟩) hcalls
  have hsame : c.respelled r c.owner = c := by rw [Reader.Items.respelled, htokens]
  have hspelled : r.spelled = fun row => ".".intercalate (row.map wordAt) :=
    funext fun row => by rw [Respelling.spelled, hword]
  have hnames := hrenames.found.names_eq
  rwa [hsame, hspelled] at hnames

namespace DeclarationTree

/-- In a text that is accepted, a contextual keyword that the text does not use may stand in place of a name wherever
that is declared: the text is accepted, and only the name changes in its tree. Two things are asked of the text. Where a
declared name is spelled like the one that is replaced, it is the identifier and no keyword of that spelling. And no
member begins with the name in a place where the keyword in question is read as a modifier or as the beginning of a
record. -/
theorem renamed_of_ofTokens {ts : List Token} {t : DeclarationTree} {x : String} {k : Keyword}
    (h : ofTokens ts = .ok t) (hk : k.isContextual = true)
    (hfresh : ∀ u ∈ ts, u.kind ≠ .keyword k ∧ u.kind ≠ .identifier k.spelling)
    (hname : ∀ us ∈ (declaredNames ts).flatten, wordAt us = x → (front us).kind = .identifier x)
    (hfirst : ∀ s ∈ Reader.sites maxNesting (.ofText ts), ¬ s.Misreads x k) :
    t.names = "" :: (declaredNames ts).map (fun row => ".".intercalate (row.map wordAt)) ∧
      ∃ t', ofTokens ((Respelling.ofNames x k hk ts).tokens ts) = .ok t' ∧ t'.anonymous = t.anonymous ∧
        t'.names = "" :: (declaredNames ts).map fun row =>
          ".".intercalate (row.map fun us => if wordAt us = x then k.spelling else wordAt us) := by
  obtain ⟨d, hd, rfl⟩ := ofTokens_eq_ok_iff.mp h
  obtain ⟨hproblems, rfl⟩ := readDeclarations_eq_ok_iff.mp hd
  have hread : ((Reader.Items.ofText ts).read maxNesting).found.problems = #[] := hproblems
  generalize hr : Respelling.ofNames x k hk ts = r
  have hspots : r.spots = (declaredNames ts).flatten := by rw [← hr]; rfl
  obtain ⟨rfl, rfl⟩ : x = r.name ∧ k = r.keyword := by rw [← hr]; exact ⟨rfl, rfl⟩
  rw [← hspots] at hname
  have hwords (us : List Token) (hus : us ∈ r.spots) : wordAt us ≠ r.keyword.spelling :=
    Reader.Items.wordAt_ne_spelling hread hfresh (hspots ▸ hus)
  have hcalls : r.Calls (· ∈ r.spots) (.ofText ts) "" := fun hscope => by cases hscope
  have hrenames := r.renames_read (r.separates_spots hname hwords) hread (r.allows_nameSpots hread hspots hfirst) hcalls
  have hagain := readDeclarations_eq_ok_iff.mpr ⟨hrenames.found.problems_eq, rfl⟩
  refine ⟨?_, _, ofTokens_eq_ok_iff.mpr ⟨_, hagain, rfl⟩, ?_, ?_⟩
  · rw [names_ofDeclaration, Declaration.names]
    exact congrArg _ (Reader.Items.names_read hread)
  · have hspan : (front ((Reader.Items.ofText (r.tokens ts)).read maxNesting).rest).span =
        (front ((Reader.Items.ofText ts).read maxNesting).rest).span := by
      have hrest : ((Reader.Items.ofText (r.tokens ts)).read maxNesting).rest = _ := hrenames.rest_eq
      rw [hrest, Respelling.front_tokens, Respelling.span_token]
    rw [anonymous_ofDeclaration, anonymous_ofDeclaration, Declaration.anonymous, Declaration.anonymous]
    refine congrArg ofDeclaration ?_
    congr 1
    · exact congrArg Span.zero.merge hspan
    · exact hrenames.found.anonymous_eq
  · rw [names_ofDeclaration, Declaration.names]
    refine congrArg _ (hrenames.found.names_eq.trans (List.map_congr_left fun row hrow => ?_))
    refine congrArg _ (List.map_congr_left fun us hus => ?_)
    have hmem : us ∈ r.spots := hspots ▸ List.mem_flatten.mpr ⟨row, hrow, hus⟩
    exact Respelling.word_of_mem (hname us hmem) hmem

/-- A namespace `N.x` with a class `x` in it, which has a constructor, whose body uses the word too, and a field `x`. In
place of the declared names `x` may stand another word. -/
def constructorTokens (x : TokenKind) : List Token := [
  .keyword .namespaceKw, .identifier "N", .punctuation .dot, x, .punctuation .leftBrace,
    .keyword .classKw, x, .punctuation .leftBrace,
      x, .punctuation .leftParen, .punctuation .rightParen,
        .punctuation .leftBrace, .identifier "x", .punctuation .semicolon, .punctuation .rightBrace,
      .identifier "int", x, .punctuation .semicolon,
    .punctuation .rightBrace,
  .punctuation .rightBrace, .endOfText].map fun k => ⟨k, .zero⟩

theorem renamed_constructor :
    (Respelling.ofNames "x" .recordKw rfl (constructorTokens (.identifier "x"))).tokens
        (constructorTokens (.identifier "x")) = constructorTokens (.keyword .recordKw) ∧
      ∃ t t', ofTokens (constructorTokens (.identifier "x")) = .ok t ∧
        ofTokens (constructorTokens (.keyword .recordKw)) = .ok t' ∧ t'.anonymous = t.anonymous ∧
          t.names = ["", "N.x", "x", "x", "x"] ∧ t'.names = ["", "N.record", "record", "record", "record"] := by
  have hwords : (Respelling.ofNames "x" .recordKw rfl (constructorTokens (.identifier "x"))).tokens
      (constructorTokens (.identifier "x")) = constructorTokens (.keyword .recordKw) := by decide +kernel
  obtain ⟨t, ht⟩ := @exists_eq_ok _ _ (ofTokens (constructorTokens (.identifier "x"))) (by decide +kernel)
  obtain ⟨hnames, t', ht', hanonymous, hnames'⟩ := renamed_of_ofTokens (x := "x") (k := .recordKw) ht rfl
    (by decide) (by decide +kernel) (by decide +kernel)
  rw [hwords] at ht'
  refine ⟨hwords, t, t', ht, ht', hanonymous, hnames.trans ?_, hnames'.trans ?_⟩ <;> decide +kernel

/-- A modifier is taken for one in front of a member also where that word is the member's name: what serves for all
other names of this text does not serve for its constructor. -/
theorem not_renamed_constructor :
    (ofTokens (constructorTokens (.identifier "x"))).isOk = true ∧ Keyword.partialKw.isContextual = true ∧
      (∀ u ∈ constructorTokens (.identifier "x"), u.kind ≠ .keyword .partialKw ∧
        u.kind ≠ .identifier Keyword.partialKw.spelling) ∧
      (∀ us ∈ (declaredNames (constructorTokens (.identifier "x"))).flatten,
        wordAt us = "x" → (front us).kind = .identifier "x") ∧
      (Respelling.ofNames "x" .partialKw rfl (constructorTokens (.identifier "x"))).tokens
        (constructorTokens (.identifier "x")) = constructorTokens (.keyword .partialKw) ∧
      (ofTokens (constructorTokens (.keyword .partialKw))).isOk = false := by
  refine ⟨?_, rfl, ?_, ?_, ?_, ?_⟩ <;> decide +kernel

end DeclarationTree

end TestScaffold
