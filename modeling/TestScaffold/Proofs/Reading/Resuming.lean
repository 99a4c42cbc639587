import TestScaffold.Proofs.Reading.Directives
import TestScaffold.Proofs.Reading.Laying

/-!
# Reading goes on behind a list

What reading makes of a list of declarations does not depend on what stands behind the list, as long as that begins
with nothing that could belong to its last declaration. Behind it the reading goes on as it would have begun. Only a
namespace that goes on to the end of the text leaves nothing behind it.

Results:
* `Reader.readFrom_append`: what has been found in front of a list does not change how it is read.
* `Reader.readFrom_resumes`: a list that is read without a fault is read again in front of other tokens, and the reading
  goes on with these.
* `Reader.follows_of_readFrom`: what a text may begin with belongs to no declaration in front of it.
-/

namespace TestScaffold

open Token (front back atEnd atMark atKeyword atBodyEnd)
open Token (Alike Inside Follows Ordered)

/-! ## Namespaces without an end -/

/-- Whether the word `namespace` stands at the offset `start`, with a dotted name and a semicolon behind it. -/
def Token.HeadsFile (ts : List Token) (start : Nat) : Prop := ∃ before t words rest,
  ts = before ++ t :: (words ++ rest) ∧ t.kind = .keyword .namespaceKw ∧ t.span.start = start ∧
    (∀ w ∈ words, Reader.IsNamePart w) ∧ atMark .semicolon rest = true

theorem Token.HeadsFile.append {ts : List Token} {start : Nat} (h : HeadsFile ts start) (us : List Token) :
    HeadsFile (us ++ ts) start := by
  obtain ⟨before, t, words, rest, rfl, hrest⟩ := h
  exact ⟨us ++ before, t, words, rest, (List.append_assoc ..).symm, hrest⟩

theorem Token.HeadsFile.exists_semicolon {ts : List Token} {start : Nat} (h : HeadsFile ts start) :
    ∃ t ∈ ts, t.kind = .punctuation .semicolon := by
  obtain ⟨before, t, words, rest, rfl, -, -, -, hsemicolon⟩ := h
  have hmem := (Token.exists_cons (Token.not_atEnd_of_atMark hsemicolon)).1
  rw [hmem]
  exact ⟨front rest, by simp, Token.kind_of_atMark hsemicolon⟩

open Token (HeadsFile)

namespace Reader

theorem not_atMark_of_atDirective {ts : List Token} (h : atDirective ts = true) : ¬ atMark .leftBracket ts = true := by
  intro hm
  simp [atDirective, atKeyword, Token.atIdentifier, Token.kind_of_atMark hm] at h

theorem lastToken_mem {ts : List Token} (h : ¬ atEnd ts = true) : lastToken ts ∈ ts := by
  obtain ⟨hts, -⟩ := Token.exists_cons h
  rw [lastToken]
  cases hlast : (ts.takeWhile fun t => t.kind != .endOfText).getLast? with
  | none =>
    rw [hts]
    exact List.mem_cons_self
  | some t => exact (List.takeWhile_sublist _).subset (List.mem_of_getLast? hlast)

/-- At the top of a text the word `namespace` begins a namespace. -/
theorem item_eq_namespaceDeclaration {inner : Option Reader} {owner : String} {ts : List Token} {x : Found}
    (h : (item inner .text owner ts).result = .ok x)
    (hkeyword : atKeyword .namespaceKw (skipAttributes ts).rest = true) : item inner .text owner ts =
      namespaceDeclaration inner .text (front (skipAttributes ts).rest).span (skipAttributes ts).rest := by
  have hkind : (front (skipAttributes ts).rest).kind = .keyword .namespaceKw := eq_of_beq hkeyword
  have hdirective : ¬ atDirective ts = true := by
    intro hd
    have hself : (skipAttributes ts).rest = ts := by
      rw [skipAttributes, if_neg (not_atMark_of_atDirective hd)]
      rfl
    rw [hself] at hkind
    simp [atDirective, atKeyword, Token.atIdentifier, hkind] at hd
  rw [item_eq, if_neg (by simp [hdirective])] at h ⊢
  obtain ⟨_, -, he⟩ := Step.andThen_eq_ok h
  have hmods : modifiers (skipAttributes ts).rest = ([], (skipAttributes ts).rest) := by
    refine modifiers_eq_nil (fun k hk => ?_) (by simp [hkind])
    rw [hkind] at hk
    cases hk
    decide
  rw [he]
  simp [behindAttributes, atBodyEnd, atEnd, atMark, declaration, hmods, hkind, TokenKind.keyword?, typeKind?, atRecord,
    atKeyword]

/-- A namespace without an end is found where its header stands. -/
theorem exists_headsFile {inner : Option Reader} {owner : String} {ts : List Token} {x : Found}
    (h : (item inner .text owner ts).result = .ok x) (hendless : AtEndless .text (skipAttributes ts).rest)
    (hordered : Ordered ts) : ∃ d ∈ x.declarations.toList, d.kind = .namespaceBlock ∧ HeadsFile ts d.span.start := by
  obtain ⟨-, hkeyword, hsemicolon⟩ := hendless
  have hkind : (front (skipAttributes ts).rest).kind = .keyword .namespaceKw := eq_of_beq hkeyword
  rw [item_eq_namespaceDeclaration h hkeyword] at h
  have hsuffix := rest_skipAttributes_suffix ts
  generalize (skipAttributes ts).rest = rest at *
  rw [namespaceDeclaration_eq] at h
  obtain ⟨name, hname, he⟩ := Step.andThen_eq_ok h
  rw [he] at h
  obtain ⟨words, htail, -, hparts, -⟩ := reads_qualifiedName hname
  generalize (qualifiedName rest.tail).rest = left at *
  cases inner with
  | none => simp [namespaceEnd, Step.fail] at h
  | some reader =>
    have hmisplaced : ¬ (atMark .semicolon left && Scope.text != .text) = true := by simp
    rw [namespaceEnd, if_neg hmisplaced] at h
    simp only [hsemicolon, if_true] at h
    obtain rfl := Except.ok.inj h
    obtain ⟨hrest, -⟩ := Token.exists_cons (Token.not_atEnd_of_atKeyword hkeyword)
    have hlast : lastToken left ∈ rest := by
      rw [hrest, htail]
      refine List.mem_cons_of_mem _ (List.mem_append_right words (lastToken_mem ?_))
      exact Token.not_atEnd_of_atMark hsemicolon
    obtain ⟨before, rfl⟩ := hsuffix
    refine ⟨_, List.mem_singleton_self _, rfl, before, front rest, words, left, ?_, hkind, ?_, hparts, hsemicolon⟩
    · rw [← htail, ← hrest]
    · exact (Nat.min_eq_left (hordered.right.front_start_le hlast)).symm

end Reader

/-! ## What has been found in front -/

namespace Found

variable (a b c : Found)

theorem append_assoc : (a.append b).append c = a.append (b.append c) := by
  simp [append, Array.append_assoc]

theorem append_empty : a.append {} = a := by
  simp [append]

theorem append_report (d : Diagnostic) : (a.append b).report d = a.append (b.report d) := by
  simp [append, report]

end Found

namespace Reader

/-- What has been found in front of a list does not change how it is read. -/
theorem readFrom_append (inner : Option Reader) (scope : Scope) (braced : Bool) (owner : String) (a b : Found)
    (ts : List Token) : readFrom inner scope braced owner (a.append b) ts =
      ⟨a.append (readFrom inner scope braced owner b ts).found, (readFrom inner scope braced owner b ts).rest⟩ := by
  fun_induction readFrom inner scope braced owner b ts with
  | case1 b ts hend => rw [readFrom, if_pos hend]
  | case2 b ts hend hb hbraced => rw [readFrom, if_neg hend, if_pos hb, if_pos hbraced]
  | case3 b ts hend hb hbraced ih => rw [readFrom, if_neg hend, if_pos hb, if_neg hbraced, Found.append_report, ih]
  | case4 b ts hend hb s x hs ih =>
    have hbody : ¬ atBodyEnd ts = true := by simp [atBodyEnd, hend, hb]
    rw [readFrom_of_ok hbody hs, Found.append_assoc, ih]
  | case5 b ts hend hb s d hs ih =>
    have hbody : ¬ atBodyEnd ts = true := by simp [atBodyEnd, hend, hb]
    rw [readFrom_of_error hbody hs, Found.append_report, ih]

/-- What has been found stays found. -/
theorem mem_readFrom {inner : Option Reader} {scope : Scope} {braced : Bool} {owner : String} {found : Found}
    {d : Declaration} (h : d ∈ found.declarations.toList) (ts : List Token) :
    d ∈ (readFrom inner scope braced owner found ts).found.declarations.toList := by
  rw [← Found.append_empty found, readFrom_append]
  simpa [Found.append] using .inl (by simpa using h)

/-! ## Lists in front of other tokens -/

theorem MayEnd.of_append {used more us : List Token} (h : MayEnd (used ++ more) us) (hmore : more ≠ []) :
    MayEnd more us := by
  rwa [MayEnd, Token.back_append used hmore] at h

/-- Whether no namespace among `ds` goes on to the end of the text, whose tokens are `ts`. -/
def AllEnd (ts : List Token) (ds : List Declaration) : Prop :=
  Ordered ts ∧ ∀ d ∈ ds, d.kind = .namespaceBlock → ¬ HeadsFile ts d.span.start

theorem AllEnd.right {us ts : List Token} {ds : List Declaration} (h : AllEnd (us ++ ts) ds) : AllEnd ts ds :=
  ⟨h.1.right, fun d hd hkind hheads => h.2 d hd hkind (hheads.append us)⟩

/-- A list that is read without a fault is read again in front of other tokens, and the reading goes on with these. -/
theorem readFrom_resumes {levels : Nat} (hn : levels ≤ maxNesting) (hlays : ∀ l, l < levels → LaysOut l) {scope : Scope}
    {braced : Bool} {owner : String} {found : Found} {ts : List Token}
    (hx : (readFrom (below levels) scope braced owner found ts).found.problems = #[])
    (hall : scope = .text →
      AllEnd ts (readFrom (below levels) scope braced owner found ts).found.declarations.toList) :
    ∃ used, ts = used ++ (readFrom (below levels) scope braced owner found ts).rest ∧
      ∀ us, Follows us → MayEnd used us → ∀ m, levels ≤ m → ∀ bracedThen,
        readFrom (below m) scope bracedThen owner found (used ++ us) =
          readFrom (below m) scope bracedThen owner (readFrom (below levels) scope braced owner found ts).found us := by
  fun_induction readFrom (below levels) scope braced owner found ts with
  | case1 found ts hend => exact ⟨[], rfl, fun us _ _ m _ bracedThen => rfl⟩
  | case2 found ts hend hb hbraced => exact ⟨[], rfl, fun us _ _ m _ bracedThen => rfl⟩
  | case3 found ts hend hb hbraced ih =>
    have hproblems := problems_eq_empty_of_readFrom hx
    simp [Found.report] at hproblems
  | case4 found ts hend hb s x hs ih =>
    have hbody : ¬ atBodyEnd ts = true := by simp [atBodyEnd, hend, hb]
    have hproblems := (problems_append_eq_empty (problems_eq_empty_of_readFrom hx)).2
    obtain ⟨used, hts, hitem⟩ := takesItem_item hn hlays hbody hs hproblems
    have hts : ts = used ++ s.rest := hts
    obtain ⟨more, hrest, hresumes⟩ := ih hx fun hscope => (hts ▸ hall hscope).right
    refine ⟨used ++ more, by rw [List.append_assoc, ← hrest, ← hts], fun us hus hmay m hm bracedThen => ?_⟩
    have hread : item (below m) scope owner (used ++ (more ++ us)) = .done x (more ++ us) := by
      by_cases hmore : more = []
      · subst hmore
        have hnot : ¬ AtEndless scope (skipAttributes ts).rest := by
          intro hendless
          obtain ⟨rfl, -⟩ := id hendless
          obtain ⟨hordered, hnone⟩ := hall rfl
          obtain ⟨d, hd, hkind, hheads⟩ := exists_headsFile hs hendless hordered
          exact hnone d (mem_readFrom (by simpa [Found.append] using .inr (by simpa using hd)) _) hkind hheads
        rw [List.append_nil] at hmay
        exact (hitem.resumes hnot us hus hmay m hm).again us (.refl us)
      · exact (hitem.again m hm).again (more ++ us) (Token.alike_of_eq_append hrest hmore us)
    have halike := Token.alike_of_eq_append hts hitem.ne_nil (more ++ us)
    have hok : (item (below m) scope owner (used ++ (more ++ us))).result = .ok x := by rw [hread]; rfl
    rw [List.append_assoc, readFrom_of_ok (by rwa [halike.atBodyEnd]) hok, hread]
    by_cases hmore : more = []
    · subst hmore
      rw [List.append_nil] at hmay
      exact hresumes us hus (.inr (by simp [Token.back, Token.final])) m hm bracedThen
    · exact hresumes us hus (hmay.of_append hmore) m hm bracedThen
  | case5 found ts hend hb s d hs ih =>
    have hproblems := problems_eq_empty_of_readFrom hx
    simp [Found.report] at hproblems

/-- A list of declarations begins with nothing that belongs to a declaration in front of it. -/
theorem follows_of_readFrom {inner : Option Reader} {scope : Scope} {braced : Bool} {owner : String} {found : Found}
    {ts : List Token} (hx : (readFrom inner scope braced owner found ts).found.problems = #[]) : Follows ts := by
  -- A semicolon and an equals sign begin nothing at all, not even the head of a member.
  have fails {p : Punctuation} (hp : p = .semicolon ∨ p = .equals) : ¬ atMark p ts = true := by
    intro hm
    have hkind := Token.kind_of_atMark hm
    have hbody : ¬ atBodyEnd ts = true := by rcases hp with rfl | rfl <;> simp [atBodyEnd, atEnd, atMark, hkind]
    have hmods : modifiers ts = ([], ts) := modifiers_eq_nil (by simp [hkind]) (by simp [hkind])
    have hattributes : skipAttributes ts = .done () ts := by
      rw [skipAttributes, if_neg]
      rcases hp with rfl | rfl <;> simp [atMark, hkind]
    have hhead : Head.read {} ts = .done {} ts := by
      rw [Head.read, if_neg hbody, hkind]
      rcases hp with rfl | rfl <;> rfl
    have hitem : item inner scope owner ts =
        if scope = .typeBody then .fail .missingMemberName ((front ts).span.merge (front ts).span) ts
        else .failExpecting .declaration ts := by
      by_cases hscope : scope = .typeBody <;>
        simp [item_eq, atDirective, atKeyword, Token.atIdentifier, hattributes, behindAttributes, hbody, declaration,
          hmods, hkind, TokenKind.keyword?, atRecord, Step.andThen, Step.done, hscope, member, Member.read, hhead,
          Step.fail]
    have herror : ∃ d, (item inner scope owner ts).result = .error d := by
      rw [hitem]
      split <;> exact ⟨_, rfl⟩
    obtain ⟨d, herror⟩ := herror
    exact problems_ne_nil_of_item_error hbody herror (Array.toList_eq_nil_iff.mpr hx)
  exact ⟨by simpa using fails (.inl rfl), by simpa using fails (.inr rfl)⟩

end Reader

end TestScaffold
