import TestScaffold.Proofs.Reading.Recovery

/-!
# Programs that are cut off

Where a program breaks off between two declarations, each body that is still open ends at the end of the text. The list
of declarations in it ends without a fault, and then its opening brace is reported; so the innermost one comes first,
and nothing else is reported.

Results:
* `Reader.WellFormedMember`, `Reader.passes_of_wellFormedMember`: a member that is read with nothing behind it is passed
  without a report, whatever type it stands in.
* `Written.Program`, `Written.Cut`: programs whose bodies stand in braces, and where they may be cut off.
* `Reader.passes_of_program`: in a program that is read without a fault, every row of declarations is.
* `Reader.stops_of_cut`: what is reported of a program that is cut off.
* `truncated_reports_open_braces`: the reports for a text.
-/

namespace TestScaffold

open Token (front atMark atBodyEnd skipMark)
open Token (AttributeLists Closed Follows Starts)

/-! ## The type around a member -/

namespace Step

/-- Wherever `s` reads something, `s'` leaves as much and reports the same. -/
def Matches (s s' : Step Found) : Prop :=
  ∀ x rest, s = .done x rest → ∃ y : Found, y.problems = x.problems ∧ s' = .done y rest

theorem Matches.refl (s : Step Found) : s.Matches s := fun x _ h => ⟨x, rfl, h⟩

theorem Matches.andThen {α : Type} {s : Step α} {f g : α → List Token → Step Found}
    (h : ∀ a us, (f a us).Matches (g a us)) : (s.andThen f).Matches (s.andThen g) := by
  intro x rest hx
  have hok : (s.andThen f).result = .ok x := by rw [hx]; rfl
  obtain ⟨a, ha, hf⟩ := andThen_eq_ok hok
  rw [hf] at hx
  obtain ⟨y, hy, hg⟩ := h a s.rest x rest hx
  refine ⟨y, hy, ?_⟩
  rw [Step.andThen, ha]
  exact hg

end Step

namespace Reader

variable {inner : Option Reader} {levels : Nat} {scope bodyScope : Scope} {ts us rest : List Token}
  {problems more : List Diagnostic}

/-- The name of the type around a member makes a difference to its kind only. -/
theorem matches_member (owner other : String) (mods : List Keyword) (start : Span) (forced : Option DeclarationKind)
    (ts : List Token) : (member owner mods start forced ts).Matches (member other mods start forced ts) := by
  intro x rest h
  unfold member Member.read at h ⊢
  cases hhead : (Head.read {} ts).result with
  | error d => simp [Step.andThen, Step.done, hhead] at h
  | ok head =>
    cases hname : head.name with
    | none => simp [Step.andThen, Step.done, Step.fail, hhead, hname] at h
    | some name =>
      cases hstop : (Member.rest (Head.read {} ts).rest).result with
      | error d => simp [Step.andThen, Step.done, hhead, hname, hstop] at h
      | ok stop =>
        simp only [Step.andThen, Step.done, hhead, hname, hstop, Step.mk.injEq, Except.ok.injEq] at h ⊢
        obtain ⟨rfl, rfl⟩ := h
        refine ⟨_, ?_, rfl, rfl⟩
        rfl

theorem matches_declaration (owner other : String) (mods : List Keyword) (start : Span) (ts : List Token) :
    (declaration inner scope owner mods start ts).Matches (declaration inner scope other mods start ts) := by
  unfold declaration
  cases (front ts).kind.keyword?.bind typeKind? with
  | some kind => exact .refl _
  | none =>
    simp only
    split_ifs
    · exact .refl _
    · exact .refl _
    · exact .refl _
    · exact matches_member owner other mods start _ _
    · exact matches_member owner other mods start _ _
    · exact .refl _

/-- Whatever type an item stands in, as much of it is read. -/
theorem matches_item (owner other : String) (ts : List Token) :
    (item inner scope owner ts).Matches (item inner scope other ts) := by
  unfold item
  split_ifs
  · exact .refl _
  · refine .andThen fun _ us => ?_
    split_ifs
    · exact .refl _
    · exact matches_declaration owner other _ _ _

/-! ## Members -/

/-- Tokens are a well-formed member of a type if they end as a declaration does and, in the body of some type, are read
in full and without a fault where nothing stands behind them. A member has no body that declarations stand in. -/
structure WellFormedMember (ts : List Token) : Prop where
  closed : Closed ts
  read : ∃ owner, ∃ x : Found, x.problems = #[] ∧
    item none .typeBody owner (ts ++ [Token.final]) = .done x [Token.final]

theorem WellFormedMember.starts (h : WellFormedMember ts) : Starts ts := by
  obtain ⟨owner, x, hx, hitem⟩ := h.read
  exact @starts_of_item .typeBody 0 ts x owner h.closed hx hitem

/-- Whatever type it stands in, a well-formed member is passed without a report. -/
theorem passes_of_wellFormedMember (h : WellFormedMember ts) : Passes levels .typeBody ts [] := by
  obtain ⟨owner, x, hx, hitem⟩ := h.read
  refine passes_of_item h.starts fun other rest hrest => ?_
  have hread : item (below levels) .typeBody owner (ts ++ rest) = .done x rest :=
    @item_resumes .typeBody 0 ts x owner (by simp) (Nat.zero_le _) h.closed hx hitem levels (Nat.zero_le _) rest hrest
  obtain ⟨y, hy, hother⟩ := matches_item owner other (ts ++ rest) x rest hread
  exact ⟨y, by rw [hy, hx], hother⟩

end Reader

namespace Written

/-- A written member ends with a semicolon or with a closing brace. -/
theorem Member.closed {owner : String} {m : Member} {ts : List Token} (hts : ts.map Token.kind = m.tokens owner) :
    Closed ts := by
  have hlast : (m.tokens owner).getLast? = some (.punctuation .semicolon) ∨
      (m.tokens owner).getLast? = some (.punctuation .rightBrace) := by
    cases m with
    | field mods type name value =>
      left
      cases value <;> simp [tokens, valueTokens, List.getLast?_append, List.getLast?_cons]
    | _ =>
      right
      simp [tokens, typeTokens, inParens, inBraces, List.getLast?_append, List.getLast?_cons]
  rw [← hts, List.getLast?_map] at hlast
  unfold Closed Token.back
  cases hback : ts.getLast? with
  | none => simp [hback] at hlast
  | some t => simpa [hback] using hlast

end Written

namespace Reader

/-- The tokens of a written member are a well-formed member, unless it is a type. -/
theorem wellFormedMember_of_written {owner : String} {written : Written.Member} (hd : written.depth = 0)
    {ts : List Token} (hts : ts.map Token.kind = written.tokens owner) : WellFormedMember ts := by
  have hfollows : Follows [Token.final] := ⟨rfl, rfl⟩
  have hread := @Written.item_member 0 owner written (Nat.le_of_eq hd) _ hfollows
  rw [← hts] at hread
  exact ⟨Written.Member.closed hts, owner, @exists_item_of_bare .typeBody 0 _ _ _ hread⟩

end Reader

/-! ## Programs and where they are cut off -/

open Reader (Passes ReadsHeader WellFormed WellFormedMember)

namespace Written

/-- What stands in front of the body in braces of a namespace or a type. Namespaces stand outside of types, and the body
of an enumeration holds no declarations. Behind the name of a type may stand whatever is passed up to a brace. -/
inductive OpensBody (scope : Scope) : (bodyScope : Scope) → (header : List Token) → Prop
  | namespaceBlock {header : List Token} (hscope : scope ≠ .typeBody)
      (h : NamespaceHeader (header.map Token.kind)) : OpensBody scope .namespaceBody header
  | type {kind : TypeKind} {attributes words intro row : List Token} {mods : List Modifier} {nameToken o : Token}
      (hasBody : kind ≠ .enumType) (lists : AttributeLists (attributes.map Token.kind))
      (hwords : words.map Token.kind = modifierTokens mods) (introduces : Introduces kind (intro.map Token.kind))
      (hname : nameToken.kind.name?.isSome = true) (ho : o.kind = .punctuation .leftBrace)
      (hrow : Nesting.skipUntil endsHeader true (row ++ [o]) = .done () [o]) :
      OpensBody scope .typeBody (attributes ++ (words ++ (intro ++ nameToken :: row)))

theorem OpensBody.readsHeader {scope bodyScope : Scope} {header : List Token} (h : OpensBody scope bodyScope header) :
    ReadsHeader scope bodyScope header := by
  cases h with
  | namespaceBlock hscope h => exact Reader.readsHeader_namespace hscope h
  | type hasBody lists hwords introduces hname ho hrow =>
    exact Reader.readsHeader_typeTokens hasBody scope lists hwords introduces hname
      (Reader.passedToBody_of_brace ho hrow)

/-- A semicolon may stand behind a body. -/
def OptionalSemicolon (trail : List Token) : Prop := trail = [] ∨ ∃ s, trail = [s] ∧ s.kind = .punctuation .semicolon

theorem OptionalSemicolon.skipMark {trail rest : List Token} (h : OptionalSemicolon trail) (hrest : Follows rest) :
    skipMark .semicolon (trail ++ rest) = rest := by
  rcases h with rfl | ⟨s, rfl, hs⟩
  · rw [List.nil_append, Token.skipMark, if_neg (by simp [hrest.1])]
  · rw [List.singleton_append, Token.skipMark, if_pos (by simp [atMark, front, hs])]
    rfl

/-- Rows of declarations: well-formed ones without a body that declarations could stand in, and namespaces and types
around such rows. How deep they nest is left open. -/
inductive Program : Scope → List Token → Prop
  | nil {scope : Scope} : Program scope []
  | declaration {scope : Scope} {ts us : List Token} (hscope : scope ≠ .typeBody) (h : WellFormed 0 ts)
      (rest : Program scope us) : Program scope (ts ++ us)
  | member {ts us : List Token} (h : WellFormedMember ts) (rest : Program .typeBody us) : Program .typeBody (ts ++ us)
  | block {scope bodyScope : Scope} {header ts trail us : List Token} {o c : Token}
      (opens : OpensBody scope bodyScope header) (ho : o.kind = .punctuation .leftBrace)
      (hc : c.kind = .punctuation .rightBrace) (inner : Program bodyScope ts) (htrail : OptionalSemicolon trail)
      (rest : Program scope us) : Program scope (header ++ o :: (ts ++ c :: trail) ++ us)

/-- A program `whole` of which only `kept` is left: it is cut off in front of a declaration, or at the end of a body.
The braces of the bodies around this place are `openings`, the innermost first. -/
inductive Cut : Scope → (whole kept openings : List Token) → Prop
  | here {scope : Scope} {ts us : List Token} (before : Program scope ts) (after : Program scope us) :
      Cut scope (ts ++ us) ts []
  | inside {scope bodyScope : Scope} {ts header whole kept openings trail us : List Token} {o c : Token}
      (before : Program scope ts) (opens : OpensBody scope bodyScope header) (ho : o.kind = .punctuation .leftBrace)
      (hc : c.kind = .punctuation .rightBrace) (inner : Cut bodyScope whole kept openings)
      (htrail : OptionalSemicolon trail) (after : Program scope us) :
      Cut scope (ts ++ (header ++ o :: (whole ++ c :: trail) ++ us)) (ts ++ (header ++ o :: kept)) (openings ++ [o])

theorem Program.follows {scope : Scope} {ts rest : List Token} (h : Program scope ts) (hrest : Follows rest) :
    Follows (ts ++ rest) := by
  cases h with
  | nil => exact hrest
  | declaration _ h _ =>
    rw [List.append_assoc]
    exact (h.starts.append _).2
  | member h _ =>
    rw [List.append_assoc]
    exact (h.starts.append _).2
  | block opens _ _ _ _ _ =>
    rw [List.append_assoc, List.append_assoc]
    exact (opens.readsHeader.starts.append _).2

end Written

open Written (OpensBody OptionalSemicolon Program Cut)

namespace Reader

variable {levels : Nat} {scope bodyScope : Scope} {header ts us rest whole kept openings : List Token} {o : Token}
  {problems more : List Diagnostic}

/-! ## Programs that are read without a fault -/

/-- What is reported of an opening brace whose body goes on to the end of the text. -/
def unclosed (o : Token) : Diagnostic := (Fault.unclosed .leftBrace .rightBrace).report o.span

/-- Somewhere the tokens are read as a list without a fault. -/
def ReadsWell (levels : Nat) (scope : Scope) (ts : List Token) : Prop :=
  ∃ braced owner found, (readFrom (below levels) scope braced owner found ts).found.problems = #[]

/-- What is passed in front of a list that is read without a fault may be left out. -/
theorem ReadsWell.right (h : ReadsWell levels scope (ts ++ rest)) (hpasses : Passes levels scope ts problems)
    (hrest : Follows rest) : ReadsWell levels scope rest := by
  obtain ⟨braced, owner, found, h⟩ := h
  obtain ⟨x, -, hread⟩ := hpasses.read braced owner found rest hrest
  rw [hread] at h
  exact ⟨braced, owner, found.append x, h⟩

/-- A body in braces of which nothing is reported was read without a fault. -/
theorem problems_read_of_inBraces {reader : Reader} {owner : String} {found : Found} {stop : Span}
    (h : (inBraces reader scope owner (o :: ts)).result = .ok (found, stop)) (hfound : found.problems = #[]) :
    (reader.read scope true owner ts).found.problems = #[] := by
  have hbraces : inBraces reader scope owner (o :: ts) =
      if atMark .rightBrace (reader.read scope true owner ts).rest then
        .done ((reader.read scope true owner ts).found, (front (reader.read scope true owner ts).rest).span)
          (reader.read scope true owner ts).rest.tail
      else .done ((reader.read scope true owner ts).found.report (unclosed o), o.span)
        (reader.read scope true owner ts).rest := rfl
  rw [hbraces] at h
  split at h
  · obtain ⟨rfl, -⟩ := Prod.mk.inj (Except.ok.inj h)
    exact hfound
  · -- A body that does not close is reported.
    obtain ⟨rfl, -⟩ := Prod.mk.inj (Except.ok.inj h)
    simp [Found.report] at hfound

/-- A body that is read without a fault takes one level. -/
theorem ReadsWell.body (h : ReadsWell levels scope (header ++ o :: ts)) (hheader : ReadsHeader scope bodyScope header)
    (ho : o.kind = .punctuation .leftBrace) : ∃ l, levels = l + 1 ∧ ReadsWell l bodyScope ts := by
  obtain ⟨braced, owner, found, h⟩ := h
  have hbody : ¬ atBodyEnd (header ++ o :: ts) = true := by simp [(hheader.starts.append _).1]
  obtain ⟨x, hx, hproblems⟩ := exists_item_of_readFrom hbody h
  have hmark : atMark .leftBrace (o :: ts) = true := by simp [atMark, front, ho]
  obtain ⟨kind, name, mods, start, hitem⟩ := hheader.read owner _ hmark
  rw [hitem] at hx
  cases levels with
  | zero => simp [below, namedBody, Step.fail] at hx
  | succ l =>
    refine ⟨l, rfl, true, name, {}, ?_⟩
    obtain ⟨⟨found, stop⟩, hbraces, he⟩ := Step.andThen_eq_ok hx
    have hwrap : (namedBody (below (l + 1)) bodyScope kind name mods start (o :: ts)).result =
        .ok (found.wrap kind name mods (start.merge stop)) := congrArg Step.result he
    rw [hx] at hwrap
    obtain rfl := Except.ok.inj hwrap
    rw [← read_ofLevels]
    exact problems_read_of_inBraces hbraces hproblems

/-- In a program that is read without a fault, every row of declarations is passed without a report. -/
theorem passes_of_program (h : Program scope ts) (hn : levels ≤ maxNesting) (hrest : Follows rest)
    (hread : ReadsWell levels scope (ts ++ rest)) : Passes levels scope ts [] := by
  induction h generalizing levels rest with
  | nil => exact .nil
  | declaration hscope h more ih =>
    have hfirst := passes_of_wellFormed hscope hn (h.mono (Nat.zero_le _) (Nat.zero_le levels))
    rw [List.append_assoc] at hread
    exact hfirst.append (ih hn hrest (hread.right hfirst (more.follows hrest)))
  | member h more ih =>
    have hfirst := @passes_of_wellFormedMember levels _ h
    rw [List.append_assoc] at hread
    exact hfirst.append (ih hn hrest (hread.right hfirst (more.follows hrest)))
  | @block scope bodyScope header ts trail us o c opens ho hc _ htrail more ihInner ih =>
    have hbraces : header ++ o :: (ts ++ c :: trail) ++ us ++ rest =
        header ++ o :: (ts ++ c :: (trail ++ (us ++ rest))) := by simp
    have hinside := hread
    rw [hbraces] at hinside
    obtain ⟨l, rfl, hinner⟩ := hinside.body opens.readsHeader ho
    have hc' : atBodyEnd (c :: (trail ++ (us ++ rest))) = true := by simp [atBodyEnd, atMark, front, hc]
    have hbody := ihInner (Nat.le_of_succ_le hn) (follows_of_atBodyEnd hc') hinner
    have hfirst := hbody.bodyEnded opens.readsHeader ho hc fun vs hvs => htrail.skipMark hvs
    rw [List.append_assoc] at hread
    exact hfirst.append (ih hn hrest (hread.right hfirst (more.follows hrest)))

/-! ## The end of the text inside of bodies -/

/-- Where the text ends behind the tokens `ts`, the list ends as well, and `problems` are reported of them. -/
def Stops (levels : Nat) (scope : Scope) (ts : List Token) (problems : List Diagnostic) : Prop :=
  ∀ braced owner found last, last.kind = .endOfText → ∃ x : Found, x.problems.toList = problems ∧
    readFrom (below levels) scope braced owner found (ts ++ [last]) = ⟨found.append x, [last]⟩

theorem Passes.stops (h : Passes levels scope ts problems) : Stops levels scope ts problems := by
  intro braced owner found last hlast
  obtain ⟨hend, hbodyEnd⟩ := ends_last hlast
  obtain ⟨x, hx, hread⟩ := h.read braced owner found [last] (follows_of_atBodyEnd hbodyEnd)
  exact ⟨x, hx, by rw [hread, readFrom_atBodyEnd hbodyEnd fun _ => hend]⟩

theorem Stops.behind (h : Stops levels scope us more) (hpasses : Passes levels scope ts problems) (hus : Starts us) :
    Stops levels scope (ts ++ us) (problems ++ more) := by
  intro braced owner found last hlast
  obtain ⟨x, hx, hfirst⟩ := hpasses.read braced owner found (us ++ [last]) (hus.append _).2
  obtain ⟨y, hy, hsecond⟩ := h braced owner (found.append x) last hlast
  refine ⟨x.append y, by rw [Found.append, Array.toList_append, hx, hy], ?_⟩
  rw [List.append_assoc, hfirst, hsecond, Found.append_assoc]

/-- A body that is still open is reported behind everything that is reported inside of it. -/
theorem Stops.block (h : Stops levels bodyScope ts problems) (hheader : ReadsHeader scope bodyScope header)
    (ho : o.kind = .punctuation .leftBrace) :
    Stops (levels + 1) scope (header ++ o :: ts) (problems ++ [unclosed o]) := by
  intro braced owner found last hlast
  obtain ⟨hend, hbodyEnd⟩ := ends_last hlast
  have hmark : atMark .leftBrace (o :: (ts ++ [last])) = true := by simp [atMark, front, ho]
  obtain ⟨kind, name, mods, start, hitem⟩ := hheader.read owner _ hmark
  obtain ⟨x, rfl, hread⟩ := h true name {} last hlast
  have hempty : Found.append {} x = x := by simp [Found.append]
  rw [hempty, ← read_ofLevels] at hread
  have hopen : atMark .rightBrace [last] = false := by simp [atMark, front, hlast]
  have hbraces : inBraces (ofLevels levels) bodyScope name (o :: (ts ++ [last])) =
      .done (x.report (unclosed o), o.span) [last] := by
    unfold inBraces
    simp only [List.tail_cons, hread, hopen, Bool.false_eq_true, if_false]
    rfl
  have hskip : skipMark .semicolon [last] = [last] := by rw [skipMark, if_neg (by simp [atMark, front, hlast])]
  have hstarts : ¬ atBodyEnd (header ++ o :: (ts ++ [last])) = true := by simp [(hheader.starts.append _).1]
  have hdone : item (below (levels + 1)) scope owner (header ++ o :: (ts ++ [last])) =
      .done ((x.report (unclosed o)).wrap kind name mods (start.merge o.span)) [last] := by
    rw [hitem]
    simp only [below, namedBody, hbraces, Step.andThen, Step.done, hskip]
  refine ⟨(x.report (unclosed o)).wrap kind name mods (start.merge o.span), by simp [Found.wrap, Found.report], ?_⟩
  rw [List.append_assoc, List.cons_append, Written.readFrom_of_item hstarts hdone,
    readFrom_atBodyEnd hbodyEnd fun _ => hend]

/-- Of a program that is cut off, the bodies that are still open are reported, the innermost first. -/
theorem stops_of_cut (h : Cut scope whole kept openings) (hn : levels ≤ maxNesting) (hrest : Follows rest)
    (hread : ReadsWell levels scope (whole ++ rest)) : Stops levels scope kept (openings.map unclosed) := by
  induction h generalizing levels rest with
  | here before after =>
    rw [List.append_assoc] at hread
    exact (passes_of_program before hn (after.follows hrest) hread).stops
  | @inside scope bodyScope ts header whole kept openings trail us o c before opens ho hc _ htrail after ih =>
    have hbraces : header ++ o :: (whole ++ c :: trail) ++ us ++ rest =
        header ++ o :: (whole ++ c :: (trail ++ (us ++ rest))) := by simp
    rw [List.append_assoc, hbraces] at hread
    have hstarts := opens.readsHeader.starts
    have hbefore := passes_of_program before hn (hstarts.append _).2 hread
    obtain ⟨l, rfl, hinner⟩ := (hread.right hbefore (hstarts.append _).2).body opens.readsHeader ho
    have hc' : atBodyEnd (c :: (trail ++ (us ++ rest))) = true := by simp [atBodyEnd, atMark, front, hc]
    have hstops := (ih (Nat.le_of_succ_le hn) (follows_of_atBodyEnd hc') hinner).block opens.readsHeader ho
    rw [List.map_append]
    exact hstops.behind hbefore (hstarts.append _)

end Reader

/-! ## Texts -/

/-- A program that is accepted may be cut off in front of any declaration and at the end of any body. Outside of all
bodies what is left is accepted. Inside of bodies one fault is reported for each of them, which names its opening brace
and how to close it, the innermost first; and nothing else is reported. -/
theorem truncated_reports_open_braces {whole kept openings : List Token} {last last' : Token} {t : DeclarationTree}
    (h : Cut .text whole kept openings) (hlast : last.kind = .endOfText)
    (haccepted : DeclarationTree.ofTokens (whole ++ [last]) = .ok t) (hlast' : last'.kind = .endOfText) :
    (openings = [] → ∃ u, DeclarationTree.ofTokens (kept ++ [last']) = .ok u) ∧
      (openings ≠ [] → ∃ ds, DeclarationTree.ofTokens (kept ++ [last']) = .error ds ∧
        ds.length = openings.length ∧ ds.map Diagnostic.span = openings.map Token.span ∧
          ∀ d ∈ ds, d.phase = .grammar ∧ d.message = "unclosed '\x7b'" ∧ d.hint = some "add a matching '\x7d'") := by
  obtain ⟨d, hd, -⟩ := DeclarationTree.ofTokens_eq_ok_iff.mp haccepted
  obtain ⟨hbodyEnd, -⟩ := Reader.ends_last hlast
  have hread : Reader.ReadsWell maxNesting .text (whole ++ [last]) :=
    ⟨false, "", {}, (readDeclarations_eq_ok_iff.mp hd).1⟩
  have hfollows := Reader.follows_of_atBodyEnd (Reader.ends_last hlast).2
  obtain ⟨x, hx, hstop⟩ := Reader.stops_of_cut h (Nat.le_refl _) hfollows hread false "" {} last' hlast'
  have hempty : Found.append {} x = x := by simp [Found.append]
  rw [hempty] at hstop
  have hreports := reports_of_readFrom hstop
  rw [hx] at hreports
  refine ⟨fun hnone => hreports.accepted (by rw [hnone, List.map_nil]), fun hsome => ?_⟩
  refine ⟨_, hreports.refused (mt List.map_eq_nil_iff.mp hsome), List.length_map _, ?_, ?_⟩
  · rw [List.map_map]
    rfl
  · intro d hd
    obtain ⟨o, -, rfl⟩ := List.mem_map.mp hd
    exact ⟨rfl, rfl, rfl⟩

namespace Written

/-- The tokens of `namespace N {`, but for the brace. -/
def cutNamespace : List Token := [⟨.keyword .namespaceKw, ⟨0, 9⟩⟩, ⟨.identifier "N", ⟨10, 11⟩⟩]

/-- The tokens of `class A {`, but for the brace. -/
def cutClass : List Token := [⟨.keyword .classKw, ⟨14, 19⟩⟩, ⟨.identifier "A", ⟨20, 21⟩⟩]

/-- The tokens of `int x;`. -/
def keptField : List Token :=
  [⟨.identifier "int", ⟨24, 27⟩⟩, ⟨.identifier "x", ⟨28, 29⟩⟩, ⟨.punctuation .semicolon, ⟨29, 30⟩⟩]

/-- The tokens of `int y;`. -/
def droppedField : List Token :=
  [⟨.identifier "int", ⟨31, 34⟩⟩, ⟨.identifier "y", ⟨35, 36⟩⟩, ⟨.punctuation .semicolon, ⟨36, 37⟩⟩]

/-- A brace that stands at a place. -/
def braceAt (p : Punctuation) (start : Nat) : Token := ⟨.punctuation p, ⟨start, start + 1⟩⟩

/-- The tokens of `namespace N { class A { int x; int y; } }`. -/
def wholeText : List Token :=
  cutNamespace ++ braceAt .leftBrace 12 :: (cutClass ++ braceAt .leftBrace 22 ::
    (keptField ++ droppedField ++ [braceAt .rightBrace 38]) ++ [braceAt .rightBrace 40])

/-- The tokens of `namespace N { class A { int x;`. -/
def keptText : List Token :=
  cutNamespace ++ braceAt .leftBrace 12 :: (cutClass ++ braceAt .leftBrace 22 :: keptField)

theorem cut_wholeText : Cut .text wholeText keptText [braceAt .leftBrace 22, braceAt .leftBrace 12] := by
  have hfield {ts : List Token} (name : String)
      (hts : ts.map Token.kind = [.identifier "int", .identifier name, .punctuation .semicolon]) :
      Program .typeBody ts := by
    have hmember : WellFormedMember ts := @Reader.wellFormedMember_of_written "" (.field [] "int" name none) rfl ts hts
    simpa using Program.member hmember .nil
  have hopen (start : Nat) : (braceAt .leftBrace start).kind = .punctuation .leftBrace := rfl
  have hclose (start : Nat) : (braceAt .rightBrace start).kind = .punctuation .rightBrace := rfl
  have hbrace : Nesting.skipUntil endsHeader true ([] ++ [braceAt .leftBrace 22]) = .done () [braceAt .leftBrace 22] :=
    Reader.passedToBody_of_row .nil _ rfl
  have hclass : OpensBody .namespaceBody .typeBody cutClass :=
    @OpensBody.type _ .classType [] [] [⟨.keyword .classKw, ⟨14, 19⟩⟩] [] [] _ _ (by simp) .nil rfl
      (.keyword .classType) rfl (hopen 22) hbrace
  have hnamespace : NamespaceHeader (cutNamespace.map Token.kind) := @NamespaceHeader.mk [] [] _ .nil rfl (by simp)
  have hinner : Cut .typeBody (keptField ++ droppedField) keptField [] := .here (hfield "x" rfl) (hfield "y" rfl)
  have hbody := Cut.inside .nil hclass (hopen 22) (hclose 38) hinner (.inl rfl) .nil
  exact Cut.inside .nil (.namespaceBlock (by simp) hnamespace) (hopen 12) (hclose 40) hbody (.inl rfl) .nil

end Written

theorem truncated_reports_open_braces_wholeText : ∃ ds,
    DeclarationTree.ofTokens (Written.keptText ++ [Token.final]) = .error ds ∧ ds.length = 2 ∧
      ds.map Diagnostic.span = [⟨22, 23⟩, ⟨12, 13⟩] := by
  obtain ⟨t, ht⟩ : ∃ t, DeclarationTree.ofTokens (Written.wholeText ++ [Token.final]) = .ok t :=
    exists_eq_ok (by decide +kernel)
  have hlast : Token.final.kind = .endOfText := rfl
  obtain ⟨-, hcut⟩ := truncated_reports_open_braces Written.cut_wholeText hlast ht hlast
  obtain ⟨ds, hds, hlength, hspans, -⟩ := hcut (by simp)
  exact ⟨ds, hds, hlength, hspans⟩

end TestScaffold
