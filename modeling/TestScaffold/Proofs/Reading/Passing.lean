import TestScaffold.Declaration.Reader
import TestScaffold.Proofs.Reading.Headers

/-!
# What is reported of the tokens in a list

Some tokens in a list of declarations are passed as a whole: whatever has been found before them and whatever stands
behind, the reading goes on behind them, and always with the same reports. What is reported of a text is put together
from what is reported of its pieces.

Results:
* `Reader.Passes`: tokens that are passed with some reports; rows of them (`Passes.append`), and bodies around them
  (`Passes.body`).
* `Reader.passes_refused`: a body below the deepest level is reported once, whatever stands in it.
* `reports_of_passes`, `reports_of_passes_file`: a text that is passed is accepted if nothing is reported of it, and
  refused with the reports.
-/

namespace TestScaffold

open Token (front atEnd atMark atBodyEnd skipMark)
open Token (Follows Starts)
open Nesting (Nested)

namespace Reader

variable {levels : Nat} {scope bodyScope : Scope} {ts us : List Token} {problems more : List Diagnostic}

/-- The tokens `ts` are passed in a list whose bodies nest at most `levels` deep, and `problems` are reported of
them. -/
structure Passes (levels : Nat) (scope : Scope) (ts : List Token) (problems : List Diagnostic) : Prop where
  follows : ∀ rest, Follows rest → Follows (ts ++ rest)
  read : ∀ braced owner found rest, Follows rest → ∃ x : Found, x.problems.toList = problems ∧
    readFrom (below levels) scope braced owner found (ts ++ rest) =
      readFrom (below levels) scope braced owner (found.append x) rest

namespace Passes

theorem nil : Passes levels scope [] [] where
  follows _ h := h
  read braced owner found rest _ := ⟨{}, rfl, by rw [Found.append_empty, List.nil_append]⟩

theorem append (h : Passes levels scope ts problems) (k : Passes levels scope us more) :
    Passes levels scope (ts ++ us) (problems ++ more) where
  follows rest hrest := by
    rw [List.append_assoc]
    exact h.follows _ (k.follows rest hrest)
  read braced owner found rest hrest := by
    obtain ⟨x, hx, hfirst⟩ := h.read braced owner found (us ++ rest) (k.follows rest hrest)
    obtain ⟨y, hy, hsecond⟩ := k.read braced owner (found.append x) rest hrest
    refine ⟨x.append y, by rw [Found.append, Array.toList_append, hx, hy], ?_⟩
    rw [List.append_assoc, hfirst, hsecond, Found.append_assoc]

end Passes

/-- An item that is read is passed with what is reported inside it. -/
theorem passes_of_item (hts : Starts ts)
    (h : ∀ owner rest, Follows rest → ∃ x : Found, x.problems.toList = problems ∧
      item (below levels) scope owner (ts ++ rest) = .done x rest) : Passes levels scope ts problems where
  follows rest _ := (hts.append rest).2
  read braced owner found rest hrest := by
    obtain ⟨x, hx, hitem⟩ := h owner rest hrest
    have hbody : ¬ atBodyEnd (ts ++ rest) = true := by simp [(hts.append rest).1]
    have hok : (item (below levels) scope owner (ts ++ rest)).result = .ok x := by rw [hitem]; rfl
    exact ⟨x, hx, by rw [readFrom_of_ok hbody hok, hitem]; rfl⟩

/-- An item that cannot be read is passed with its fault where recovery leads behind it. -/
theorem passes_of_error (hts : Starts ts) {d : Diagnostic}
    (h : ∀ owner rest, Follows rest → (item (below levels) scope owner (ts ++ rest)).result = .error d ∧
      Nesting.recover (item (below levels) scope owner (ts ++ rest)).rest = rest) : Passes levels scope ts [d] where
  follows rest _ := (hts.append rest).2
  read braced owner found rest hrest := by
    obtain ⟨herror, hrecover⟩ := h owner rest hrest
    have hbody : ¬ atBodyEnd (ts ++ rest) = true := by simp [(hts.append rest).1]
    refine ⟨⟨#[], #[d]⟩, rfl, ?_⟩
    rw [readFrom_of_error hbody herror, hrecover]
    simp [Found.report, Found.append]

/-! ## Bodies -/

/-- What stands in front of the end of a list is read to that end. -/
theorem Passes.toEnd (h : Passes levels scope ts problems) (braced : Bool) (owner : String) {rest : List Token}
    (hend : atBodyEnd rest = true) (hbraced : braced = false → atEnd rest = true) : ∃ x : Found,
      x.problems.toList = problems ∧ (ofLevels levels).read scope braced owner (ts ++ rest) = ⟨x, rest⟩ := by
  obtain ⟨x, hx, hread⟩ := h.read braced owner {} rest (follows_of_atBodyEnd hend)
  have hempty : Found.append {} x = x := by simp [Found.append]
  rw [readFrom_atBodyEnd hend hbraced, hempty, ← read_ofLevels] at hread
  exact ⟨x, hx, hread⟩

/-- A body in braces is read to its closing brace, with what is reported of the tokens in it. -/
theorem Passes.inBraces (h : Passes levels bodyScope ts problems) (o : Token) {c : Token}
    (hc : c.kind = .punctuation .rightBrace) (name : String) (rest : List Token) :
    ∃ x : Found, x.problems.toList = problems ∧
      inBraces (ofLevels levels) bodyScope name (o :: (ts ++ c :: rest)) = .done (x, c.span) rest := by
  have hend : atBodyEnd (c :: rest) = true := by simp [atBodyEnd, atMark, front, hc]
  obtain ⟨x, hx, hread⟩ := h.toEnd true name hend (by simp)
  refine ⟨x, hx, ?_⟩
  unfold Reader.inBraces
  simp only [List.tail_cons, hread]
  rw [if_pos (by simp [atMark, front, hc])]
  rfl

/-- A declaration with its body in braces is passed with what is reported of the tokens in the body, and so is a
semicolon behind the body. -/
theorem Passes.bodyEnded {header : List Token} (hheader : ReadsHeader scope bodyScope header)
    (h : Passes levels bodyScope ts problems) {o c : Token} (ho : o.kind = .punctuation .leftBrace)
    (hc : c.kind = .punctuation .rightBrace) {trail : List Token}
    (htrail : ∀ rest, Follows rest → skipMark .semicolon (trail ++ rest) = rest) :
    Passes (levels + 1) scope (header ++ o :: (ts ++ c :: trail)) problems := by
  refine passes_of_item (hheader.starts.append _) fun owner rest hrest => ?_
  have hmark : atMark .leftBrace (o :: (ts ++ c :: (trail ++ rest))) = true := by simp [atMark, front, ho]
  obtain ⟨kind, name, mods, start, hitem⟩ := hheader.read owner _ hmark
  obtain ⟨x, hx, hbody⟩ := h.inBraces o hc name (trail ++ rest)
  have hts : header ++ o :: (ts ++ c :: trail) ++ rest = header ++ o :: (ts ++ c :: (trail ++ rest)) := by simp
  refine ⟨x.wrap kind name mods (start.merge c.span), hx, ?_⟩
  rw [hts, hitem]
  simp only [below, namedBody, hbody, Step.andThen, Step.done, htrail rest hrest]

theorem Passes.body {header : List Token} (hheader : ReadsHeader scope bodyScope header)
    (h : Passes levels bodyScope ts problems) {o c : Token} (ho : o.kind = .punctuation .leftBrace)
    (hc : c.kind = .punctuation .rightBrace) :
    Passes (levels + 1) scope (header ++ o :: (ts ++ [c])) problems := by
  refine h.bodyEnded hheader ho hc fun rest hrest => ?_
  rw [List.nil_append, skipMark, if_neg (by simp [hrest.1])]

/-- Where no level is left, a body is refused at its opening brace and passed as a group, whatever stands in it. -/
theorem passes_refused {header : List Token} (hheader : ReadsHeader scope bodyScope header) {o c : Token}
    (ho : o.kind = .punctuation .leftBrace) (hc : c.kind = .punctuation .rightBrace)
    (hcontent : Nested false .rightBrace (ts.map Token.kind)) :
    Passes 0 scope (header ++ o :: (ts ++ [c])) [Fault.nestedTooDeeply.report o.span] := by
  refine passes_of_error (hheader.starts.append _) fun owner rest _ => ?_
  have hmark : atMark .leftBrace (o :: (ts ++ c :: rest)) = true := by simp [atMark, front, ho]
  obtain ⟨kind, name, mods, start, hitem⟩ := hheader.read owner _ hmark
  have hts : header ++ o :: (ts ++ [c]) ++ rest = header ++ o :: (ts ++ c :: rest) := by simp
  have hrefused : item (below 0) scope owner (header ++ o :: (ts ++ [c]) ++ rest) =
      .fail .nestedTooDeeply o.span (o :: (ts ++ c :: rest)) := by
    rw [hts, hitem]
    rfl
  have hrow : Nesting.Row Nesting.endsItem false (([] : List Token).map Token.kind) := .nil
  rw [hrefused]
  exact ⟨rfl, Nesting.recover_group hrow ho hc hcontent rest⟩

theorem ends_last {last : Token} (hlast : last.kind = .endOfText) : atEnd [last] = true ∧ atBodyEnd [last] = true := by
  simp [atBodyEnd, atEnd, front, hlast]

/-- A namespace that goes on to the end of the text is read with what is reported of the tokens in it. -/
theorem Passes.file (h : Passes levels .namespaceBody ts problems) {header : List Token}
    (hheader : Written.NamespaceHeader (header.map Token.kind)) {semicolon last : Token}
    (hs : semicolon.kind = .punctuation .semicolon) (hlast : last.kind = .endOfText) (found : Found) :
    ∃ x : Found, x.problems.toList = problems ∧
      readFrom (below (levels + 1)) .text false "" found (header ++ semicolon :: (ts ++ [last])) =
        ⟨found.append x, [last]⟩ := by
  obtain ⟨hlastEnd, hend⟩ := ends_last hlast
  have hmark : atMark .semicolon (semicolon :: (ts ++ [last])) = true := by simp [atMark, front, hs]
  have hscope : Scope.text ≠ .typeBody := by simp
  obtain ⟨hstarts, hread⟩ := item_namespaceHeader hscope hheader
  obtain ⟨name, start, hitem⟩ := hread "" (semicolon :: (ts ++ [last])) (by simp [atMark, front, hs])
  obtain ⟨x, hx, hbody⟩ := h.toEnd false name hend fun _ => hlastEnd
  have hdone : ∃ span, item (below (levels + 1)) .text "" (header ++ semicolon :: (ts ++ [last])) =
      .done (x.wrap .namespaceBlock name [] span) [last] := by
    refine ⟨start.merge (lastToken (semicolon :: (ts ++ [last]))).span, ?_⟩
    rw [hitem]
    simp only [namespaceEnd, below, hmark, List.tail_cons, hbody, bne_self_eq_false, Bool.and_false, Bool.false_eq_true,
      if_false, if_true]
  obtain ⟨span, hdone⟩ := hdone
  have hbodyEnd : ¬ atBodyEnd (header ++ semicolon :: (ts ++ [last])) = true := by simp [(hstarts.append _).1]
  refine ⟨x.wrap .namespaceBlock name [] span, hx, ?_⟩
  rw [Written.readFrom_of_item hbodyEnd hdone, readFrom_atBodyEnd hend fun _ => hlastEnd]

end Reader

/-! ## Texts -/

/-- What is reported of a text: it is accepted if there are no problems, and refused with all of them otherwise. -/
structure DeclarationTree.Reports (ts : List Token) (problems : List Diagnostic) : Prop where
  accepted : problems = [] → ∃ t, ofTokens ts = .ok t
  refused : problems ≠ [] → ofTokens ts = .error problems

open DeclarationTree (Reports)

theorem reports_of_readFrom {ts us : List Token} {x : Found}
    (hread : Reader.readFrom (Reader.below maxNesting) .text false "" {} ts = ⟨x, us⟩) :
    Reports ts x.problems.toList := by
  rw [← Reader.read_ofLevels] at hread
  refine ⟨fun hnone => ?_, fun hsome => ?_⟩
  · have hproblems : x.problems = #[] := Array.toList_eq_nil_iff.mp hnone
    simp [DeclarationTree.ofTokens, readDeclarations, hread, hproblems, Except.map]
  · have hproblems : ¬ x.problems = #[] := fun h => hsome (Array.toList_eq_nil_iff.mpr h)
    simp [DeclarationTree.ofTokens, readDeclarations, hread, hproblems, Except.map]

variable {ts us : List Token} {problems more : List Diagnostic} {last : Token}

/-- Of a text that is passed the same is reported. -/
theorem reports_of_passes (h : Reader.Passes maxNesting .text ts problems) (hlast : last.kind = .endOfText) :
    Reports (ts ++ [last]) problems := by
  obtain ⟨hlastEnd, hend⟩ := Reader.ends_last hlast
  obtain ⟨x, rfl, hread⟩ := h.toEnd false "" hend fun _ => hlastEnd
  rw [Reader.read_ofLevels] at hread
  exact reports_of_readFrom hread

/-- So is it where a namespace that goes on to the end of the text holds the rest of it. -/
theorem reports_of_passes_file (before : Reader.Passes maxNesting .text us problems) {header : List Token}
    (hheader : Written.NamespaceHeader (header.map Token.kind)) {semicolon : Token}
    (hs : semicolon.kind = .punctuation .semicolon) (h : Reader.Passes (maxNesting - 1) .namespaceBody ts more)
    (hlast : last.kind = .endOfText) :
    Reports (us ++ (header ++ semicolon :: (ts ++ [last]))) (problems ++ more) := by
  have hscope : Scope.text ≠ .typeBody := by simp
  obtain ⟨hstarts, -⟩ := Reader.item_namespaceHeader hscope hheader
  obtain ⟨x, rfl, hfirst⟩ := before.read false "" {} (header ++ semicolon :: (ts ++ [last])) (hstarts.append _).2
  obtain ⟨y, rfl, hsecond⟩ := h.file hheader hs hlast (Found.append {} x)
  have hproblems : x.problems.toList ++ y.problems.toList = ((Found.append {} x).append y).problems.toList := by
    simp [Found.append]
  rw [hproblems]
  exact reports_of_readFrom (hfirst.trans hsecond)

end TestScaffold
