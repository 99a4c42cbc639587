import TestScaffold.Proofs.Reading.Written
import TestScaffold.Proofs.TestUnit.Names
import TestScaffold.Proofs.Token.Spelling
import TestScaffold.TestUnit.Render

/-!
# What a test unit is spelled of

Indentation and line breaks are blanks, and every line ends what stands on it, so the text of a layout spells what its
lines spell. The lines of a unit spell directives, attributes, a namespace, a class and its stubs.

Results:
* `Layout.Spelled`, `Layout.spells_render`: the tokens of a layout are those of its lines and the braces of its blocks.
* `TestUnit.tokens`: the tokens of a unit.
* `TestUnit.spells_render`: the text of a unit spells them.
-/

namespace TestScaffold

open Text (IsIdentifier isBlank isIdentifierPart isLetters isIdentifier_of_isLetters)

/-! ## Layouts -/

mutual

/-- The tokens that the lines of a layout and the braces of its blocks spell. -/
inductive Layout.Spelled (content : List Char) : Layout → List TokenKind → Prop
  | line {text : String} {ks : List TokenKind} (h : Spells content text.toList ks) : Spelled content (.line text) ks
  | blank : Spelled content .blank []
  | block {header : String} {body : List Layout} {ks ls : List TokenKind} (h : Spells content header.toList ks)
    (b : SpelledAll content body ls) : Spelled content (.block header body) (ks ++ Written.inBraces ls)

/-- The tokens of layouts one below the other. -/
inductive Layout.SpelledAll (content : List Char) : List Layout → List TokenKind → Prop
  | nil : SpelledAll content [] []
  | cons {x : Layout} {xs : List Layout} {ks ls : List TokenKind} (h : Spelled content x ks)
    (t : SpelledAll content xs ls) : SpelledAll content (x :: xs) (ks ++ ls)

end

/-- What has been written spells `ks`, whatever is written behind it. -/
def Page.Spelled (content : List Char) (p : Page) (ks : List TokenKind) : Prop :=
  ∀ cs ls, Spells content cs ls → Spells content (p.text.toList ++ cs) (ks ++ ls)

variable {content : List Char}

theorem Spells.single (p : Punctuation) (hp : p ≠ .equals ∧ p ≠ .fatArrow) :
    Spells content p.spelling.toList [.punctuation p] := by
  have hmark : Spells content (p.spelling.toList ++ []) [.punctuation p] := .mark hp .nil
  rwa [List.append_nil] at hmark

theorem Page.isBlank_of_mem_margin {level : Nat} {c : Char} (h : c ∈ (margin level).toList) : isBlank c = true := by
  rw [margin, String.toList_join, List.mem_flatMap] at h
  obtain ⟨s, hs, hc⟩ := h
  rw [List.eq_of_mem_replicate hs] at hc
  have hspace : ∀ d ∈ "    ".toList, isBlank d = true := List.all_eq_true.mp (by decide)
  exact hspace c hc

namespace Page

/-- A line ends what stands on it. -/
theorem Spelled.line {p : Page} {ks ls : List TokenKind} {text : String} (h : p.Spelled content ks)
    (k : Spells content text.toList ls) : (p.line text).Spelled content (ks ++ ls) := by
  intro cs ms hcs
  have hnewline : Spells content ('\n' :: cs) ms := .blank (by decide) hcs
  have hline : Spells content ((margin p.level).toList ++ (text.toList ++ '\n' :: cs)) (ls ++ ms) :=
    .blanks (fun c hc => isBlank_of_mem_margin hc) (k.append hnewline (ends_cons (by decide) cs))
  have htext : (p.line text).text.toList ++ cs
      = p.text.toList ++ ((margin p.level).toList ++ (text.toList ++ '\n' :: cs)) := by
    simp [Page.line, String.toList_append]
  rw [htext, List.append_assoc]
  exact h _ _ hline

theorem Spelled.blank {p : Page} {ks : List TokenKind} (h : p.Spelled content ks) :
    (p.blank).Spelled content ks := by
  intro cs ls hcs
  have hnewline : Spells content ('\n' :: cs) ls := .blank (by decide) hcs
  have htext : p.blank.text.toList ++ cs = p.text.toList ++ '\n' :: cs := by
    simp [Page.blank, String.toList_append]
  rw [htext]
  exact h _ _ hnewline

end Page

namespace Layout

mutual

theorem spelled_write {p : Page} {x : Layout} {ks ls : List TokenKind} (hp : p.Spelled content ks)
    (hx : Spelled content x ls) : (write p x).Spelled content (ks ++ ls) := by
  cases hx with
  | line h => exact hp.line h
  | blank =>
    rw [List.append_nil]
    exact hp.blank
  | @block header body hs bs h b =>
    have hopen : ((p.line header).line "\x7b").indent.Spelled content (ks ++ hs ++ [.punctuation .leftBrace]) :=
      (hp.line h).line (.single .leftBrace (by decide))
    have hbody : (writeAll ((p.line header).line "\x7b").indent body).dedent.Spelled content
        (ks ++ hs ++ [.punctuation .leftBrace] ++ bs) := spelled_writeAll hopen b
    have hclose := hbody.line (.single .rightBrace (by decide))
    have hks : ks ++ (hs ++ Written.inBraces bs)
        = ks ++ hs ++ [.punctuation .leftBrace] ++ bs ++ [.punctuation .rightBrace] := by simp [Written.inBraces]
    rw [hks]
    exact hclose

theorem spelled_writeAll {p : Page} {xs : List Layout} {ks ls : List TokenKind} (hp : p.Spelled content ks)
    (hxs : SpelledAll content xs ls) : (writeAll p xs).Spelled content (ks ++ ls) := by
  cases hxs with
  | nil =>
    rw [List.append_nil]
    exact hp
  | cons h t =>
    rw [writeAll, ← List.append_assoc]
    exact spelled_writeAll (spelled_write hp h) t

end

/-- The text of a layout spells what its lines and blocks spell. -/
theorem spells_render {xs : List Layout} {ks : List TokenKind} (h : SpelledAll content xs ks) :
    Spells content (render xs).toList ks := by
  have hempty : ({} : Page).Spelled content [] := fun cs ls hcs => hcs
  have hall := spelled_writeAll hempty h [] [] .nil
  rwa [List.append_nil, List.append_nil] at hall

theorem SpelledAll.append {xs ys : List Layout} {ks ls : List TokenKind} (h : SpelledAll content xs ks)
    (k : SpelledAll content ys ls) : SpelledAll content (xs ++ ys) (ks ++ ls) := by
  induction xs generalizing ks with
  | nil =>
    cases h
    exact k
  | cons x xs ih =>
    cases h with
    | cons h t =>
      rw [List.append_assoc]
      exact .cons h (ih t)

/-- Blank lines between layouts spell nothing. -/
theorem spelledAll_separated {α : Type} {layout : α → List Layout} {tokens : α → List TokenKind} {items : List α}
    (h : ∀ x ∈ items, SpelledAll content (layout x) (tokens x)) :
    SpelledAll content (separated (items.map layout)) (items.flatMap tokens) := by
  induction items with
  | nil => exact .nil
  | cons x items ih =>
    have hx := h x List.mem_cons_self
    have hitems := ih fun y hy => h y (List.mem_cons_of_mem x hy)
    cases items with
    | nil =>
      rw [List.flatMap_singleton]
      exact hx
    | cons y items =>
      have hblank := SpelledAll.cons .blank hitems
      rw [List.nil_append] at hblank
      rw [List.flatMap_cons]
      exact hx.append hblank

end Layout

/-! ## Units -/

namespace TestUnit

/-- Names joined with dots, in tokens. -/
def nameTokens : List String → List TokenKind
  | [] => []
  | name :: more => .ofWord name :: more.flatMap fun n => [.punctuation .dot, .ofWord n]

theorem eq_of_mem_nameTokens {names : List String} {k : TokenKind} (h : k ∈ nameTokens names) :
    k = .punctuation .dot ∨ ∃ name, k = .ofWord name := by
  cases names with
  | nil => cases h
  | cons name more =>
    rw [nameTokens] at h
    rcases List.mem_cons.mp h with rfl | h
    · exact .inr ⟨name, rfl⟩
    · obtain ⟨n, -, hn⟩ := List.mem_flatMap.mp h
      rcases List.mem_cons.mp hn with rfl | hn
      · exact .inl rfl
      · exact .inr ⟨n, List.mem_singleton.mp hn⟩

/-- A directive that opens a namespace, in tokens. -/
def usingTokens (names : List String) : List TokenKind :=
  .keyword .usingKw :: (nameTokens names ++ [.punctuation .semicolon])

/-- An attribute, in tokens. -/
def attributeTokens (name : String) : List TokenKind :=
  [.punctuation .leftBracket, .ofWord name, .punctuation .rightBracket]

/-- The names of which the framework's namespace is made. -/
def libraryNames : Framework → List String
  | .nunit => ["NUnit", "Framework"]
  | .mstest => ["Microsoft", "VisualStudio", "TestTools", "UnitTesting"]
  | .xunit => ["Xunit"]

/-- The failing statement of a framework, in tokens. -/
def failureTokens : Framework → List TokenKind
  | .nunit | .mstest =>
    [.identifier "Assert", .punctuation .dot, .identifier "Fail", .punctuation .leftParen, .literal .string,
      .punctuation .rightParen, .punctuation .semicolon]
  | .xunit =>
    [.identifier "Assert", .punctuation .dot, .identifier "True", .punctuation .leftParen, .identifier "false",
      .punctuation .comma, .literal .string, .punctuation .rightParen, .punctuation .semicolon]

/-- A stub, in tokens. -/
def stubTokens (f : Framework) (name : String) : List TokenKind :=
  attributeTokens f.methodAttribute ++ .keyword .publicKw :: .identifier "void" :: .identifier name
    :: (Written.inParens [] ++ Written.inBraces (failureTokens f))

theorem isModifier_publicKw : Keyword.publicKw.isModifier = true := rfl

/-- The class called `name` with its attribute, in tokens. -/
def classTokens (f : Framework) (name : String) (stubs : List String) : List TokenKind :=
  f.classAttribute?.toList.flatMap attributeTokens
    ++ Written.typeTokens [⟨.publicKw, isModifier_publicKw⟩] .classType name (stubs.flatMap (stubTokens f))

/-- The namespace that holds this class, in tokens. -/
def namespaceTokens (f : Framework) (names : List String) (className : String) (stubs : List String) :
    List TokenKind :=
  .keyword .namespaceKw :: (nameTokens names ++ Written.inBraces (classTokens f className stubs))

/-- The unit for a type in the namespace whose names are `segments`, in tokens. -/
def tokens (f : Framework) (segments : List String) (d : Descriptor) : List TokenKind :=
  usingTokens ["System"] ++ (usingTokens (libraryNames f) ++ (usingTokens segments
    ++ namespaceTokens f (segments ++ ["Tests"]) (Naming.testTypeName d.name) (Naming.stubNames d.methods)))

/-- What stands in every literal of a unit. -/
def marker : List Char := Naming.failureMarker.toList

theorem marker_isIdentifier : IsIdentifier marker := isIdentifier_of_isLetters (by decide)

theorem spells_names (content : List Char) {names : List String} (hne : names ≠ [])
    (h : ∀ n ∈ names, IsIdentifier n.toList) :
    Spells content (".".intercalate names).toList (nameTokens names) := by
  induction names with
  | nil => exact absurd rfl hne
  | cons name more ih =>
    have hname := h name List.mem_cons_self
    cases more with
    | nil =>
      have hword : Spells content (name.toList ++ []) [.ofWord name] := Spells.word name hname ends_nil .nil
      rwa [List.append_nil] at hword
    | cons n more =>
      have hmore := ih (by simp) fun m hm => h m (List.mem_cons_of_mem name hm)
      have hdot : Spells content ('.' :: (".".intercalate (n :: more)).toList)
          (.punctuation .dot :: nameTokens (n :: more)) := .mark (p := .dot) (by decide) hmore
      have hword := Spells.word name hname (ends_cons (by decide) _) hdot
      have htext : (".".intercalate (name :: n :: more)).toList
          = name.toList ++ '.' :: (".".intercalate (n :: more)).toList := by
        simp [String.toList_intercalate]
      rw [htext]
      exact hword

/-- A word, a blank, and more. -/
theorem spells_word_blank (name : String) (h : IsIdentifier name.toList) {cs : List Char} {ks : List TokenKind}
    (rest : Spells content cs ks) : Spells content (name.toList ++ ' ' :: cs) (.ofWord name :: ks) :=
  Spells.word name h (ends_cons (by decide) cs) (.blank (by decide) rest)

theorem spelled_usingLine (content : List Char) {names : List String} (hne : names ≠ [])
    (h : ∀ n ∈ names, IsIdentifier n.toList) :
    Layout.Spelled content (.usingLine (".".intercalate names)) (usingTokens names) := by
  have hnames := (spells_names content hne h).append (.single .semicolon (by decide))
    (ends_cons (by decide) [])
  have hall := spells_word_blank "using" (isIdentifier_of_isLetters (by decide)) hnames
  have htext (s : String) : (s!"using {s};").toList
      = "using".toList ++ ' ' :: (s.toList ++ Punctuation.semicolon.spelling.toList) := by
    show ("using " ++ s ++ ";").toList = _
    simp [String.toList_append, Punctuation.spelling]
  refine .line ?_
  rw [htext]
  exact hall

theorem spelled_attributeLine {name : String} (h : IsIdentifier name.toList) :
    Layout.Spelled content (.attributeLine name) (attributeTokens name) := by
  have hname : Spells content (name.toList ++ Punctuation.rightBracket.spelling.toList)
      [.ofWord name, .punctuation .rightBracket] :=
    Spells.word name h (ends_cons (by decide) []) (.single .rightBracket (by decide))
  have hall := Spells.mark (p := .leftBracket) (by decide) hname
  have htext : (s!"[{name}]").toList
      = Punctuation.leftBracket.spelling.toList ++ (name.toList ++ Punctuation.rightBracket.spelling.toList) := by
    show ("[" ++ name ++ "]").toList = _
    simp [String.toList_append, Punctuation.spelling]
  refine .line ?_
  rw [htext]
  exact hall

/-- The head of a class. -/
theorem spells_classHead {name : String} (h : IsIdentifier name.toList) (hk : Keyword.ofSpelling? name = none) :
    Spells content (s!"public class {name}").toList [.keyword .publicKw, .keyword .classKw, .identifier name] := by
  have hname : Spells content name.toList [.identifier name] := by
    have hword : Spells content (name.toList ++ []) [.ofWord name] := Spells.word name h ends_nil .nil
    rw [List.append_nil, TokenKind.ofWord, hk] at hword
    exact hword
  have hclass := spells_word_blank "class" (isIdentifier_of_isLetters (by decide)) hname
  have hall := spells_word_blank "public" (isIdentifier_of_isLetters (by decide)) hclass
  have htext : (s!"public class {name}").toList
      = "public".toList ++ ' ' :: ("class".toList ++ ' ' :: name.toList) := by
    show ("public class " ++ name).toList = _
    simp [String.toList_append]
  rw [htext]
  exact hall

/-- The head of a stub. -/
theorem spells_stubHead {name : String} (h : IsIdentifier name.toList) (hk : Keyword.ofSpelling? name = none) :
    Spells content (s!"public void {name}()").toList
      (.keyword .publicKw :: .identifier "void" :: .identifier name :: Written.inParens []) := by
  have hparens : Spells content (Punctuation.leftParen.spelling.toList ++ Punctuation.rightParen.spelling.toList)
      (Written.inParens []) := .mark (by decide) (.single .rightParen (by decide))
  have hname := Spells.word name h (ends_cons (by decide) _) hparens
  rw [TokenKind.ofWord, hk] at hname
  have hvoid := spells_word_blank "void" (isIdentifier_of_isLetters (by decide)) hname
  have hall := spells_word_blank "public" (isIdentifier_of_isLetters (by decide)) hvoid
  have htext : (s!"public void {name}()").toList
      = "public".toList ++ ' ' :: ("void".toList ++ ' ' :: (name.toList
        ++ (Punctuation.leftParen.spelling.toList ++ Punctuation.rightParen.spelling.toList))) := by
    show ("public void " ++ name ++ "()").toList = _
    simp [String.toList_append, Punctuation.spelling]
  rw [htext]
  exact hall

/-- The statement that fails holds the marker as its only literal. -/
theorem spells_failure (f : Framework) : Spells marker (f.failure Naming.failureMarker).toList (failureTokens f) := by
  have hend : Spells marker (");".toList) [.punctuation .rightParen, .punctuation .semicolon] :=
    .mark (p := .rightParen) (by decide) (.single .semicolon (by decide))
  have hliteral : Spells marker ('"' :: (marker ++ '"' :: ");".toList))
      [.literal .string, .punctuation .rightParen, .punctuation .semicolon] := .literal (ends_cons (by decide) _) hend
  have hassert {cs : List Char} {ks : List TokenKind} (h : Spells marker cs ks) :
      Spells marker ("Assert".toList ++ '.' :: cs) (.identifier "Assert" :: .punctuation .dot :: ks) :=
    Spells.word "Assert" (isIdentifier_of_isLetters (by decide)) (ends_cons (by decide) _)
      (.mark (p := .dot) (by decide) h)
  cases f with
  | xunit =>
    have hfalse := Spells.word "false" (isIdentifier_of_isLetters (by decide))
      (ends_cons (by decide) _) (.mark (p := .comma) (by decide) (.blank (c := ' ') (by decide) hliteral))
    have htrue := Spells.word "True" (isIdentifier_of_isLetters (by decide))
      (ends_cons (by decide) _) (.mark (p := .leftParen) (by decide) hfalse)
    exact hassert htrue
  | _ =>
    have hfail := Spells.word "Fail" (isIdentifier_of_isLetters (by decide))
      (ends_cons (by decide) _) (.mark (p := .leftParen) (by decide) hliteral)
    exact hassert hfail

theorem methodAttribute_isIdentifier (f : Framework) : IsIdentifier f.methodAttribute.toList := by
  cases f <;> exact isIdentifier_of_isLetters (by decide)

theorem classAttribute_isIdentifier (f : Framework) : ∀ name ∈ f.classAttribute?.toList, IsIdentifier name.toList := by
  have hletters : (f.classAttribute?.toList.all fun name => isLetters name.toList) = true := by cases f <;> decide
  exact fun name hname => isIdentifier_of_isLetters (List.all_eq_true.mp hletters name hname)

theorem spelled_stub (f : Framework) {name : String} (h : IsIdentifier name.toList)
    (hk : Keyword.ofSpelling? name = none) : Layout.SpelledAll marker (stub f name) (stubTokens f name) := by
  have hbody := Layout.SpelledAll.cons (.line (spells_failure f)) .nil
  rw [List.append_nil] at hbody
  have hblock := Layout.SpelledAll.cons (.block (spells_stubHead h hk) hbody) .nil
  rw [List.append_nil] at hblock
  exact .cons (spelled_attributeLine (methodAttribute_isIdentifier f)) hblock

theorem spelled_testClass (f : Framework) {d : Descriptor} (hname : IsIdentifier d.name.toList)
    (hmethods : ∀ m ∈ d.methods, IsIdentifier m.toList) : Layout.SpelledAll marker (testClass f d)
      (classTokens f (Naming.testTypeName d.name) (Naming.stubNames d.methods)) := by
  have hattributes : Layout.SpelledAll marker (f.classAttribute?.toList.map .attributeLine)
      (f.classAttribute?.toList.flatMap attributeTokens) := by
    have hspelled : ∀ name ∈ f.classAttribute?.toList,
        Layout.Spelled marker (.attributeLine name) (attributeTokens name) :=
      fun name hn => spelled_attributeLine (classAttribute_isIdentifier f name hn)
    generalize f.classAttribute?.toList = names at hspelled
    induction names with
    | nil => exact .nil
    | cons name names ih =>
      exact .cons (hspelled name List.mem_cons_self) (ih fun n hn => hspelled n (List.mem_cons_of_mem name hn))
  have hstubs : Layout.SpelledAll marker (Layout.separated ((Naming.stubNames d.methods).map (stub f)))
      ((Naming.stubNames d.methods).flatMap (stubTokens f)) :=
    Layout.spelledAll_separated fun name hn =>
      spelled_stub f (Naming.stubNames_isIdentifier hmethods hn) (Naming.ofSpelling?_of_mem_stubNames hn)
  have hclass := Layout.SpelledAll.cons (.block (spells_classHead (Naming.testTypeName_isIdentifier hname)
    (Naming.ofSpelling?_testTypeName d.name)) hstubs) .nil
  rw [List.append_nil] at hclass
  exact hattributes.append hclass

theorem library_eq (f : Framework) : f.library = ".".intercalate (libraryNames f) := by
  cases f <;> decide

theorem libraryNames_isIdentifier (f : Framework) : ∀ n ∈ libraryNames f, IsIdentifier n.toList := by
  have hletters : ((libraryNames f).all fun n => isLetters n.toList) = true := by cases f <;> decide
  exact fun n hn => isIdentifier_of_isLetters (List.all_eq_true.mp hletters n hn)

theorem libraryNames_ne_nil (f : Framework) : libraryNames f ≠ [] := by
  cases f <;> simp [libraryNames]

theorem testNamespace_intercalate {segments : List String} (hne : segments ≠ []) :
    Naming.testNamespace (".".intercalate segments) = ".".intercalate (segments ++ ["Tests"]) := by
  have hlast : (["Tests"] : List String) ≠ [] := by simp
  rw [String.intercalate_append_of_ne_nil hne hlast, Naming.testNamespace, String.append_assoc]
  rfl

/-- The head of the namespace of a unit. -/
theorem spells_namespaceHead (content : List Char) {names : List String} (hne : names ≠ [])
    (h : ∀ n ∈ names, IsIdentifier n.toList) {dotted : String} (hdotted : dotted = ".".intercalate names) :
    Spells content (s!"namespace {dotted}").toList (.keyword .namespaceKw :: nameTokens names) := by
  have hall := spells_word_blank "namespace" (isIdentifier_of_isLetters (by decide)) (spells_names content hne h)
  have htext (s : String) : (s!"namespace {s}").toList = "namespace".toList ++ ' ' :: s.toList := by
    show ("namespace " ++ s).toList = _
    simp [String.toList_append]
  rw [htext, hdotted]
  exact hall

/-- The text of a unit spells its tokens. -/
theorem spells_render (f : Framework) {d : Descriptor} {segments : List String} (hname : IsIdentifier d.name.toList)
    (hmethods : ∀ m ∈ d.methods, IsIdentifier m.toList) (hne : segments ≠ [])
    (hsegments : ∀ s ∈ segments, IsIdentifier s.toList) (hnamespace : d.namespaceName = ".".intercalate segments) :
    Spells marker (render f d).text.toList (tokens f segments d) := by
  have hlast : ∀ s ∈ segments ++ ["Tests"], IsIdentifier s.toList := by
    intro s hs
    rcases List.mem_append.mp hs with hs | hs
    · exact hsegments s hs
    · rw [List.mem_singleton.mp hs]
      exact isIdentifier_of_isLetters (by decide)
  have hone : ∀ n ∈ ["System"], IsIdentifier n.toList := by
    intro n hn
    rw [List.mem_singleton.mp hn]
    exact isIdentifier_of_isLetters (by decide)
  have hsystem := spelled_usingLine marker (by simp) hone
  have hlibrary := spelled_usingLine marker (libraryNames_ne_nil f) (libraryNames_isIdentifier f)
  have husing := spelled_usingLine marker hne hsegments
  have hnested : Naming.testNamespace d.namespaceName = ".".intercalate (segments ++ ["Tests"]) := by
    rw [hnamespace]
    exact testNamespace_intercalate hne
  have hhead := spells_namespaceHead marker (by simp) hlast hnested
  have hblock := Layout.SpelledAll.cons (.block hhead (spelled_testClass f hname hmethods)) .nil
  rw [List.append_nil] at hblock
  rw [← library_eq] at hlibrary
  rw [← hnamespace] at husing
  exact Layout.spells_render (.cons hsystem (.cons hlibrary (.cons husing (.cons .blank hblock))))

end TestUnit

end TestScaffold
