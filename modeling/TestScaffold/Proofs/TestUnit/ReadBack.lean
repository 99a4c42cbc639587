import TestScaffold.Generation.Run
import TestScaffold.Proofs.TestUnit.Reading

/-!
# Test units read back

A unit is a text of the language it is written for: read again it declares one class in one namespace, with one method
per stub.

Results:
* `DeclarationTree.ofNode?_of_headings`: how a tree with one class is described.
* `TestUnit.describe_of_render`: a unit reads back as what it was made from.
-/

namespace TestScaffold

open Text (IsIdentifier)

/-! ## Trees with one class -/

namespace DeclarationTree

/-- The nodes of a unit, by their indices. -/
def unitHeadings (namespaceName className : String) (stubs : List String) : List Heading :=
  [⟨.unit, "", [], none⟩, ⟨.namespaceBlock, namespaceName, [], some 0⟩,
    ⟨.type .classType, className, [.publicKw], some 1⟩] ++ stubs.map fun s => ⟨.method, s, [.publicKw], some 2⟩

theorem headings_declaration (namespaceName className : String) (stubs : List String) :
    (TestUnit.declaration namespaceName className stubs).headings none 0
      = unitHeadings namespaceName className stubs := by
  have hstubs (next : Nat) : Declaration.headingsAll 2 next (stubs.map TestUnit.stubDeclaration)
      = stubs.map fun s => ⟨.method, s, [.publicKw], some 2⟩ := by
    induction stubs generalizing next with
    | nil => rfl
    | cons s stubs ih =>
      rw [List.map_cons, Declaration.headingsAll, ih]
      rfl
  simp only [TestUnit.declaration, TestUnit.namespaceDeclaration, TestUnit.classDeclaration, Declaration.headings,
    Declaration.headingsAll, hstubs, List.append_nil]
  rfl

section

variable {t : DeclarationTree} {namespaceName className : String} {stubs : List String}

theorem publicMethods_eq (t : DeclarationTree) (id : Nat) : t.publicMethods id = (t.children id).filterMap fun child =>
    (t.headings[child]?).bind fun g =>
      if g.kind == .method && g.modifiers.contains .publicKw then some g.name else none := by
  unfold publicMethods
  congr 1
  funext child
  rw [headings_getElem?]
  cases t.get? child <;> rfl

theorem size_of_headings (hh : t.headings = unitHeadings namespaceName className stubs) :
    t.size = 3 + stubs.length := by
  rw [← length_headings, hh, unitHeadings, List.length_append, List.length_map]
  rfl

theorem children_of_headings (hl : t.Linked) (hh : t.headings = unitHeadings namespaceName className stubs) :
    t.children 0 = [1] ∧ t.children 1 = [2] ∧ t.children 2 = (List.range stubs.length).map (3 + ·) := by
  have hparent : t.parent? 0 = none ∧ t.parent? 1 = some 0 ∧ t.parent? 2 = some 1 := by
    simp [parent?, hh, unitHeadings]
  have hstub : ∀ i ∈ List.range stubs.length, t.parent? (3 + i) = some 2 := by
    intro i hi
    have hlt : i < stubs.length := List.mem_range.mp hi
    rw [parent?, hh, unitHeadings, List.getElem?_append_right (by simp)]
    simp [hlt]
  have hrange : List.range t.size = [0, 1, 2] ++ (List.range stubs.length).map (3 + ·) := by
    rw [size_of_headings hh, List.range_add]
    rfl
  have hstubs (p : Nat) : (((List.range stubs.length).map (3 + ·)).filter fun id => t.parent? id = some p)
      = if p = 2 then (List.range stubs.length).map (3 + ·) else [] := by
    split
    · next hp =>
      rw [List.filter_eq_self]
      intro id hid
      obtain ⟨i, hi, rfl⟩ := List.mem_map.mp hid
      simp [hstub i hi, hp]
    · next hp =>
      rw [List.filter_eq_nil_iff]
      intro id hid
      obtain ⟨i, hi, rfl⟩ := List.mem_map.mp hid
      simp [hstub i hi, Ne.symm hp]
  refine ⟨?_, ?_, ?_⟩ <;> rw [hl.children, hrange, List.filter_append, hstubs] <;> simp [hparent]

theorem exists_nodes_of_headings (hh : t.headings = unitHeadings namespaceName className stubs) :
    ∃ r n c, t.get? 0 = some r ∧ t.get? 1 = some n ∧ t.get? 2 = some c ∧ r.heading = ⟨.unit, "", [], none⟩ ∧
      n.heading = ⟨.namespaceBlock, namespaceName, [], some 0⟩ ∧
      c.heading = ⟨.type .classType, className, [.publicKw], some 1⟩ := by
  have node {id : Nat} {g : Heading} (hg : (unitHeadings namespaceName className stubs)[id]? = some g) :
      ∃ n, t.get? id = some n ∧ n.heading = g := get?_of_headings (by rw [hh, hg])
  obtain ⟨r, hr, hrh⟩ := @node 0 _ rfl
  obtain ⟨n, hn, hnh⟩ := @node 1 _ rfl
  obtain ⟨c, hc, hch⟩ := @node 2 _ rfl
  exact ⟨r, n, c, hr, hn, hc, hrh, hnh, hch⟩

/-- The class is the one class-like type. -/
theorem classLikeTypes_of_headings (hl : t.Linked) (hh : t.headings = unitHeadings namespaceName className stubs) :
    t.classLikeTypes = [2] := by
  obtain ⟨hroot, hnamespace, -⟩ := children_of_headings hl hh
  obtain ⟨r, n, c, -, hn, hc, -, hnh, hch⟩ := exists_nodes_of_headings hh
  have hnk : n.kind = .namespaceBlock := congrArg Heading.kind hnh
  have hck : c.kind = .type .classType := congrArg Heading.kind hch
  obtain ⟨m, hm⟩ : ∃ m, t.size = m + 2 := ⟨stubs.length + 1, by rw [size_of_headings hh]; omega⟩
  rw [classLikeTypes, hroot, hm]
  simp [classLikeFrom, hn, hnk, hc, hck, hnamespace, DeclarationKind.isClassLike, TypeKind.isClassLike]

theorem enclosingNamespace?_of_headings (hh : t.headings = unitHeadings namespaceName className stubs) :
    t.enclosingNamespace? 2 = some namespaceName := by
  obtain ⟨r, n, c, hr, hn, hc, hrh, hnh, hch⟩ := exists_nodes_of_headings hh
  have hrk : r.kind = .unit := congrArg Heading.kind hrh
  have hrp : r.parent = none := congrArg Heading.parent hrh
  have hnk : n.kind = .namespaceBlock := congrArg Heading.kind hnh
  have hnn : n.name = namespaceName := congrArg Heading.name hnh
  have hnp : n.parent = some 0 := congrArg Heading.parent hnh
  have hcp : c.parent = some 1 := congrArg Heading.parent hch
  obtain ⟨m, hm⟩ : ∃ m, t.size = m + 3 := ⟨stubs.length, by rw [size_of_headings hh]; omega⟩
  have hancestors : t.ancestors 2 = [1, 0] := by
    rw [ancestors, hm]
    simp [ancestorsFrom, hr, hn, hc, hrp, hnp, hcp]
  have hnames : (t.ancestors 2).filterMap t.namespaceName? = [namespaceName] := by
    rw [hancestors]
    simp [namespaceName?, hr, hn, hrk, hnk, hnn]
  rw [enclosingNamespace?, hnames]
  rfl

theorem filterMap_getElem?_range {α : Type} (xs : List α) :
    (List.range xs.length).filterMap (fun i => xs[i]?) = xs := by
  induction xs with
  | nil => rfl
  | cons x xs ih =>
    rw [List.length_cons, List.range_succ_eq_map, List.filterMap_cons, List.filterMap_map]
    exact congrArg (List.cons x) ih

theorem publicMethods_of_headings (hl : t.Linked) (hh : t.headings = unitHeadings namespaceName className stubs) :
    t.publicMethods 2 = stubs := by
  have hstub (i : Nat) : (t.headings[3 + i]?).bind (fun g =>
      if g.kind == .method && g.modifiers.contains .publicKw then some g.name else none) = stubs[i]? := by
    have hget : t.headings[3 + i]? = (stubs[i]?).map fun s => ⟨.method, s, [.publicKw], some 2⟩ := by
      rw [hh, unitHeadings, List.getElem?_append_right (by simp)]
      simp
    rw [hget]
    cases stubs[i]? <;> rfl
  rw [publicMethods_eq, (children_of_headings hl hh).2.2, List.filterMap_map]
  simp only [Function.comp_def, hstub]
  exact filterMap_getElem?_range stubs

/-- The class is described by its name, its namespace and its methods. -/
theorem ofNode?_of_headings (hl : t.Linked) (hh : t.headings = unitHeadings namespaceName className stubs) :
    Descriptor.ofNode? t 2 = some ⟨className, namespaceName, stubs⟩ := by
  obtain ⟨r, n, c, -, -, hc, -, -, hch⟩ := exists_nodes_of_headings hh
  have hcn : c.name = className := congrArg Heading.name hch
  have hname : t.nameOf 2 = className := by simp [nameOf, hc, hcn]
  rw [Descriptor.ofNode?, enclosingNamespace?_of_headings hh, publicMethods_of_headings hl hh, hname]
  rfl

end

end DeclarationTree

/-! ## Reading a unit -/

namespace TestUnit

/-- Tokens that are read as some declarations give a tree of these declarations. -/
theorem exists_ofTokens {ts : List Token} {d : Declaration}
    (h : readDeclarations (Written.bare (ts.map Token.kind)) = .ok d) :
    ∃ t, DeclarationTree.ofTokens ts = .ok t ∧ t.headings = d.headings none 0 := by
  obtain ⟨e, he, rfl⟩ := Written.readDeclarations_bare_eq_ok_iff.mp h
  refine ⟨.ofDeclaration e, by simp [DeclarationTree.ofTokens, he, Except.map], ?_⟩
  rw [DeclarationTree.headings_ofDeclaration, Written.headings_unplaced]

/-- Tokens that are refused without their places are refused with them. -/
theorem exists_error_of_bare {ts : List Token} {ds : List Diagnostic}
    (h : readDeclarations (Written.bare (ts.map Token.kind)) = .error ds) :
    ∃ es, DeclarationTree.ofTokens ts = .error es := by
  rw [← Written.map_unplaced_eq_bare, readDeclarations_unplaced] at h
  cases hr : readDeclarations ts with
  | error es => exact ⟨es, by simp [DeclarationTree.ofTokens, hr, Except.map]⟩
  | ok e =>
    rw [hr] at h
    cases h

theorem head?_render (f : Framework) (d : Descriptor) : (render f d).text.toList.head? = some 'u' := by
  obtain ⟨more, hmore⟩ := Layout.extends_writeAll (Layout.write {} (.usingLine "System")) (layout f d).tail
  have hfirst : (Layout.write {} (.usingLine "System")).text = "using System;\n" := rfl
  have htext : (render f d).text = "using System;\n" ++ more := by
    rw [← hfirst, ← hmore]
    rfl
  rw [htext, String.toList_append]
  rfl

/-- The text of a unit is cut into its tokens. -/
theorem exists_lex_render (f : Framework) {d : Descriptor} {segments : List String}
    (hname : IsIdentifier d.name.toList) (hmethods : ∀ m ∈ d.methods, IsIdentifier m.toList) (hne : segments ≠ [])
    (hsegments : ∀ s ∈ segments, IsIdentifier s.toList) (hnamespace : d.namespaceName = ".".intercalate segments) :
    ∃ ts, lex (render f d).text = .ok ts ∧ ts.map Token.kind = tokens f segments d ++ [.endOfText] := by
  have hmark : (render f d).text.toList.head? ≠ some '\ufeff' := by
    rw [head?_render]
    simp
  exact lex_of_spells marker_isIdentifier (spells_render f hname hmethods hne hsegments hnamespace) hmark

/-- A unit is accepted, if every word in the name of the namespace may serve as a name, and is described as what it
was made to be. -/
theorem exists_ofSource_render (f : Framework) {d : Descriptor} {segments : List String}
    (hname : IsIdentifier d.name.toList) (hmethods : ∀ m ∈ d.methods, IsIdentifier m.toList) (hne : segments ≠ [])
    (hsegments : ∀ s ∈ segments, IsIdentifier s.toList) (hnamespace : d.namespaceName = ".".intercalate segments)
    (hfree : ∀ s ∈ segments, ¬ Reserved s) :
    ∃ t id, DeclarationTree.ofSource (render f d).text = .ok t ∧ t.classLikeTypes = [id] ∧
      Descriptor.ofNode? t id = some ⟨Naming.testTypeName d.name, Naming.testNamespace d.namespaceName,
        Naming.stubNames d.methods⟩ := by
  obtain ⟨ts, hlex, hkinds⟩ := exists_lex_render f hname hmethods hne hsegments hnamespace
  have hread := readDeclarations_tokens f hfree d
  rw [← hkinds, ← testNamespace_intercalate hne, ← hnamespace] at hread
  obtain ⟨t, ht, hheadings⟩ := exists_ofTokens hread
  rw [DeclarationTree.headings_declaration] at hheadings
  have hwords : Words (fun _ => True) ts := fun _ _ _ _ => trivial
  have hlinked := (DeclarationTree.grown_of_ofTokens trivial trivial hwords ht).1.linked
  have hsource : DeclarationTree.ofSource (render f d).text = .ok t := by
    rw [DeclarationTree.ofSource, hlex]
    exact ht
  exact ⟨t, 2, hsource, DeclarationTree.classLikeTypes_of_headings hlinked hheadings,
    DeclarationTree.ofNode?_of_headings hlinked hheadings⟩

/-- A unit is refused, if some word in the name of the namespace is reserved. -/
theorem exists_error_of_render (f : Framework) {d : Descriptor} {segments : List String}
    (hname : IsIdentifier d.name.toList) (hmethods : ∀ m ∈ d.methods, IsIdentifier m.toList)
    (hsegments : ∀ s ∈ segments, IsIdentifier s.toList) (hnamespace : d.namespaceName = ".".intercalate segments)
    (hreserved : ∃ s ∈ segments, Reserved s) :
    ∃ ds, DeclarationTree.ofSource (render f d).text = .error ds := by
  have hne : segments ≠ [] := by
    obtain ⟨s, hs, -⟩ := hreserved
    exact List.ne_nil_of_mem hs
  obtain ⟨ts, hlex, hkinds⟩ := exists_lex_render f hname hmethods hne hsegments hnamespace
  obtain ⟨ds, hread⟩ := exists_error_of_tokens f hreserved d
  rw [← hkinds] at hread
  obtain ⟨es, hes⟩ := exists_error_of_bare hread
  refine ⟨es, ?_⟩
  rw [DeclarationTree.ofSource, hlex]
  exact hes

/-! ## Literals of a unit -/

theorem count_attributeTokens (name : String) : (attributeTokens name).count (.literal .string) = 0 := by
  simp [attributeTokens, TokenKind.ofWord_ne_literal]

theorem count_nameTokens (names : List String) : (nameTokens names).count (.literal .string) = 0 := by
  rw [List.count_eq_zero]
  intro h
  rcases eq_of_mem_nameTokens h with hk | ⟨name, hk⟩
  · cases hk
  · exact TokenKind.ofWord_ne_literal name .string hk.symm

theorem count_stubTokens (f : Framework) (name : String) : (stubTokens f name).count (.literal .string) = 1 := by
  have hfailure : (failureTokens f).count (.literal .string) = 1 := by cases f <;> rfl
  simp [stubTokens, count_attributeTokens, Written.inParens, Written.inBraces, hfailure]

theorem count_classTokens (f : Framework) (name : String) (stubs : List String) :
    (classTokens f name stubs).count (.literal .string) = stubs.length := by
  have hattribute : (f.classAttribute?.toList.flatMap attributeTokens).count (.literal .string) = 0 := by
    cases f.classAttribute? with
    | none => rfl
    | some a => rw [Option.toList_some, List.flatMap_singleton, count_attributeTokens]
  have hstubs : (stubs.flatMap (stubTokens f)).count (.literal .string) = stubs.length := by
    induction stubs with
    | nil => rfl
    | cons s stubs ih =>
      rw [List.flatMap_cons, List.count_append, count_stubTokens, ih, List.length_cons, Nat.add_comm]
  simp [classTokens, hattribute, Written.typeTokens, Written.modifierTokens, Written.inBraces, hstubs]

/-- A unit has one literal per method. -/
theorem count_tokens (f : Framework) (segments : List String) (d : Descriptor) :
    (tokens f segments d).count (.literal .string) = d.methods.length := by
  have husing (names : List String) : (usingTokens names).count (.literal .string) = 0 := by
    simp [usingTokens, count_nameTokens]
  simp [tokens, husing, namespaceTokens, count_nameTokens, Written.inBraces, count_classTokens]

/-- The text of a unit shows the marker in quotes once per method. -/
theorem occurrences_render (f : Framework) {d : Descriptor} {segments : List String}
    (hname : IsIdentifier d.name.toList) (hmethods : ∀ m ∈ d.methods, IsIdentifier m.toList) (hne : segments ≠ [])
    (hsegments : ∀ s ∈ segments, IsIdentifier s.toList) (hnamespace : d.namespaceName = ".".intercalate segments) :
    occurrences ('"' :: (Naming.failureMarker.toList ++ ['"'])) (render f d).text.toList = d.methods.length := by
  rw [← count_tokens f segments d]
  exact occurrences_of_spells marker_isIdentifier (spells_render f hname hmethods hne hsegments hnamespace)

/-- A unit reads back: its text is accepted, holds one class-like type, and this type is described by the names the unit
was given. The text shows the marker in quotes once per method. -/
theorem describe_ofSource_render (f : Framework) {d : Descriptor} {segments : List String}
    (hname : IsIdentifier d.name.toList) (hmethods : ∀ m ∈ d.methods, IsIdentifier m.toList) (hne : segments ≠ [])
    (hsegments : ∀ s ∈ segments, IsIdentifier s.toList ∧ ¬ Reserved s)
    (hnamespace : d.namespaceName = ".".intercalate segments) :
    (∃ t id, DeclarationTree.ofSource (render f d).text = .ok t ∧ t.classLikeTypes = [id] ∧
      ∀ source, Generation.describe t id source = .ok ⟨d.name ++ "Test", d.namespaceName ++ ".Tests",
        Naming.stubNames d.methods⟩) ∧
      occurrences ('"' :: (Naming.failureMarker.toList ++ ['"'])) (render f d).text.toList = d.methods.length := by
  have hwords : ∀ s ∈ segments, IsIdentifier s.toList := fun s hs => (hsegments s hs).1
  obtain ⟨t, id, hsource, htypes, hdescribed⟩ := exists_ofSource_render f hname hmethods hne hwords hnamespace
    fun s hs => (hsegments s hs).2
  refine ⟨⟨t, id, hsource, htypes, ?_⟩, occurrences_render f hname hmethods hne hwords hnamespace⟩
  intro source
  rw [Generation.describe, hdescribed]
  rfl

/-- A type with overloaded methods, in a namespace one of whose names is spelled like a contextual keyword. -/
def overloads : Descriptor := ⟨"Order", "Shop.record", ["Add", "Remove", "Add"]⟩

theorem stubNames_overloads : Naming.stubNames overloads.methods = ["AddTest", "RemoveTest", "AddTest2"] := by
  have htwo : Nat.repr 2 = "2" := by decide
  simp [overloads, Naming.stubNames, Naming.stubNamesFrom, Naming.firstFree, Naming.stubName,
    Std.HashSet.size_insert, Std.HashSet.contains_insert, htwo]

theorem describe_ofSource_render_overloads :
    (∃ t id, DeclarationTree.ofSource (render .mstest overloads).text = .ok t ∧ t.classLikeTypes = [id] ∧
      ∀ source, Generation.describe t id source = .ok ⟨"OrderTest", "Shop.record.Tests",
        ["AddTest", "RemoveTest", "AddTest2"]⟩) ∧
      occurrences ('"' :: (Naming.failureMarker.toList ++ ['"'])) (render .mstest overloads).text.toList = 3 := by
  have hname : IsIdentifier overloads.name.toList := by decide +kernel
  have hmethods : ∀ m ∈ overloads.methods, IsIdentifier m.toList := by decide +kernel
  have hne : ["Shop", "record"] ≠ [] := by simp
  have hsegments : ∀ s ∈ ["Shop", "record"], IsIdentifier s.toList ∧ ¬ Reserved s := by decide +kernel
  have hnamespace : overloads.namespaceName = ".".intercalate ["Shop", "record"] := rfl
  rw [← stubNames_overloads]
  exact describe_ofSource_render .mstest hname hmethods hne hsegments hnamespace

end TestUnit

end TestScaffold
