import TestScaffold.Proofs.TestUnit.ReadBack
import TestScaffold.Proofs.Token.Words

/-!
# Test units for texts that were read

The names in a tree that was read have the form of names, so whatever is described can be written. A name behind an `@`
has lost the sign, though, and is written without it. In the names of types and methods this does no harm, since both
get a word put behind them. A segment of a namespace is written as it is, and where it is spelled like a reserved word
the unit is refused.

Results:
* `Descriptor.named_of_ofNode?`: what a description of a type that was read is made of.
* `TestUnit.accepted_iff_of_describe`: a unit for a type that was read is accepted, and reads back, exactly if no
  segment of the namespace is reserved.
* `TestUnit.refused_verbatimNamespace`: a text with a unit that is refused.
-/

namespace TestScaffold

open Text (IsIdentifier)

/-- The names that stand in a text. -/
def FormOfName (n : String) : Prop := IsIdentifier n.toList

namespace DeclarationTree

/-- In a tree that was read from a text, names have the form of names. -/
theorem grown_of_ofSource {source : String} {t : DeclarationTree} (h : ofSource source = .ok t) :
    Grown (Admits FormOfName) t ∧ t.headings[0]? = some textHeading := by
  have hthis : FormOfName Keyword.thisKw.spelling := by unfold FormOfName; decide +kernel
  have hop : FormOfName Keyword.operatorKw.spelling := by unfold FormOfName; decide +kernel
  cases hlex : lex source with
  | error ds =>
    rw [ofSource, hlex] at h
    cases h
  | ok ts =>
    rw [ofSource, hlex] at h
    exact grown_of_ofTokens hthis hop (isIdentifier_of_lex hlex) h

variable {t : DeclarationTree} {id : Nat} {n : Node}

/-- A node that is not the root has a name of its kind. -/
theorem Grown.named {isName : String → Prop} (hg : Grown (Admits isName) t)
    (hroot : t.headings[0]? = some textHeading) (h : t.get? id = some n) (hk : n.kind ≠ .unit) :
    (n.kind ≠ .namespaceBlock → isName n.name) ∧ (n.kind = .namespaceBlock → Dotted isName n.name) := by
  have hid : id ≠ 0 := fun hid => hk ((hg.kind_eq_unit_iff hroot h).mpr hid)
  obtain ⟨p, outer, -, -, -, hadmits⟩ := hg.exists_outer_node h hid
  exact ⟨hadmits.name, hadmits.dotted⟩

theorem exists_of_mem_classLikeFrom {bound c : Nat} (h : c ∈ t.classLikeFrom bound id) :
    ∃ n, t.get? c = some n ∧ n.kind.isClassLike = true := by
  induction bound generalizing id with
  | zero => cases h
  | succ bound ih =>
    rw [classLikeFrom] at h
    cases hget : t.get? id with
    | none => simp [hget] at h
    | some m =>
      simp only [hget, Option.map_some] at h
      split at h
      · obtain ⟨child, -, hchild⟩ := List.mem_flatMap.mp h
        exact ih hchild
      · next kind _ heq =>
        have hkind : m.kind = kind := Option.some.inj heq
        split at h
        · next hlike =>
          rw [List.mem_singleton.mp h]
          exact ⟨m, hget, by rw [hkind]; exact hlike⟩
        · cases h
      · cases h

theorem exists_of_mem_classLikeTypes (h : id ∈ t.classLikeTypes) :
    ∃ n, t.get? id = some n ∧ n.kind.isClassLike = true := by
  obtain ⟨child, -, hchild⟩ := List.mem_flatMap.mp h
  exact exists_of_mem_classLikeFrom hchild

theorem exists_of_mem_publicMethods {m : String} (h : m ∈ t.publicMethods id) :
    ∃ child n, t.get? child = some n ∧ n.kind = .method ∧ n.name = m := by
  obtain ⟨child, -, hchild⟩ := List.mem_filterMap.mp h
  obtain ⟨n, hn, hm⟩ := Option.bind_eq_some_iff.mp hchild
  split at hm
  · next hc =>
    have hkind : n.kind = .method := by simp_all
    exact ⟨child, n, hn, hkind, Option.some.inj hm⟩
  · cases hm

theorem exists_of_namespaceName? {s : String} (h : t.namespaceName? id = some s) :
    ∃ n, t.get? id = some n ∧ n.kind = .namespaceBlock ∧ n.name = s := by
  obtain ⟨n, hn, hs⟩ := Option.bind_eq_some_iff.mp h
  split at hs
  · next hk => exact ⟨n, hn, by simpa using hk, Option.some.inj hs⟩
  · cases hs

/-- The names of the namespaces around a node make a dotted name. -/
theorem Grown.dotted_of_enclosingNamespace? {isName : String → Prop} (hg : Grown (Admits isName) t)
    (hroot : t.headings[0]? = some textHeading) {s : String} (h : t.enclosingNamespace? id = some s) :
    Dotted isName s := by
  unfold enclosingNamespace? at h
  split at h
  · cases h
  · next names hne =>
    cases h
    apply Dotted.intercalate
    · intro hnil
      exact hne (List.reverse_eq_nil_iff.mp hnil)
    · intro name hname
      obtain ⟨q, -, hq⟩ := List.mem_filterMap.mp (List.mem_reverse.mp hname)
      obtain ⟨n, hn, hk, rfl⟩ := exists_of_namespaceName? hq
      exact (hg.named hroot hn (by rw [hk]; simp)).2 hk

end DeclarationTree

/-- A description of a type that was read is made of names. -/
theorem Descriptor.named_of_ofNode? {source : String} {t : DeclarationTree}
    (h : DeclarationTree.ofSource source = .ok t) {id : Nat} (hid : id ∈ t.classLikeTypes) {d : Descriptor}
    (hd : Descriptor.ofNode? t id = some d) :
    FormOfName d.name ∧ (∀ m ∈ d.methods, FormOfName m) ∧ Dotted FormOfName d.namespaceName := by
  obtain ⟨hgrown, hroot⟩ := DeclarationTree.grown_of_ofSource h
  obtain ⟨s, hs, rfl⟩ := Option.map_eq_some_iff.mp hd
  refine ⟨?_, ?_, hgrown.dotted_of_enclosingNamespace? hroot hs⟩
  · obtain ⟨n, hn, hlike⟩ := DeclarationTree.exists_of_mem_classLikeTypes hid
    have hkind : n.kind ≠ .unit ∧ n.kind ≠ .namespaceBlock := by
      constructor <;> intro hk <;> rw [hk] at hlike <;> cases hlike
    have hname : t.nameOf id = n.name := by simp [DeclarationTree.nameOf, hn]
    rw [hname]
    exact (hgrown.named hroot hn hkind.1).1 hkind.2
  · intro m hm
    obtain ⟨child, n, hn, hk, rfl⟩ := DeclarationTree.exists_of_mem_publicMethods hm
    exact (hgrown.named hroot hn (by rw [hk]; simp)).1 (by rw [hk]; simp)

/-- What is described in a run is the description of the node. -/
theorem ofNode?_of_describe {t : DeclarationTree} {id : Nat} {path : String} {d : Descriptor}
    (h : Generation.describe t id path = .ok d) : Descriptor.ofNode? t id = some d := by
  unfold Generation.describe at h
  split at h
  · next e he =>
    cases h
    exact he
  · cases h

/-- The names between the dots of a dotted name. -/
def segments (s : String) : List String := (s.toList.splitOn '.').map String.ofList

theorem segments_intercalate {names : List String} (hne : names ≠ []) (h : ∀ n ∈ names, FormOfName n) :
    segments (".".intercalate names) = names := by
  have hdot : ∀ w ∈ names.map String.toList, '.' ∉ w := by
    intro w hw hmem
    obtain ⟨n, hn, rfl⟩ := List.mem_map.mp hw
    have hpart := (h n hn).isIdentifierPart '.' hmem
    exact absurd rfl (Text.ne_of_isIdentifierPart hpart (by decide))
  have hsplit := List.splitOn_intercalate '.' hdot (by simpa using hne)
  have htext : (".".intercalate names).toList = ['.'].intercalate (names.map String.toList) :=
    String.toList_intercalate
  rw [segments, htext, hsplit, List.map_map]
  simp [Function.comp_def]

namespace TestUnit

/-- A unit for a type that was read is accepted exactly if no segment of the namespace around the type is spelled like a
reserved word. Its one type is then described as the unit was made. -/
theorem accepted_iff_of_describe {source path : String} {t : DeclarationTree}
    (h : DeclarationTree.ofSource source = .ok t) {id : Nat} (hid : id ∈ t.classLikeTypes) {d : Descriptor}
    (hd : Generation.describe t id path = .ok d) (f : Framework) :
    ((∃ u, DeclarationTree.ofSource (render f d).text = .ok u) ↔ ∀ s ∈ segments d.namespaceName, ¬ Reserved s) ∧
      ∀ u, DeclarationTree.ofSource (render f d).text = .ok u → ∃ c, u.classLikeTypes = [c] ∧
        ∀ p, Generation.describe u c p = .ok ⟨d.name ++ "Test", d.namespaceName ++ ".Tests",
          Naming.stubNames d.methods⟩ := by
  obtain ⟨hname, hmethods, names, hne, hnamespace, hnames⟩ :=
    Descriptor.named_of_ofNode? h hid (ofNode?_of_describe hd)
  have haccepted := exists_ofSource_render f hname hmethods hne hnames hnamespace
  have hrefused := exists_error_of_render f hname hmethods hnames hnamespace
  have hfree {u : DeclarationTree} (hu : DeclarationTree.ofSource (render f d).text = .ok u) :
      ∀ s ∈ names, ¬ Reserved s := by
    intro s hs hreserved
    obtain ⟨ds, hds⟩ := hrefused ⟨s, hs, hreserved⟩
    rw [hu] at hds
    cases hds
  refine ⟨?_, ?_⟩
  · rw [hnamespace, segments_intercalate hne hnames]
    constructor
    · rintro ⟨u, hu⟩
      exact hfree hu
    · intro hnot
      obtain ⟨u, c, hu, -, -⟩ := haccepted hnot
      exact ⟨u, hu⟩
  · intro u hu
    obtain ⟨v, c, hv, hc, hdescribed⟩ := haccepted (hfree hu)
    have huv : v = u := Except.ok.inj (hv.symm.trans hu)
    subst huv
    refine ⟨c, hc, ?_⟩
    intro p
    rw [Generation.describe, hdescribed]
    rfl

/-- A text that calls a type and a method by reserved words. -/
def verbatimType : String := "namespace Shop \x7b class @event \x7b public void @class() \x7b \x7d \x7d \x7d"

theorem accepted_verbatimType : ∃ t u, DeclarationTree.ofSource verbatimType = .ok t ∧ 2 ∈ t.classLikeTypes ∧
    Generation.describe t 2 "A.cs" = .ok ⟨"event", "Shop", ["class"]⟩ ∧
      DeclarationTree.ofSource (render .nunit ⟨"event", "Shop", ["class"]⟩).text = .ok u ∧
        ∃ c, u.classLikeTypes = [c] ∧
          ∀ p, Generation.describe u c p = .ok ⟨"eventTest", "Shop.Tests", Naming.stubNames ["class"]⟩ := by
  have hread : ((DeclarationTree.ofSource verbatimType).toOption.map fun t =>
      (t.classLikeTypes, Descriptor.ofNode? t 2)) = some ([2], some ⟨"event", "Shop", ["class"]⟩) := by decide +kernel
  have hfree : ∀ s ∈ segments "Shop", ¬ Reserved s := by decide +kernel
  cases ht : DeclarationTree.ofSource verbatimType with
  | error ds =>
    rw [ht] at hread
    cases hread
  | ok t =>
    rw [ht] at hread
    have hpair := Option.some.inj hread
    have htypes : t.classLikeTypes = [2] := congrArg Prod.fst hpair
    have hnode : Descriptor.ofNode? t 2 = some ⟨"event", "Shop", ["class"]⟩ := congrArg Prod.snd hpair
    have hid : 2 ∈ t.classLikeTypes := by simp [htypes]
    have hd : Generation.describe t 2 "A.cs" = .ok ⟨"event", "Shop", ["class"]⟩ := by
      rw [Generation.describe, hnode]
    obtain ⟨haccepted, hdescribed⟩ := accepted_iff_of_describe ht hid hd .nunit
    obtain ⟨u, hu⟩ := haccepted.mpr hfree
    exact ⟨t, u, rfl, hid, hd, hu, hdescribed u hu⟩

/-- A text that calls a namespace by a reserved word. -/
def verbatimNamespace : String := "namespace @event \x7b class A \x7b \x7d \x7d"

/-- The unit for its type opens, and declares something in, a namespace that cannot be named like that. -/
theorem refused_verbatimNamespace : ∃ t, DeclarationTree.ofSource verbatimNamespace = .ok t ∧
    t.classLikeTypes = [2] ∧ Generation.describe t 2 "A.cs" = .ok ⟨"A", "event", []⟩ ∧
      ∀ u, DeclarationTree.ofSource (render .nunit ⟨"A", "event", []⟩).text ≠ .ok u := by
  have hread : ((DeclarationTree.ofSource verbatimNamespace).toOption.map fun t =>
      (t.classLikeTypes, Descriptor.ofNode? t 2)) = some ([2], some ⟨"A", "event", []⟩) := by decide +kernel
  have hrefused : ∃ ds, DeclarationTree.ofSource (render .nunit ⟨"A", "event", []⟩).text = .error ds := by
    have hname : IsIdentifier "A".toList := by decide +kernel
    have hsegments : ∀ s ∈ ["event"], IsIdentifier s.toList := by decide +kernel
    have hreserved : ∃ s ∈ ["event"], Reserved s := by decide +kernel
    exact exists_error_of_render .nunit hname (by simp) hsegments rfl hreserved
  cases ht : DeclarationTree.ofSource verbatimNamespace with
  | error ds =>
    rw [ht] at hread
    cases hread
  | ok t =>
    rw [ht] at hread
    have hpair := Option.some.inj hread
    have htypes : t.classLikeTypes = [2] := congrArg Prod.fst hpair
    have hnode : Descriptor.ofNode? t 2 = some ⟨"A", "event", []⟩ := congrArg Prod.snd hpair
    refine ⟨t, rfl, htypes, by rw [Generation.describe, hnode], ?_⟩
    intro u hu
    obtain ⟨ds, hds⟩ := hrefused
    rw [hu] at hds
    cases hds

end TestUnit

end TestScaffold
