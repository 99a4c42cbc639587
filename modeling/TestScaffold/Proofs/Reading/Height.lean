import TestScaffold.Declaration.Reader
import TestScaffold.Proofs.Declaration.Height
import TestScaffold.Proofs.Reading.Bodies

/-!
# How deep the declarations that are read nest

A reader of lists whose bodies nest at most so many levels deep finds declarations that are at most as high. So every
tree that a text declares is bounded in its depth.

Results:
* `Reader.nests_ofLevels`: what a reader finds is no higher than its levels.
* `DeclarationTree.length_ancestors_le`: the nodes around a node of an accepted text.
-/

namespace TestScaffold

open Token (front atEnd atMark)

/-- What has been found nests at most `levels` deep. -/
def Found.Nests (levels : Nat) (x : Found) : Prop := ∀ d ∈ x.declarations.toList, d.height ≤ levels

/-- A reader finds declarations that nest at most `levels` deep. -/
def Reader.Nests (levels : Nat) (r : Reader) : Prop :=
  ∀ scope braced owner ts, (r.read scope braced owner ts).found.Nests levels

namespace Found

variable {levels : Nat} {x y : Found}

theorem nests_empty : Nests levels {} := by simp [Nests]

theorem Nests.append (hx : x.Nests levels) (hy : y.Nests levels) : (x.append y).Nests levels := by
  intro d hd
  rw [Found.append, Array.toList_append, List.mem_append] at hd
  exact hd.elim (hx d) (hy d)

theorem Nests.report (hx : x.Nests levels) (d : Diagnostic) : (x.report d).Nests levels := hx

/-- A declaration is one higher than the highest one inside it. -/
theorem Nests.wrap (hx : x.Nests levels) (kind : DeclarationKind) (name : String) (mods : List Keyword) (span : Span) :
    (x.wrap kind name mods span).Nests (levels + 1) := by
  intro d hd
  obtain rfl : d = ⟨kind, name, mods, span, x.declarations.toList⟩ := by simpa [Found.wrap] using hd
  rw [Declaration.height, Declaration.heightAll_le_iff]
  exact fun e he => Nat.lt_succ_of_le (hx e he)

theorem nests_wrap_empty (kind : DeclarationKind) (name : String) (mods : List Keyword) (span : Span) :
    (Found.wrap {} kind name mods span).Nests levels := by
  intro d hd
  obtain rfl : d = ⟨kind, name, mods, span, []⟩ := by simpa [Found.wrap] using hd
  rw [Declaration.height, Declaration.heightAll]
  exact Nat.zero_le levels

end Found

namespace Reader

variable {levels : Nat} {scope : Scope} {owner name : String} {mods : List Keyword} {start stop : Span}
  {ts : List Token} {x : Found}

theorem nests_member {forced : Option DeclarationKind} (h : (member owner mods start forced ts).result = .ok x) :
    x.Nests levels := by
  obtain ⟨d, hd, he⟩ := Step.andThen_eq_ok h
  have he : member owner mods start forced ts = _ := he
  rw [he] at h
  cases h
  have hwords : Words (fun _ => True) ts := fun _ _ _ _ => trivial
  obtain ⟨-, -, hchildren, -⟩ := Member.of_read trivial trivial hwords hd
  intro e he
  obtain rfl : e = d := by simpa using he
  rw [Declaration.height_eq, hchildren, Declaration.heightAll]
  exact Nat.zero_le levels

theorem nests_inBraces {r : Reader} (hr : r.Nests levels)
    (h : (inBraces r scope owner ts).result = .ok (x, stop)) : x.Nests levels := by
  have hbody := hr scope true owner ts.tail
  unfold inBraces at h
  simp only at h
  split at h
  · cases h
    exact hbody
  · cases h
    exact hbody.report _

theorem nests_namespaceDeclaration (hlevels : ∀ l, levels = l + 1 → (ofLevels l).Nests l)
    (h : (namespaceDeclaration (below levels) scope start ts).result = .ok x) : x.Nests levels := by
  obtain ⟨name, -, he⟩ := Step.andThen_eq_ok h
  have he : namespaceDeclaration (below levels) scope start ts = _ := he
  rw [he] at h
  clear he
  split at h
  · cases h
  · cases levels with
    | zero => cases h
    | succ levels =>
      have hreader := hlevels levels rfl
      simp only [below] at h
      split at h
      · cases h
        exact (hreader .namespaceBody false name _).wrap _ _ _ _
      · split at h
        · obtain ⟨⟨found, stop⟩, hfound, he'⟩ := Step.andThen_eq_ok h
          rw [he'] at h
          cases h
          exact (nests_inBraces hreader hfound).wrap _ _ _ _
        · cases h

/-- What stands in the body of a type is one level less high than the type. -/
theorem nests_wrap_typeBody (hlevels : ∀ l, levels = l + 1 → (ofLevels l).Nests l) {kind : TypeKind}
    (h : (typeBody (below levels) kind name ts).result = .ok (x, stop)) (span : Span) :
    (x.wrap (.type kind) name mods span).Nests levels := by
  unfold typeBody at h
  split at h
  · obtain ⟨body, -, he⟩ := Step.andThen_eq_ok h
    rw [he] at h
    cases h
    exact Found.nests_wrap_empty _ _ _ _
  · cases levels with
    | zero => cases h
    | succ levels => exact (nests_inBraces (hlevels levels rfl) h).wrap _ _ _ _

theorem nests_typeDeclaration (hlevels : ∀ l, levels = l + 1 → (ofLevels l).Nests l) {kind : TypeKind}
    (h : (typeDeclaration (below levels) kind mods start ts).result = .ok x) : x.Nests levels := by
  obtain ⟨name, -, he⟩ := Step.andThen_eq_ok h
  have he : typeDeclaration (below levels) kind mods start ts = _ := he
  rw [he] at h
  obtain ⟨_, -, he'⟩ := Step.andThen_eq_ok h
  rw [he'] at h
  split at h
  · cases h
    exact Found.nests_wrap_empty _ _ _ _
  · split at h
    · obtain ⟨⟨found, stop⟩, hfound, he''⟩ := Step.andThen_eq_ok h
      rw [he''] at h
      cases h
      exact nests_wrap_typeBody hlevels hfound _
    · cases h

theorem nests_declaration (hlevels : ∀ l, levels = l + 1 → (ofLevels l).Nests l)
    (h : (declaration (below levels) scope owner mods start ts).result = .ok x) : x.Nests levels := by
  unfold declaration at h
  split at h
  · exact nests_typeDeclaration hlevels h
  · split at h
    · exact nests_typeDeclaration hlevels h
    · split at h
      · exact nests_namespaceDeclaration hlevels h
      · split at h
        · exact nests_member h
        · split at h
          · exact nests_member h
          · cases h

theorem nests_item (hlevels : ∀ l, levels = l + 1 → (ofLevels l).Nests l)
    (h : (item (below levels) scope owner ts).result = .ok x) : x.Nests levels := by
  unfold item at h
  split at h
  · obtain ⟨_, -, he⟩ := Step.andThen_eq_ok h
    rw [he] at h
    cases h
    exact Found.nests_empty
  · obtain ⟨_, -, he⟩ := Step.andThen_eq_ok h
    rw [he] at h
    split at h
    · cases h
      exact Found.nests_empty
    · exact nests_declaration hlevels h

theorem nests_readFrom (hlevels : ∀ l, levels = l + 1 → (ofLevels l).Nests l) {braced : Bool} {found : Found}
    (hfound : found.Nests levels) : (readFrom (below levels) scope braced owner found ts).found.Nests levels := by
  fun_induction readFrom (below levels) scope braced owner found ts with
  | case1 found ts => exact hfound
  | case2 found ts => exact hfound
  | case3 found ts _ _ _ ih => exact ih (hfound.report _)
  | case4 found ts _ _ s x hx ih => exact ih (hfound.append (nests_item hlevels hx))
  | case5 found ts _ _ s d _ ih => exact ih (hfound.report d)

/-- A reader finds declarations that nest no deeper than its levels. -/
theorem nests_ofLevels (levels : Nat) : (ofLevels levels).Nests levels := by
  induction levels with
  | zero =>
    intro scope braced owner ts
    rw [read_ofLevels]
    exact nests_readFrom (by simp) Found.nests_empty
  | succ levels ih =>
    intro scope braced owner ts
    have hlevels (l : Nat) (hl : levels + 1 = l + 1) : (ofLevels l).Nests l := Nat.succ.inj hl ▸ ih
    rw [read_ofLevels]
    exact nests_readFrom hlevels Found.nests_empty

end Reader

/-- The root counts as a level of its own. -/
theorem DeclarationTree.length_ancestors_le {ts : List Token} {t : DeclarationTree} (h : ofTokens ts = .ok t)
    (id : Nat) : (t.ancestors id).length ≤ maxNesting + 1 := by
  have hnests := Reader.nests_ofLevels maxNesting .text false "" ts
  unfold ofTokens readDeclarations at h
  simp only at h
  split at h
  · cases h
    refine Nat.le_trans (length_ancestors_le_height _ id) ?_
    rw [Declaration.height, Declaration.heightAll_le_iff]
    exact fun d hd => Nat.lt_succ_of_le (hnests d hd)
  · cases h

end TestScaffold
