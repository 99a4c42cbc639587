import TestScaffold.Proofs.Reading.Forms

/-!
# Where declarations and their names stand

Each item of an accepted list takes its own stretch of the tokens: what stands in front of its heading, its name, then
its body, and then whatever is behind it. The words that its name is made of stand in front of all other names, and no
name of another declaration stands in front of its heading.

Results:
* `Reader.Site`, `Reader.sites`, `Reader.nameSpots`: the items of a list, and where the names stand.
* `Reader.Items.accepted_induction`: lists that are read without a fault, by their items and the bodies in these.
* `Reader.Items.within_of_mem_sites`: all items stand in what reading takes.
* `Reader.Items.mem_spots_of_mem_sites`: a name that stands in an item outside of its body is the item's own.
-/

namespace TestScaffold

open Token (front atEnd atMark atBodyEnd)
open Nesting (skipToSemicolon)

namespace Reader

/-! ## Items of a list -/

/-- An item of a list: where it stands, its tokens with all that stand behind it, and what it leaves of them. -/
structure Site where
  scope : Scope
  tokens : List Token
  rest : List Token

namespace Site

/-- Whether the item is a directive. -/
def isDirective (s : Site) : Bool := s.scope != .typeBody && atDirective s.tokens

/-- What the item is read as behind its attributes and modifiers. Directives, and attributes at the end of a list, are
no declarations. -/
def form? (s : Site) : Option Form :=
  let rest := (skipAttributes s.tokens).rest
  if s.isDirective || atBodyEnd rest then none else some (form s.scope (modifiers rest).1 (modifiers rest).2)

/-- The tokens behind the words that only stand in front of a declaration or make a directive. -/
def heading (s : Site) : List Token :=
  if s.isDirective then s.tokens.tail.tail else (modifiers (skipAttributes s.tokens).rest).2

/-- Where the words stand that make up the name of the item. -/
def spots (s : Site) : List (List Token) := s.form?.elim [] Form.spots

/-- The list of declarations in the body of the item, if there is one. -/
def contents? (s : Site) : Option Items := s.form?.bind Form.contents?

variable {s : Site}

theorem heading_eq (hd : s.isDirective = false) : s.heading = (modifiers (skipAttributes s.tokens).rest).2 := by
  simp [heading, hd]

theorem heading_suffix (s : Site) : s.heading <:+ s.tokens := by
  unfold heading
  split
  · exact (List.tail_suffix _).trans (List.tail_suffix _)
  · exact (modifiers_suffix _).trans (rest_skipAttributes_suffix _)

theorem form?_eq (hd : s.isDirective = false) (hb : atBodyEnd (skipAttributes s.tokens).rest = false) :
    s.form? = some (form s.scope (modifiers (skipAttributes s.tokens).rest).1 s.heading) := by
  simp [form?, hd, hb, heading_eq hd]

theorem form?_eq_none (h : s.isDirective = true ∨ atBodyEnd (skipAttributes s.tokens).rest = true) :
    s.form? = none := by
  rcases h with h | h <;> simp [form?, h]

end Site

/-- The items of a list with those in their bodies, which `inside` tells. -/
def sitesFrom (inner : Option Reader) (inside : Items → List Site) (scope : Scope) (owner : String)
    (ts : List Token) : List Site :=
  if _hb : atBodyEnd ts then []
  else
    let s := item inner scope owner ts
    let site : Site := ⟨scope, ts, s.rest⟩
    match _h : s.result with
    | .ok _ => site :: (site.contents?.elim [] inside ++ sitesFrom inner inside scope owner s.rest)
    | .error _ => []
termination_by ts.length
decreasing_by exact length_rest_item_lt _hb _h

/-- The items of a list in which bodies nest at most `levels` deep, each in front of those in its body. -/
def sites : (levels : Nat) → Items → List Site
  | 0, c => sitesFrom none (fun _ => []) c.scope c.owner c.tokens
  | levels + 1, c => sitesFrom (some (ofLevels levels)) (sites levels) c.scope c.owner c.tokens

/-- The items in the body of an item. -/
def Site.inside (s : Site) : (levels : Nat) → List Site
  | 0 => []
  | levels + 1 => s.contents?.elim [] (sites levels)

/-- For each declaration of a list, in preorder, where the words stand that make up its name. -/
def nameSpots (levels : Nat) (c : Items) : List (List (List Token)) :=
  (sites levels c).filterMap fun s => s.form?.map Form.spots

namespace Items

variable {c : Items} {levels : Nat} {x : Found}

/-- The first item of a list. -/
def first (c : Items) (levels : Nat) : Site :=
  ⟨c.scope, c.tokens, (item (below levels) c.scope c.owner c.tokens).rest⟩

/-- A list begins with an item that is read without a fault. -/
structure Begins (c : Items) (levels : Nat) (x : Found) : Prop where
  not_atBodyEnd : ¬ atBodyEnd c.tokens = true
  result_eq : (item (below levels) c.scope c.owner c.tokens).result = .ok x
  problems_eq : x.problems = #[]

/-- What is read of a list is what its first item holds and what is read behind that. -/
theorem Begins.read_eq (h : c.Begins levels x) :
    c.read levels = ⟨x.append ((c.from (c.first levels).rest).read levels).found,
      ((c.from (c.first levels).rest).read levels).rest⟩ := by
  have happend := readFrom_append (below levels) c.scope c.braced c.owner x {} (c.first levels).rest
  rw [Found.append_empty] at happend
  rw [Items.read, readFrom_of_ok h.not_atBodyEnd h.result_eq]
  have hnone : ({} : Found).append x = x := by simp [Found.append]
  rw [hnone]
  exact happend

theorem Begins.sites_eq (h : c.Begins levels x) : sites levels c =
    c.first levels :: ((c.first levels).inside levels ++ sites levels (c.from (c.first levels).rest)) := by
  have hfrom {inside : Items → List Site} : sitesFrom (below levels) inside c.scope c.owner c.tokens =
      c.first levels :: ((c.first levels).contents?.elim [] inside ++
        sitesFrom (below levels) inside c.scope c.owner (c.first levels).rest) := by
    rw [sitesFrom, dif_neg h.not_atBodyEnd]
    dsimp only
    split
    · rfl
    · next d hd => rw [h.result_eq] at hd; cases hd
  cases levels with
  | zero =>
    refine hfrom.trans ?_
    cases (c.first 0).contents? <;> rfl
  | succ l => exact hfrom

theorem sites_eq_nil (levels : Nat) (h : atBodyEnd c.tokens = true) : sites levels c = [] := by
  cases levels <;> rw [sites, sitesFrom, dif_pos h]

/-- What the first item of a list is read as: a directive, attributes with nothing behind them, or a declaration. -/
inductive ReadsFirst (c : Items) (levels : Nat) : Found → Prop
  | directive {s : Span} (hd : (c.first levels).isDirective = true) (hs : (skipToSemicolon c.tokens).result = .ok s)
      (hrest : (c.first levels).rest = (skipToSemicolon c.tokens).rest) : ReadsFirst c levels {}
  | attributes (hd : (c.first levels).isDirective = false) (ha : (skipAttributes c.tokens).result = .ok ())
      (hb : atBodyEnd (skipAttributes c.tokens).rest = true)
      (hrest : (c.first levels).rest = (skipAttributes c.tokens).rest) : ReadsFirst c levels {}
  | declaration {x : Found} {f : Form} (hd : (c.first levels).isDirective = false)
      (ha : (skipAttributes c.tokens).result = .ok ()) (hb : atBodyEnd (skipAttributes c.tokens).rest = false)
      (hf : f = form c.scope (modifiers (skipAttributes c.tokens).rest).1 (c.first levels).heading)
      (hread : f.read (below levels) c.scope c.owner (modifiers (skipAttributes c.tokens).rest).1
        (front (skipAttributes c.tokens).rest).span = .done x (c.first levels).rest) : ReadsFirst c levels x

theorem Begins.readsFirst (h : c.Begins levels x) : c.ReadsFirst levels x := by
  have hresult := h.result_eq
  have hdone : item (below levels) c.scope c.owner c.tokens = .done x (c.first levels).rest := by
    rw [Step.done, ← hresult]
    rfl
  by_cases hd : (c.first levels).isDirective = true
  · have hd' : (c.scope != .typeBody && atDirective c.tokens) = true := hd
    rw [item, if_pos hd'] at hresult hdone
    obtain ⟨s, hs, he⟩ := Step.andThen_eq_ok hresult
    rw [he] at hresult hdone
    obtain rfl : {} = x := Except.ok.inj hresult
    exact .directive hd hs (congrArg Step.rest hdone).symm
  · have hd' : ¬ (c.scope != .typeBody && atDirective c.tokens) = true := hd
    have hd : (c.first levels).isDirective = false := by simpa using hd
    rw [item, if_neg hd'] at hresult hdone
    obtain ⟨_, ha, he⟩ := Step.andThen_eq_ok hresult
    rw [he] at hresult hdone
    cases hb : atBodyEnd (skipAttributes c.tokens).rest with
    | true =>
      rw [if_pos hb] at hresult hdone
      obtain rfl : {} = x := Except.ok.inj hresult
      exact .attributes hd ha hb (congrArg Step.rest hdone).symm
    | false =>
      have hb' : ¬ atBodyEnd (skipAttributes c.tokens).rest = true := by simp [hb]
      have hheading : (c.first levels).heading = (modifiers (skipAttributes c.tokens).rest).2 := Site.heading_eq hd
      rw [if_neg hb', declaration_eq_form, ← hheading] at hdone
      exact .declaration hd ha hb rfl hdone

/-- What stands in front of its heading belongs to the item. -/
theorem Begins.length_rest_le_heading (h : c.Begins levels x) :
    (c.first levels).rest.length ≤ (c.first levels).heading.length := by
  cases h.readsFirst with
  | directive hd hs hrest =>
    obtain ⟨used, hts, hlast, -⟩ := Nesting.spans_skipToSemicolon hs
    have hdirective : atDirective c.tokens = true := (Bool.and_eq_true _ _ ▸ hd : _ ∧ _).2
    rw [hts] at hdirective
    have htwo := two_le_of_atDirective hdirective hlast
    have hlength := congrArg List.length hts
    rw [List.length_append] at hlength
    rw [Site.heading, if_pos hd, hrest, List.length_tail, List.length_tail]
    exact (by omega : (skipToSemicolon c.tokens).rest.length ≤ c.tokens.length - 1 - 1)
  | attributes hd ha hb hrest =>
    have hnone : (modifiers (skipAttributes c.tokens).rest).2 = (skipAttributes c.tokens).rest := by
      have hkind : (front (skipAttributes c.tokens).rest).kind = .endOfText ∨
          (front (skipAttributes c.tokens).rest).kind = .punctuation .rightBrace := by
        simpa [atBodyEnd, atEnd, atMark] using hb
      rw [modifiers_eq_nil]
      · rcases hkind with hkind | hkind <;> simp [hkind]
      · rcases hkind with hkind | hkind <;> simp [hkind]
    rw [Site.heading_eq hd]
    exact (hrest.trans hnone.symm ▸ Nat.le_refl _)
  | declaration hd ha hb hf hread =>
    have hrest := rest_declaration_suffix (below levels) c.scope c.owner (modifiers (skipAttributes c.tokens).rest).1
      (front (skipAttributes c.tokens).rest).span (c.first levels).heading
    rw [declaration_eq_form, ← hf, hread, Step.rest_done] at hrest
    exact hrest.length_le

/-- A declaration takes at least one token behind that. -/
theorem Begins.length_rest_lt_heading (h : c.Begins levels x) (hf : (c.first levels).form? ≠ none) :
    (c.first levels).rest.length < (c.first levels).heading.length := by
  cases h.readsFirst with
  | directive hd => exact absurd (Site.form?_eq_none (.inl hd)) hf
  | attributes hd ha hb => exact absurd (Site.form?_eq_none (.inr hb)) hf
  | declaration hd ha hb hg hread =>
    rw [hg, ← declaration_eq_form] at hread
    have hrest := length_rest_declaration_lt (congrArg Step.result hread)
    rwa [hread] at hrest

/-- A declaration takes its name and its body behind its heading. -/
theorem Begins.takes (h : c.Begins levels x) {f : Form} (hf : (c.first levels).form? = some f) :
    f.Takes levels (c.first levels).rest ∧ f.tokens <:+ (c.first levels).heading := by
  cases h.readsFirst with
  | directive hd => rw [Site.form?_eq_none (.inl hd)] at hf; cases hf
  | attributes hd ha hb => rw [Site.form?_eq_none (.inr hb)] at hf; cases hf
  | declaration hd ha hb hg hread =>
    rw [Site.form?_eq hd hb] at hf
    obtain rfl : f = _ := (hg.trans (Option.some.inj hf)).symm
    have htakes := f.takes (congrArg Step.result hread) h.problems_eq
    rw [hread] at htakes
    refine ⟨htakes, ?_⟩
    rw [← Option.some.inj hf]
    exact form_tokens_suffix _ _ _

/-- A closing brace that belongs to nothing is reported. -/
theorem atEnd_of_atBodyEnd (h : (c.read levels).found.problems = #[]) (hb : atBodyEnd c.tokens = true)
    (hbraced : c.braced = false) : atEnd c.tokens = true := by
  refine Decidable.byContradiction fun hend => ?_
  have hmark : atMark .rightBrace c.tokens = true := by simpa [atBodyEnd, hend] using hb
  rw [Items.read, readFrom, if_neg hend, if_pos hmark, hbraced, if_neg Bool.false_ne_true] at h
  have hnone := problems_eq_empty_of_readFrom h
  simp [Found.report] at hnone

/-- What holds of lists that end holds of all lists that are read without a fault, if it goes over to a list from what
stands behind its first item and from the body of that item. -/
theorem accepted_induction {motive : Nat → Items → Prop}
    (stop : ∀ levels c, atBodyEnd c.tokens = true → (c.braced = false → atEnd c.tokens = true) → motive levels c)
    (step : ∀ levels c x, c.Begins levels x →
      ((c.from (c.first levels).rest).read levels).found.problems = #[] →
      motive levels (c.from (c.first levels).rest) →
      (∀ l d, levels = l + 1 → (c.first levels).contents? = some d → (d.read l).found.problems = #[] → motive l d) →
      motive levels c)
    {levels : Nat} {c : Items} (h : (c.read levels).found.problems = #[]) : motive levels c := by
  induction levels using Nat.strongRecOn generalizing c with
  | ind levels ihlevels =>
    induction hn : c.tokens.length using Nat.strongRecOn generalizing c with
    | ind n ih =>
      by_cases hb : atBodyEnd c.tokens = true
      · exact stop levels c hb (atEnd_of_atBodyEnd h hb)
      · obtain ⟨x, hx, hproblems⟩ := exists_item_of_readFrom hb h
        have hbegins : c.Begins levels x := ⟨hb, hx, hproblems⟩
        have hread := h
        rw [hbegins.read_eq] at hread
        have hmore := (problems_append_eq_empty hread).2
        refine step levels c x hbegins hmore (ih _ ?_ hmore rfl) fun l d hl _ hd => ihlevels l (by omega) hd
        rw [← hn]
        exact length_rest_item_lt hb hx

end Items

/-! ## Where the items of a list stand -/

/-- An item stands in the tokens `ts`, in front of the last `low` of them, and its name in it. -/
structure Site.Within (s : Site) (low : Nat) (ts : List Token) : Prop where
  low_le : low ≤ s.rest.length
  rest_le : s.rest.length ≤ s.heading.length
  suffix : s.tokens <:+ ts
  spot : ∀ us ∈ s.spots, s.rest.length < us.length ∧ us <:+ s.heading

theorem Site.Within.mono {s : Site} {low low' : Nat} {ts ts' : List Token} (h : s.Within low ts) (hlow : low' ≤ low)
    (hsuffix : ts <:+ ts') : s.Within low' ts' :=
  ⟨Nat.le_trans hlow h.low_le, h.rest_le, h.suffix.trans hsuffix, h.spot⟩

/-- So does its name. -/
theorem Site.Within.spot_suffix {s : Site} {low : Nat} {ts us : List Token} (h : s.Within low ts)
    (hus : us ∈ s.spots) : low < us.length ∧ us <:+ ts := by
  obtain ⟨hrest, hheading⟩ := h.spot us hus
  exact ⟨Nat.lt_of_le_of_lt h.low_le hrest, (hheading.trans s.heading_suffix).trans h.suffix⟩

namespace Items

variable {c d : Items} {levels l : Nat} {x : Found} {s : Site}

theorem Begins.within (h : c.Begins levels x) : (c.first levels).Within (c.first levels).rest.length c.tokens := by
  refine ⟨Nat.le_refl _, h.length_rest_le_heading, List.suffix_refl _, fun us hus => ?_⟩
  cases hf : (c.first levels).form? with
  | none => simp [Site.spots, hf] at hus
  | some f =>
    obtain ⟨htakes, htokens⟩ := h.takes hf
    have hus : us ∈ f.spots := by simpa [Site.spots, hf] using hus
    obtain ⟨hrest, hsuffix⟩ := htakes.spot us hus
    exact ⟨hrest, hsuffix.trans htokens⟩

theorem mem_inside (hs : s ∈ (c.first levels).inside levels) :
    ∃ l d, levels = l + 1 ∧ (c.first levels).contents? = some d ∧ s ∈ sites l d := by
  cases levels with
  | zero => cases hs
  | succ l =>
    rw [Site.inside] at hs
    cases hd : (c.first (l + 1)).contents? with
    | none => rw [hd] at hs; cases hs
    | some d => rw [hd] at hs; exact ⟨l, d, rfl, rfl, hs⟩

/-- The body of an item stands behind its name, and what the item leaves stands behind the body. -/
theorem Begins.body (h : c.Begins (l + 1) x) (hd : (c.first (l + 1)).contents? = some d) :
    (d.read l).found.problems = #[] ∧ (c.first (l + 1)).rest.length ≤ (d.read l).rest.length ∧
      d.tokens <:+ (c.first (l + 1)).heading ∧ d.tokens.length < (c.first (l + 1)).heading.length ∧
        ∀ us ∈ (c.first (l + 1)).spots, d.tokens.length < us.length := by
  obtain ⟨f, hf, hc⟩ := Option.bind_eq_some_iff.mp hd
  obtain ⟨htakes, htokens⟩ := h.takes hf
  obtain ⟨hsuffix, hspots, m, hm, hproblems, hrest⟩ := htakes.body d hc
  obtain rfl : l = m := Nat.succ.inj hm
  obtain ⟨us, hus⟩ := List.exists_mem_of_ne_nil _ (Form.spots_ne_nil hc)
  refine ⟨hproblems, hrest, hsuffix.trans htokens, ?_, by simpa [Site.spots, hf] using hspots⟩
  exact Nat.lt_of_lt_of_le (hspots us hus) ((htakes.spot us hus).2.trans htokens).length_le

/-- Each item is the first one of a list. -/
theorem exists_begins_of_mem_sites (h : (c.read levels).found.problems = #[]) :
    ∀ s ∈ sites levels c, ∃ l d x, Begins d l x ∧ s = d.first l := by
  refine accepted_induction (motive := fun levels c => ∀ s ∈ sites levels c, ∃ l d x, Begins d l x ∧ s = d.first l)
    ?_ ?_ h
  · intro levels c hb _ s hs
    rw [sites_eq_nil levels hb] at hs
    cases hs
  · intro levels c x hbegins _ ih ihbody s hs
    rw [hbegins.sites_eq, List.mem_cons, List.mem_append] at hs
    rcases hs with rfl | hs | hs
    · exact ⟨levels, c, x, hbegins, rfl⟩
    · obtain ⟨l, d, rfl, hd, hs⟩ := mem_inside hs
      obtain ⟨hproblems, -⟩ := hbegins.body hd
      exact ihbody l d rfl hd hproblems s hs
    · exact ih s hs

/-- All items stand in what reading takes. -/
theorem within_of_mem_sites (h : (c.read levels).found.problems = #[]) :
    ∀ s ∈ sites levels c, s.Within (c.read levels).rest.length c.tokens := by
  refine accepted_induction (motive := fun levels c =>
    ∀ s ∈ sites levels c, s.Within (c.read levels).rest.length c.tokens) ?_ ?_ h
  · intro levels c hb _ s hs
    rw [sites_eq_nil levels hb] at hs
    cases hs
  · intro levels c x hbegins hmore ih ihbody s hs
    have hitem : (c.first levels).rest <:+ c.tokens := rest_item_suffix _ _ _ _
    have hrest : ((c.from (c.first levels).rest).read levels).rest.length ≤ (c.first levels).rest.length :=
      (rest_readFrom_suffix _ _ _ _ _ _).length_le
    rw [hbegins.read_eq]
    rw [hbegins.sites_eq, List.mem_cons, List.mem_append] at hs
    rcases hs with rfl | hs | hs
    · exact hbegins.within.mono hrest (List.suffix_refl _)
    · obtain ⟨l, d, rfl, hd, hs⟩ := mem_inside hs
      obtain ⟨hproblems, hbody, hsuffix, -⟩ := hbegins.body hd
      exact (ihbody l d rfl hd hproblems s hs).mono (Nat.le_trans hrest hbody)
        (hsuffix.trans (c.first (l + 1)).heading_suffix)
    · exact (ih s hs).mono (Nat.le_refl _) hitem

/-- A name that stands in an item outside of its body is the name of that item. -/
theorem mem_spots_of_mem_sites (h : (c.read levels).found.problems = #[]) :
    ∀ s ∈ sites levels c, ∀ s' ∈ sites levels c, ∀ us ∈ s'.spots, s.rest.length < us.length →
      s.heading.length ≤ us.length → us.length ≤ s.tokens.length → us ∈ s.spots := by
  refine accepted_induction (motive := fun levels c => ∀ s ∈ sites levels c, ∀ s' ∈ sites levels c, ∀ us ∈ s'.spots,
    s.rest.length < us.length → s.heading.length ≤ us.length → us.length ≤ s.tokens.length → us ∈ s.spots) ?_ ?_ h
  · intro levels c hb _ s hs
    rw [sites_eq_nil levels hb] at hs
    cases hs
  · intro levels c x hbegins hmore ih ihbody s hs s' hs' us hus hrest hheading htokens
    -- What stands in the body of the first item stands behind its name, and in front of what stands behind the item.
    have hinside {t : Site} (ht : t ∈ (c.first levels).inside levels) : ∃ l d, levels = l + 1 ∧
        (c.first levels).contents? = some d ∧ t ∈ sites l d ∧ t.Within (c.first levels).rest.length d.tokens ∧
          d.tokens.length < (c.first levels).heading.length ∧
            ∀ us ∈ (c.first levels).spots, d.tokens.length < us.length := by
      obtain ⟨l, d, rfl, hd, ht⟩ := mem_inside ht
      obtain ⟨hproblems, hbody, -, hheading, hspots⟩ := hbegins.body hd
      exact ⟨l, d, rfl, hd, ht, (within_of_mem_sites hproblems t ht).mono hbody (List.suffix_refl _), hheading, hspots⟩
    have hbehind {t : Site} (ht : t ∈ sites levels (c.from (c.first levels).rest)) :
        t.Within 0 (c.first levels).rest :=
      (within_of_mem_sites hmore t ht).mono (Nat.zero_le _) (List.suffix_refl _)
    rw [hbegins.sites_eq, List.mem_cons, List.mem_append] at hs hs'
    rcases hs with rfl | hs | hs
    · rcases hs' with rfl | hs' | hs'
      · exact hus
      · obtain ⟨l, d, -, -, -, hwithin, hbody, -⟩ := hinside hs'
        have hle := (hwithin.spot_suffix hus).2.length_le
        omega
      · have hle := ((hbehind hs').spot_suffix hus).2.length_le
        omega
    · obtain ⟨l, d, rfl, hd, hs, hwithin, -, hspots⟩ := hinside hs
      rcases hs' with rfl | hs' | hs'
      · have hlt := hspots us hus
        have hle := hwithin.suffix.length_le
        omega
      · obtain ⟨m, e, hm, he, hs', -⟩ := hinside hs'
        obtain rfl : l = m := Nat.succ.inj hm
        obtain rfl : d = e := Option.some.inj (hd.symm.trans he)
        exact ihbody l d rfl hd (hbegins.body hd).1 s hs s' hs' us hus hrest hheading htokens
      · have hle := ((hbehind hs').spot_suffix hus).2.length_le
        have hlow := hwithin.low_le
        omega
    · have hle := (hbehind hs).suffix.length_le
      rcases hs' with rfl | hs' | hs'
      · have hlt := (hbegins.within.spot_suffix hus).1
        omega
      · obtain ⟨l, d, -, -, -, hwithin, -⟩ := hinside hs'
        have hlt := (hwithin.spot_suffix hus).1
        omega
      · exact ih s hs s' hs' us hus hrest hheading htokens

end Items

end Reader

end TestScaffold
