import TestScaffold.Proofs.Reading.Braces
import TestScaffold.Proofs.Reading.Resuming

/-!
# Forms of namespaces

A namespace may be written with its body in braces, or at the top of a text with a semicolon in place of the braces, and
a dotted name may be split up into namespaces inside one another. As long as the body is balanced, the braces end where
the text would, so all of these forms hold the same body.

Results:
* `Reader.HoldsBody`: what a body holds, however it is ended and whatever it belongs to.
* `Reader.holdsBody_of_readFrom`: what is read without a fault is held.
* `Written.readDeclarations_file_iff`, `Written.readDeclarations_block_iff`: a text that is one namespace.
* `Written.exists_holdsBody_of_readDeclarations_nested`: a text that is a row of namespaces inside one another.
-/

namespace TestScaffold

open Token (front atEnd atMark atBodyEnd Inside Follows)
open Nesting (BracesBalance)

namespace Reader

/-! ## Ends of lists -/

section

variable {inner : Option Reader} {scope : Scope} {braced : Bool} {owner : String} {found : Found} {ts us : List Token}

theorem atBodyEnd_rest_readFrom (inner : Option Reader) (scope : Scope) (braced : Bool) (owner : String) (found : Found)
    (ts : List Token) : atBodyEnd (readFrom inner scope braced owner found ts).rest = true := by
  fun_induction readFrom inner scope braced owner found ts with
  | case1 found ts hend => simp [atBodyEnd, hend]
  | case2 found ts hend hb hbraced => simp [atBodyEnd, hb]
  | case3 found ts hend hb hbraced ih => exact ih
  | case4 found ts hend hb s x hs ih => exact ih
  | case5 found ts hend hb s d hs ih => exact ih

theorem readFrom_atBodyEnd (hus : atBodyEnd us = true) (hbraced : braced = false → atEnd us = true) :
    readFrom inner scope braced owner found us = ⟨found, us⟩ := by
  rw [readFrom]
  cases braced with
  | false => simp [hbraced]
  | true => by_cases hend : atEnd us = true <;> simp_all [atBodyEnd]

theorem follows_of_atBodyEnd (hus : atBodyEnd us = true) : Follows us := by
  rcases Bool.or_eq_true _ _ ▸ hus with hus | hus
  · have hkind : (front us).kind = .endOfText := eq_of_beq hus
    simp [Follows, atMark, hkind]
  · simp [Follows, atMark, Token.kind_of_atMark hus]

/-- Where a list is read without a fault, so is the first item in it. -/
theorem exists_item_of_readFrom (hb : ¬ atBodyEnd ts = true)
    (hx : (readFrom inner scope braced owner found ts).found.problems = #[]) :
    ∃ x, (item inner scope owner ts).result = .ok x ∧ x.problems = #[] := by
  cases hs : (item inner scope owner ts).result with
  | error d => exact absurd (Array.toList_eq_nil_iff.mpr hx) (problems_ne_nil_of_item_error hb hs)
  | ok x =>
    rw [readFrom_of_ok hb hs] at hx
    exact ⟨x, rfl, (problems_append_eq_empty (problems_eq_empty_of_readFrom hx)).2⟩

/-! ## Owners -/

/-- Outside of types nothing is read as a constructor, so it makes no difference what a declaration belongs to. -/
theorem item_owner (hs : scope ≠ .typeBody) (owner owner' : String) (ts : List Token) :
    item inner scope owner ts = item inner scope owner' ts := by
  simp [item, declaration, member, Member.read, hs]

theorem readFrom_owner (hs : scope ≠ .typeBody) (owner owner' : String) :
    readFrom inner scope braced owner found ts = readFrom inner scope braced owner' found ts := by
  fun_induction readFrom inner scope braced owner found ts with
  | case1 found ts hend => rw [readFrom, if_pos hend]
  | case2 found ts hend hb hbraced => rw [readFrom, if_neg hend, if_pos hb, if_pos hbraced]
  | case3 found ts hend hb hbraced ih =>
    rw [ih]
    symm
    rw [readFrom, if_neg hend, if_pos hb, if_neg hbraced]
  | case4 found ts hend hb s x hx ih =>
    have hbody : ¬ atBodyEnd ts = true := by simp [atBodyEnd, hend, hb]
    have hitem : s = item inner scope owner' ts := item_owner hs owner owner' ts
    rw [ih, readFrom_of_ok hbody (hitem ▸ hx), hitem]
  | case5 found ts hend hb s d hx ih =>
    have hbody : ¬ atBodyEnd ts = true := by simp [atBodyEnd, hend, hb]
    have hitem : s = item inner scope owner' ts := item_owner hs owner owner' ts
    rw [ih, readFrom_of_error hbody (hitem ▸ hx), hitem]

end

/-! ## Bodies that are held -/

/-- Balanced tokens go on up to a token that ends a list, if some end there. -/
theorem eq_nil_of_balance {us more rest : List Token} (hus : BracesBalance (us.map Token.kind))
    (hall : BracesBalance ((us ++ more).map Token.kind)) (hinside : Inside (us ++ more))
    (hend : atBodyEnd (more ++ rest) = true) : more = [] := by
  cases more with
  | nil => rfl
  | cons t more =>
    rcases Bool.or_eq_true _ _ ▸ hend with hend | hend
    · exact absurd (eq_of_beq hend) (hinside t (by simp))
    · have ht : t.kind = .punctuation .rightBrace := Token.kind_of_atMark hend
      have hle := hall.closed_le (us.map Token.kind ++ [t.kind]) (by simp)
      have heq := hus.closed_eq
      rw [List.count_append, List.count_append, ht] at hle
      simp at hle
      omega

/-- The body of a namespace holds `found` in the tokens `ts`, without a fault and with bodies that nest at most `levels`
deep: however the body is ended, and whatever it belongs to. -/
structure HoldsBody (levels : Nat) (ts : List Token) (found : Found) : Prop where
  problems_eq : found.problems = #[]
  read : ∀ m, levels ≤ m → ∀ braced owner us, atBodyEnd us = true → (braced = false → atEnd us = true) →
    readFrom (below m) .namespaceBody braced owner {} (ts ++ us) = ⟨found, us⟩

namespace HoldsBody

variable {levels m : Nat} {ts : List Token} {found found' : Found}

theorem mono (h : HoldsBody levels ts found) (hm : levels ≤ m) : HoldsBody m ts found where
  problems_eq := h.problems_eq
  read l hl := h.read l (Nat.le_trans hm hl)

theorem unique (h : HoldsBody levels ts found) (h' : HoldsBody levels ts found') : found = found' := by
  have hread := h.read levels (Nat.le_refl levels) false "" [] rfl fun _ => rfl
  rw [h'.read levels (Nat.le_refl levels) false "" [] rfl fun _ => rfl] at hread
  exact (congrArg Body.found hread).symm

end HoldsBody

/-- Balanced tokens that are read without a fault as the body of a namespace hold what has been found, and are left
behind. -/
theorem holdsBody_of_readFrom {levels : Nat} (hn : levels ≤ maxNesting) {braced : Bool} {owner : String}
    {ts us : List Token} (hts : Inside ts) (hbalance : BracesBalance (ts.map Token.kind)) (hus : atBodyEnd us = true)
    (hx : (readFrom (below levels) .namespaceBody braced owner {} (ts ++ us)).found.problems = #[]) :
    HoldsBody levels ts (readFrom (below levels) .namespaceBody braced owner {} (ts ++ us)).found := by
  have hlays (l : Nat) (hl : l < levels) : LaysOut l := laysOut_ofLevels l (Nat.le_trans (Nat.le_of_lt hl) hn)
  have hkeeps : ∀ reader ∈ below levels, reader.KeepsDepth := by
    cases levels with
    | zero => simp [below]
    | succ levels => simpa [below] using keepsDepth_ofLevels levels
  obtain ⟨used, hused, hresumes⟩ := readFrom_resumes hn hlays hx (by simp)
  obtain ⟨taken, ds, htaken⟩ := takesFrom_readFrom hn hlays hx
  obtain ⟨passed, hpassed, hdepth⟩ := sameDepth_readFrom hkeeps hx
  obtain rfl : taken = used := List.append_cancel_right (htaken.eq_append.symm.trans hused)
  obtain rfl : passed = taken := List.append_cancel_right (hpassed.symm.trans hused)
  have hend := atBodyEnd_rest_readFrom (below levels) .namespaceBody braced owner {} (ts ++ us)
  have hinside := htaken.inside
  generalize readFrom (below levels) .namespaceBody braced owner {} (ts ++ us) = b at *
  obtain rfl : passed = ts := by
    rcases List.append_eq_append_iff.mp hused with ⟨more, rfl, rfl⟩ | ⟨more, rfl, hrest⟩
    · rw [eq_nil_of_balance hbalance hdepth hinside hus, List.append_nil]
    · rw [hrest] at hend
      rw [eq_nil_of_balance hdepth hbalance hts hend, List.append_nil]
  refine ⟨hx, fun m hm bracedThen other vs hvs hbraced => ?_⟩
  rw [readFrom_owner (by decide) other owner, hresumes vs (follows_of_atBodyEnd hvs) (.inl hvs) m hm,
    readFrom_atBodyEnd hvs hbraced]

end Reader

open Reader (HoldsBody below readFrom item namespaceEnd)

/-! ## Written forms -/

namespace Written

/-- A dotted name made of the words `k :: ks`. -/
def nameKinds (k : TokenKind) (ks : List TokenKind) : List TokenKind :=
  k :: ks.flatMap fun k => [.punctuation .dot, k]

/-- A namespace that goes on to the end of the text. -/
def fileTokens (k : TokenKind) (ks body : List TokenKind) : List TokenKind :=
  .keyword .namespaceKw :: (nameKinds k ks ++ .punctuation .semicolon :: body)

/-- A namespace with its body in braces. -/
def blockTokens (k : TokenKind) (ks body : List TokenKind) : List TokenKind :=
  .keyword .namespaceKw :: (nameKinds k ks ++ inBraces body)

/-- Namespaces inside one another, each named by a single word. -/
def nestedTokens : (names : List TokenKind) → (body : List TokenKind) → List TokenKind
  | [], body => body
  | k :: ks, body => blockTokens k [] (nestedTokens ks body)

section

variable {k : TokenKind} {ks : List TokenKind} {name : String} {more : List String}

/-- A namespace is read up to its name, and then by what follows that. -/
theorem item_namespace (inner : Option Reader) {scope : Scope} (hs : scope ≠ .typeBody) (owner : String)
    (hk : k.name? = some name) (hks : ks.map TokenKind.name? = more.map some) {rest : List Token}
    (hr : atMark .dot rest = false) :
    item inner scope owner (⟨.keyword .namespaceKw, .zero⟩ :: (bare (nameKinds k ks) ++ rest)) =
      namespaceEnd inner scope (".".intercalate (name :: more)) .zero rest := by
  have hname : Reader.qualifiedName (bare (nameKinds k ks) ++ rest) =
      .done (".".intercalate (name :: more)) rest := by
    unfold Reader.qualifiedName Step.name
    simp only [nameKinds, bare_cons, List.cons_append, front, hk]
    exact dottedName_names name hks hr
  rw [item_namespaceKw inner hs, Reader.namespaceDeclaration_eq, List.tail_cons, hname]
  rfl

theorem inside_bare {ks : List TokenKind} (h : .endOfText ∉ ks) : Inside (bare ks) := by
  intro t ht hkind
  obtain ⟨k, hk, rfl⟩ := List.mem_map.mp ht
  exact h (hkind ▸ hk)

theorem span_of_mem_bare {t : Token} {ks : List TokenKind} (h : t ∈ bare ks) : t.span = .zero := by
  obtain ⟨k, -, rfl⟩ := List.mem_map.mp h
  rfl

/-- A namespace with its body in braces holds what the body holds. -/
theorem item_block {levels : Nat} {scope : Scope} (hs : scope ≠ .typeBody) (owner : String) (hk : k.name? = some name)
    (hks : ks.map TokenKind.name? = more.map some) {body : List TokenKind} {found : Found}
    (h : HoldsBody levels (bare body) found) {rest : List Token} (hr : Follows rest) :
    item (below (levels + 1)) scope owner (bare (blockTokens k ks body) ++ rest) =
      .done (found.wrap .namespaceBlock (".".intercalate (name :: more)) [] .zero) rest := by
  have hread := h.read levels (Nat.le_refl levels) true (".".intercalate (name :: more))
    (⟨.punctuation .rightBrace, .zero⟩ :: rest) rfl (by simp)
  have hsemi : atMark .semicolon (bare (inBraces body) ++ rest) = false := rfl
  have hbrace : atMark .leftBrace (bare (inBraces body) ++ rest) = true := rfl
  rw [blockTokens, bare_cons, bare_append, List.cons_append, List.append_assoc, item_namespace _ hs owner hk hks rfl]
  simp only [namespaceEnd, below, hsemi, hbrace, inBraces_of_readFrom hread, Step.andThen, Step.done, Token.skipMark,
    hr.1, merge_zero, Bool.false_and, Bool.false_eq_true, if_false, if_true]

/-- A namespace that goes on to the end of the text holds what its body holds. -/
theorem item_file {levels : Nat} (hk : k.name? = some name) (hks : ks.map TokenKind.name? = more.map some)
    {body : List TokenKind} {found : Found} (h : HoldsBody levels (bare body) found) :
    item (below (levels + 1)) .text "" (bare (fileTokens k ks body) ++ bare [.endOfText]) =
      .done (found.wrap .namespaceBlock (".".intercalate (name :: more)) [] .zero) (bare [.endOfText]) := by
  have hread := h.read levels (Nat.le_refl levels) false (".".intercalate (name :: more)) (bare [.endOfText]) rfl
    fun _ => rfl
  rw [← Reader.read_ofLevels] at hread
  have hlast : (Reader.lastToken (bare (.punctuation .semicolon :: (body ++ [.endOfText])))).span = .zero :=
    span_of_mem_bare (Reader.lastToken_mem Bool.false_ne_true)
  have hsplit : bare (fileTokens k ks body) ++ bare [.endOfText] = ⟨.keyword .namespaceKw, .zero⟩ ::
      (bare (nameKinds k ks) ++ bare (.punctuation .semicolon :: (body ++ [.endOfText]))) := by simp [fileTokens]
  have hread : (Reader.ofLevels levels).read .namespaceBody false (".".intercalate (name :: more))
      (bare (.punctuation .semicolon :: (body ++ [.endOfText]))).tail = ⟨found, bare [.endOfText]⟩ := by
    rw [bare_cons, List.tail_cons, bare_append]
    exact hread
  have hsemi : atMark .semicolon (bare (.punctuation .semicolon :: (body ++ [.endOfText]))) = true := rfl
  rw [hsplit, item_namespace _ (by simp) "" hk hks rfl]
  simp only [namespaceEnd, below, hsemi, hread, hlast, bne_self_eq_false, Bool.and_false, Bool.false_eq_true, if_false,
    if_true, merge_zero]

variable {x : Found} {body : List TokenKind}

/-- A namespace with a balanced body in braces is read without a fault only if its body holds something. -/
theorem exists_holdsBody_of_block {m : Nat} (hn : m ≤ maxNesting) {scope : Scope} (hs : scope ≠ .typeBody)
    (owner : String) (hk : k.name? = some name) (hks : ks.map TokenKind.name? = more.map some)
    (hinside : .endOfText ∉ body) (hbalance : BracesBalance body) {rest : List Token}
    (h : (item (below m) scope owner (bare (blockTokens k ks body) ++ rest)).result = .ok x) (hx : x.problems = #[]) :
    ∃ levels found, m = levels + 1 ∧ HoldsBody levels (bare body) found := by
  have hsemi : atMark .semicolon (bare (inBraces body) ++ rest) = false := rfl
  have hbrace : atMark .leftBrace (bare (inBraces body) ++ rest) = true := rfl
  have htail : (bare (inBraces body) ++ rest).tail = bare body ++ ⟨.punctuation .rightBrace, .zero⟩ :: rest := by
    simp [inBraces]
  rw [blockTokens, bare_cons, bare_append, List.cons_append, List.append_assoc, item_namespace _ hs owner hk hks rfl]
    at h
  cases m with
  | zero => simp [namespaceEnd, below, hsemi, Step.fail] at h
  | succ levels =>
    simp only [namespaceEnd, below, hsemi, hbrace, Bool.false_and, Bool.false_eq_true, if_false, if_true] at h
    obtain ⟨⟨found, stop⟩, hbody, he⟩ := Step.andThen_eq_ok h
    rw [he] at h
    obtain rfl := Except.ok.inj h
    have hx : found.problems = #[] := hx
    unfold Reader.inBraces at hbody
    rw [htail, Reader.read_ofLevels] at hbody
    simp only at hbody
    split at hbody
    · cases hbody
      have hn : levels ≤ maxNesting := Nat.le_of_succ_le hn
      exact ⟨levels, _, rfl, Reader.holdsBody_of_readFrom hn (inside_bare hinside) (by rwa [map_kind_bare]) rfl hx⟩
    · cases hbody
      simp [Found.report, Found.wrap] at hx

/-- A namespace that goes on to the end of the text is read without a fault only if its body, being balanced, holds
something. -/
theorem exists_holdsBody_of_file {levels : Nat} (hn : levels ≤ maxNesting) (hk : k.name? = some name)
    (hks : ks.map TokenKind.name? = more.map some) (hinside : .endOfText ∉ body) (hbalance : BracesBalance body)
    (h : (item (below (levels + 1)) .text "" (bare (fileTokens k ks body) ++ bare [.endOfText])).result = .ok x)
    (hx : x.problems = #[]) : ∃ found, HoldsBody levels (bare body) found := by
  have hsplit : bare (fileTokens k ks body) ++ bare [.endOfText] = ⟨.keyword .namespaceKw, .zero⟩ ::
      (bare (nameKinds k ks) ++ bare (.punctuation .semicolon :: (body ++ [.endOfText]))) := by simp [fileTokens]
  have hsemi : atMark .semicolon (bare (.punctuation .semicolon :: (body ++ [.endOfText]))) = true := rfl
  rw [hsplit, item_namespace _ (by simp) "" hk hks rfl] at h
  simp only [namespaceEnd, below, hsemi, bne_self_eq_false, Bool.and_false, Bool.false_eq_true, if_false, if_true] at h
  obtain rfl := Except.ok.inj h
  rw [Reader.read_ofLevels, bare_cons, List.tail_cons, bare_append] at hx
  exact ⟨_, Reader.holdsBody_of_readFrom hn (inside_bare hinside) (by rwa [map_kind_bare]) rfl hx⟩

end

/-! ## Texts -/

/-- A text whose one namespace declares `ds`. -/
def namespaceText (name : String) (ds : List Declaration) : Declaration :=
  ⟨.unit, "", [], .zero, [⟨.namespaceBlock, name, [], .zero, ds⟩]⟩

/-- A text that is one item is accepted where that item holds no fault. -/
theorem readDeclarations_of_item {ts us : List Token} {x : Found} (hb : ¬ atBodyEnd ts = true)
    (h : item (below maxNesting) .text "" ts = .done x us) (hus : atEnd us = true) (hx : x.problems = #[]) :
    readDeclarations ts = .ok ⟨.unit, "", [], Span.zero.merge (front us).span, x.declarations.toList⟩ := by
  have hbody : atBodyEnd us = true := by rw [atBodyEnd, hus, Bool.true_or]
  have hread : readFrom (below maxNesting) .text false "" {} ts = ⟨x, us⟩ := by
    rw [readFrom_of_item hb h, Reader.readFrom_atBodyEnd hbody fun _ => hus]
    simp [Found.append]
  rw [readDeclarations_eq_ok_iff, hread]
  exact ⟨hx, rfl⟩

/-- A text that is one namespace is accepted exactly where the body of the namespace holds something. -/
theorem readDeclarations_eq_ok_iff_holdsBody {ks body : List TokenKind} {name : String} {d : Declaration}
    (hb : ¬ atBodyEnd (bare ks ++ bare [.endOfText]) = true)
    (hitem : ∀ found, HoldsBody (maxNesting - 1) (bare body) found →
      item (below maxNesting) .text "" (bare ks ++ bare [.endOfText]) =
        .done (found.wrap .namespaceBlock name [] .zero) (bare [.endOfText]))
    (hholds : ∀ x, (item (below maxNesting) .text "" (bare ks ++ bare [.endOfText])).result = .ok x →
      x.problems = #[] → ∃ found, HoldsBody (maxNesting - 1) (bare body) found) :
    readDeclarations (bare (ks ++ [.endOfText])) = .ok d ↔
      ∃ found, HoldsBody (maxNesting - 1) (bare body) found ∧ d = namespaceText name found.declarations.toList := by
  have hread {found : Found} (h : HoldsBody (maxNesting - 1) (bare body) found) :
      readDeclarations (bare (ks ++ [.endOfText])) = .ok (namespaceText name found.declarations.toList) := by
    rw [bare_append, readDeclarations_of_item hb (hitem found h) rfl h.problems_eq]
    rfl
  constructor
  · intro h
    have hx := (readDeclarations_eq_ok_iff.mp h).1
    rw [bare_append] at hx
    obtain ⟨x, hok, hproblems⟩ := Reader.exists_item_of_readFrom hb hx
    obtain ⟨found, hfound⟩ := hholds x hok hproblems
    exact ⟨found, hfound, Except.ok.inj (h.symm.trans (hread hfound))⟩
  · rintro ⟨found, hfound, rfl⟩
    exact hread hfound

section

variable {k : TokenKind} {ks body : List TokenKind} {name : String} {more : List String} {d : Declaration}

/-- A text that is a namespace without braces. -/
theorem readDeclarations_file_iff (hk : k.name? = some name) (hks : ks.map TokenKind.name? = more.map some)
    (hinside : .endOfText ∉ body) (hbalance : BracesBalance body) :
    readDeclarations (bare (fileTokens k ks body ++ [.endOfText])) = .ok d ↔
      ∃ found, HoldsBody (maxNesting - 1) (bare body) found ∧
        d = namespaceText (".".intercalate (name :: more)) found.declarations.toList :=
  readDeclarations_eq_ok_iff_holdsBody Bool.false_ne_true (fun _ h => item_file hk hks h)
    fun _ h hx => exists_holdsBody_of_file (by decide) hk hks hinside hbalance h hx

/-- A text that is a namespace with its body in braces. -/
theorem readDeclarations_block_iff (hk : k.name? = some name) (hks : ks.map TokenKind.name? = more.map some)
    (hinside : .endOfText ∉ body) (hbalance : BracesBalance body) :
    readDeclarations (bare (blockTokens k ks body ++ [.endOfText])) = .ok d ↔
      ∃ found, HoldsBody (maxNesting - 1) (bare body) found ∧
        d = namespaceText (".".intercalate (name :: more)) found.declarations.toList := by
  have hscope : Scope.text ≠ .typeBody := by simp
  refine readDeclarations_eq_ok_iff_holdsBody Bool.false_ne_true
    (fun _ h => item_block hscope "" hk hks h ⟨rfl, rfl⟩) fun _ h hx => ?_
  obtain ⟨levels, found, hlevels, hfound⟩ :=
    exists_holdsBody_of_block (Nat.le_refl maxNesting) hscope "" hk hks hinside hbalance h hx
  obtain rfl : maxNesting - 1 = levels := Nat.succ.inj hlevels
  exact ⟨found, hfound⟩

/-! ## Namespaces inside one another -/

/-- The declarations `ds` inside namespaces with the given names, outermost first. -/
def nestedDeclarations : (names : List String) → (ds : List Declaration) → List Declaration
  | [], ds => ds
  | name :: names, ds => [⟨.namespaceBlock, name, [], .zero, nestedDeclarations names ds⟩]

theorem ne_of_name? {q : TokenKind} (hq : q.name?.isSome = true) :
    q ≠ .endOfText ∧ Nesting.isBraceless q = true := by
  cases q with
  | endOfText => cases hq
  | punctuation p => cases hq
  | _ => exact ⟨by simp, rfl⟩

theorem not_mem_nestedTokens {names : List TokenKind} (hnames : ∀ q ∈ names, q.name?.isSome = true)
    (hinside : .endOfText ∉ body) : .endOfText ∉ nestedTokens names body := by
  induction names with
  | nil => exact hinside
  | cons k ks ih =>
    have hk := (ne_of_name? (hnames k List.mem_cons_self)).1
    have hmore := ih fun q hq => hnames q (List.mem_cons_of_mem k hq)
    simp [nestedTokens, blockTokens, nameKinds, inBraces, hk.symm, hmore]

theorem bracesBalance_nestedTokens {names : List TokenKind} (hnames : ∀ q ∈ names, q.name?.isSome = true)
    (hbalance : BracesBalance body) : BracesBalance (nestedTokens names body) := by
  induction names with
  | nil => exact hbalance
  | cons k ks ih =>
    have hk := Nesting.bracesBalance_singleton (ne_of_name? (hnames k List.mem_cons_self)).2
    have hmore := ih fun q hq => hnames q (List.mem_cons_of_mem k hq)
    have hkeyword : BracesBalance [.keyword .namespaceKw] := Nesting.bracesBalance_singleton rfl
    exact hkeyword.append (hk.append hmore.inBraces)

theorem forall_isSome {names : List TokenKind} {words : List String} (h : names.map TokenKind.name? = words.map some) :
    ∀ q ∈ names, q.name?.isSome = true := by
  intro q hq
  obtain ⟨word, -, hword⟩ := List.mem_map.mp (h ▸ List.mem_map_of_mem (f := TokenKind.name?) hq)
  rw [← hword]
  rfl

theorem exists_words {names : List TokenKind} (h : ∀ q ∈ names, q.name?.isSome = true) :
    ∃ words : List String, names.map TokenKind.name? = words.map some := by
  induction names with
  | nil => exact ⟨[], rfl⟩
  | cons k ks ih =>
    obtain ⟨word, hk⟩ := Option.isSome_iff_exists.mp (h k List.mem_cons_self)
    obtain ⟨words, hks⟩ := ih fun q hq => h q (List.mem_cons_of_mem k hq)
    exact ⟨word :: words, by rw [List.map_cons, List.map_cons, hk, hks]⟩

/-- What namespaces inside one another hold is held by the body of the innermost one. -/
theorem exists_holdsBody_of_nested {names : List TokenKind} {words : List String}
    (hnames : names.map TokenKind.name? = words.map some) (hinside : .endOfText ∉ body) (hbalance : BracesBalance body)
    {levels : Nat} (hn : levels ≤ maxNesting) {found : Found}
    (h : HoldsBody levels (bare (nestedTokens names body)) found) :
    ∃ inner, HoldsBody levels (bare body) inner ∧
      found.declarations.toList = nestedDeclarations words inner.declarations.toList := by
  induction names generalizing words levels found with
  | nil =>
    obtain rfl : words = [] := List.map_eq_nil_iff.mp hnames.symm
    exact ⟨found, h, rfl⟩
  | cons k ks ih =>
    have hmore : ∀ q ∈ ks, q.name?.isSome = true := fun q hq => forall_isSome hnames q (List.mem_cons_of_mem k hq)
    obtain ⟨word, words, rfl, hk, hks⟩ := List.map_eq_cons_iff.mp hnames.symm
    have hnone : ([] : List TokenKind).map TokenKind.name? = ([] : List String).map some := rfl
    have hscope : Scope.namespaceBody ≠ .typeBody := by simp
    have hread := h.read levels (Nat.le_refl levels) false "" (bare [.endOfText]) rfl fun _ => rfl
    have hbegin : ¬ atBodyEnd (bare (nestedTokens (k :: ks) body) ++ bare [.endOfText]) = true := Bool.false_ne_true
    -- The outermost namespace takes one level, and nothing stands behind it.
    obtain ⟨x, hx, hproblems⟩ := Reader.exists_item_of_readFrom hbegin (by rw [hread]; exact h.problems_eq)
    obtain ⟨l, outer, rfl, houter⟩ := exists_holdsBody_of_block hn hscope "" hk.symm hnone
      (not_mem_nestedTokens hmore hinside) (bracesBalance_nestedTokens hmore hbalance) hx hproblems
    rw [readFrom_of_item hbegin (item_block hscope "" hk.symm hnone houter ⟨rfl, rfl⟩),
      Reader.readFrom_atBodyEnd rfl fun _ => rfl] at hread
    obtain rfl := congrArg Body.found hread
    obtain ⟨inner, hinner, hdeclarations⟩ := ih hks.symm (Nat.le_of_succ_le hn) houter
    refine ⟨inner, hinner.mono (Nat.le_succ l), ?_⟩
    simp [Found.append, Found.wrap, nestedDeclarations, hdeclarations]

/-- A text that is a row of namespaces inside one another, each named by a single word. -/
theorem exists_holdsBody_of_readDeclarations_nested {words : List String} (hk : k.name? = some name)
    (hks : ks.map TokenKind.name? = words.map some) (hinside : .endOfText ∉ body) (hbalance : BracesBalance body)
    (h : readDeclarations (bare (nestedTokens (k :: ks) body ++ [.endOfText])) = .ok d) :
    ∃ found, HoldsBody (maxNesting - 1) (bare body) found ∧
      d = ⟨.unit, "", [], .zero, nestedDeclarations (name :: words) found.declarations.toList⟩ := by
  have hnone : ([] : List TokenKind).map TokenKind.name? = ([] : List String).map some := rfl
  have hnames := forall_isSome hks
  obtain ⟨outer, houter, rfl⟩ := (readDeclarations_block_iff hk hnone (not_mem_nestedTokens hnames hinside)
    (bracesBalance_nestedTokens hnames hbalance)).mp h
  obtain ⟨inner, hinner, hdeclarations⟩ := exists_holdsBody_of_nested hks hinside hbalance (by decide) houter
  refine ⟨inner, hinner, ?_⟩
  rw [namespaceText, hdeclarations]
  rfl

end

end Written

end TestScaffold
