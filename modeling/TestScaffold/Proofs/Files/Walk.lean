import TestScaffold.Files.FileSystem

/-!
# Where paths lead

A walk along a path goes through directories and follows links. Making and writing files makes no directory or link
and takes none away, so a path leads to the same place before and after. A walk along a longer path is a walk along its
front, and goes on from there with the links that are left.

Results:
* `SameWays.locate_eq_ok`: paths lead to the same places as long as directories and links are the same.
* `exists_walk_of_append`: a walk goes on where the walk along the front has come to.
* `exists_directory_of_walk`: a path that ends in a name leads into one directory, whatever the name.
-/

namespace TestScaffold.FileSystem

variable {fs fs' fs'' : FileSystem} {making : Bool} {links : Nat} {place pieces q : List String}

theorem bind_ok_iff {ε α β : Type} (x : Except ε α) (f : α → Except ε β) (b : β) :
    (x >>= f) = .ok b ↔ ∃ a, x = .ok a ∧ f a = .ok b :=
  match x with
  | .error _ => ⟨(nomatch ·), fun ⟨_, h, _⟩ => nomatch h⟩
  | .ok a => ⟨fun h => ⟨a, rfl, h⟩, fun ⟨_, h, hf⟩ => Except.ok.inj h ▸ hf⟩

theorem toOption_eq_some_iff {ε α : Type} {x : Except ε α} {a : α} : x.toOption = some a ↔ x = .ok a := by
  cases x <;> simp [Except.toOption]

/-! ## One step -/

theorem checkDirectory_eq_ok : fs.checkDirectory place = .ok () ↔ fs.node? place = some .directory := by
  unfold checkDirectory
  split <;> simp_all

/-- Where a walk goes on from the place that a piece leads to: behind a link it goes on with `follow`. -/
def onward (fs : FileSystem) (making : Bool)
    (follow : (place pieces : List String) → Except FileError (List String)) (place next rest : List String) :
    Except FileError (List String) :=
  match fs.node? next with
  | some (.link target) => follow (if Path.isAbsolute target then [] else place) (Path.pieces target ++ rest)
  | _ => fs.walkWith making follow next rest

/-- A walk that gets along a piece does so from a directory. -/
theorem walkWith_cons_eq_ok {follow : (place pieces : List String) → Except FileError (List String)}
    {piece : String} {rest : List String} : fs.walkWith making follow place (piece :: rest) = .ok q ↔
      fs.node? place = some .directory ∧ (making && endsInDirectory piece rest) = false ∧
        ∃ next, step place piece = .ok next ∧ fs.onward making follow place next rest = .ok q := by
  rw [walkWith, bind_ok_iff]
  constructor
  · rintro ⟨⟨⟩, hcheck, h⟩
    refine ⟨checkDirectory_eq_ok.mp hcheck, ?_⟩
    cases hends : (making && endsInDirectory piece rest) with
    | true =>
      rw [hends] at h
      cases h
    | false =>
      rw [hends] at h
      exact ⟨rfl, (bind_ok_iff _ _ _).mp h⟩
  · rintro ⟨hdirectory, hends, h⟩
    refine ⟨(), checkDirectory_eq_ok.mpr hdirectory, ?_⟩
    rw [hends]
    exact (bind_ok_iff _ _ _).mpr h

/-- Making a file is refused in some places, but goes the same way. -/
theorem walkWith_of_making {follow follow' : (place pieces : List String) → Except FileError (List String)}
    (hf : ∀ place pieces q, follow place pieces = .ok q → follow' place pieces = .ok q)
    (hw : fs.walkWith making follow place pieces = .ok q) : fs.walkWith false follow' place pieces = .ok q := by
  induction pieces generalizing place with
  | nil => exact hw
  | cons piece rest ih =>
    obtain ⟨hdirectory, -, next, hnext, hon⟩ := walkWith_cons_eq_ok.mp hw
    refine walkWith_cons_eq_ok.mpr ⟨hdirectory, rfl, next, hnext, ?_⟩
    unfold onward at hon ⊢
    split at hon
    · exact hf _ _ _ hon
    · exact ih hon

theorem walk_of_making (hw : fs.walk making links place pieces = .ok q) : fs.walk false links place pieces = .ok q := by
  induction links generalizing place pieces q with
  | zero => exact walkWith_of_making (fun _ _ _ hnone => by cases hnone) hw
  | succ links ih => exact walkWith_of_making (fun _ _ _ hok => ih hok) hw

theorem locate_of_making {path : String} (hw : fs.locate making path = .ok q) : fs.locate false path = .ok q := by
  rw [locate, bind_ok_iff] at hw ⊢
  obtain ⟨p, hs, hw⟩ := hw
  exact ⟨p, hs, walk_of_making hw⟩

/-! ## The same ways -/

/-- Both file systems have the same directories and links, and the same working directory. -/
structure SameWays (fs fs' : FileSystem) : Prop where
  working : fs.working = fs'.working
  directories : ∀ names, fs.node? names = some .directory ↔ fs'.node? names = some .directory
  links : ∀ names target, fs.node? names = some (.link target) ↔ fs'.node? names = some (.link target)

namespace SameWays

theorem refl (fs : FileSystem) : SameWays fs fs := ⟨rfl, fun _ => .rfl, fun _ _ => .rfl⟩

theorem symm (h : SameWays fs fs') : SameWays fs' fs :=
  ⟨h.working.symm, fun names => (h.directories names).symm, fun names target => (h.links names target).symm⟩

theorem trans (h : SameWays fs fs') (k : SameWays fs' fs'') : SameWays fs fs'' :=
  ⟨h.working.trans k.working, fun names => (h.directories names).trans (k.directories names),
    fun names target => (h.links names target).trans (k.links names target)⟩

/-- A file where there is no directory and no link makes and takes no way. -/
theorem put {names : List String} {number : Nat} (hn : names ≠ []) (hnone : fs.node? names = none) :
    SameWays fs (fs.put names (.file number)) where
  working := rfl
  directories others := by
    rw [node?_put fs hn]
    split
    · rename_i he
      simp [he, hnone]
    · exact .rfl
  links others target := by
    rw [node?_put fs hn]
    split
    · rename_i he
      simp [he, hnone]
    · exact .rfl

theorem setFile (fs : FileSystem) (number : Nat) (f : File) : SameWays fs (fs.setFile number f) :=
  ⟨rfl, fun _ => by rw [node?_setFile], fun _ _ => by rw [node?_setFile]⟩

theorem walkWith_eq_ok (h : SameWays fs fs')
    {follow follow' : (place pieces : List String) → Except FileError (List String)}
    (hf : ∀ place pieces q, follow place pieces = .ok q → follow' place pieces = .ok q)
    (hw : fs.walkWith making follow place pieces = .ok q) : fs'.walkWith making follow' place pieces = .ok q := by
  induction pieces generalizing place with
  | nil => exact hw
  | cons piece rest ih =>
    obtain ⟨hdirectory, hends, next, hnext, hon⟩ := walkWith_cons_eq_ok.mp hw
    refine walkWith_cons_eq_ok.mpr ⟨(h.directories place).mp hdirectory, hends, next, hnext, ?_⟩
    unfold onward at hon ⊢
    split at hon
    · rename_i target hlink
      rw [(h.links next target).mp hlink]
      exact hf _ _ _ hon
    · rename_i hnode
      split
      · rename_i target hlink
        exact absurd ((h.links next target).mpr hlink) (hnode target)
      · exact ih hon

theorem walk_eq_ok (h : SameWays fs fs') (hw : fs.walk making links place pieces = .ok q) :
    fs'.walk making links place pieces = .ok q := by
  induction links generalizing place pieces q with
  | zero => exact h.walkWith_eq_ok (fun _ _ _ hnone => by cases hnone) hw
  | succ links ih => exact h.walkWith_eq_ok (fun _ _ _ hok => ih hok) hw

/-- Paths lead to the same places where directories and links are the same. -/
theorem locate_eq_ok (h : SameWays fs fs') {path : String} (hw : fs.locate making path = .ok q) :
    fs'.locate making path = .ok q := by
  rw [locate, bind_ok_iff] at hw ⊢
  obtain ⟨p, hs, hw⟩ := hw
  refine ⟨p, ?_, h.walk_eq_ok hw⟩
  unfold start at hs ⊢
  rw [← h.working]
  exact hs

theorem toOption_locate (h : SameWays fs fs') (making : Bool) (path : String) :
    (fs'.locate making path).toOption = (fs.locate making path).toOption :=
  Option.ext fun _ => by
    rw [toOption_eq_some_iff, toOption_eq_some_iff]
    exact ⟨h.symm.locate_eq_ok, h.locate_eq_ok⟩

end SameWays

/-! ## Along a path and on -/

/-- A piece of a path that is a name of its own, rather than a way to stay or to turn back. -/
def IsName (piece : String) : Prop := piece ≠ "" ∧ piece ≠ "." ∧ piece ≠ ".."

theorem step_of_isName {piece : String} (h : IsName piece) {next : List String} (hs : step place piece = .ok next) :
    next = place ++ [piece] := by
  obtain ⟨he, hd, hdd⟩ := h
  unfold step at hs
  rw [if_neg (by simp [he, hd]), if_neg (by simp [hdd])] at hs
  split at hs <;> cases hs
  rfl

/-- A walk along two rows of pieces comes to the end of the first, from where it goes on itself, or else what it
follows does. -/
theorem exists_walkWith_of_append {follow : (place pieces : List String) → Except FileError (List String)}
    (front? : (place pieces : List String) → Except FileError (List String)) (Onward : List String → Prop)
    {front back : List String}
    (hf : ∀ place front, follow place (front ++ back) = .ok q → ∃ middle, front? place front = .ok middle ∧ Onward middle)
    (hw : fs.walkWith making follow place (front ++ back) = .ok q) :
    ∃ middle, fs.walkWith false front? place front = .ok middle ∧
      (fs.walkWith making follow middle back = .ok q ∨ Onward middle) := by
  induction front generalizing place with
  | nil => exact ⟨place, rfl, .inl hw⟩
  | cons piece rest ih =>
    obtain ⟨hdirectory, -, next, hnext, hon⟩ := walkWith_cons_eq_ok.mp hw
    suffices h : ∃ middle, fs.onward false front? place next rest = .ok middle ∧
        (fs.walkWith making follow middle back = .ok q ∨ Onward middle) by
      obtain ⟨middle, hfront, hback⟩ := h
      exact ⟨middle, walkWith_cons_eq_ok.mpr ⟨hdirectory, rfl, next, hnext, hfront⟩, hback⟩
    unfold onward at hon ⊢
    split at hon
    · rename_i target hlink
      obtain ⟨middle, hfront, hback⟩ := hf _ (Path.pieces target ++ rest) (by rw [List.append_assoc]; exact hon)
      exact ⟨middle, hfront, .inr hback⟩
    · exact ih hon

/-- A walk goes on behind the front of its path with no more links than it began with. -/
theorem exists_walk_of_append {front back : List String}
    (hw : fs.walk making links place (front ++ back) = .ok q) :
    ∃ middle left, fs.walk false links place front = .ok middle ∧ fs.walk making left middle back = .ok q := by
  induction links generalizing place front with
  | zero =>
    obtain ⟨middle, hfront, hback | hnone⟩ := exists_walkWith_of_append (fun _ _ => .error .tooManyLinks) (fun _ => False)
      (fun _ _ hnone => by cases hnone) hw
    · exact ⟨middle, 0, hfront, hback⟩
    · exact hnone.elim
  | succ links ih =>
    obtain ⟨middle, hfront, hback | ⟨left, hback⟩⟩ := exists_walkWith_of_append (fs.walk false links)
      (fun middle => ∃ left, fs.walk making left middle back = .ok q)
      (fun _ _ hfollow =>
        let ⟨middle, left, hfront, hback⟩ := ih hfollow
        ⟨middle, hfront, left, hback⟩) hw
    · exact ⟨middle, links + 1, hfront, hback⟩
    · exact ⟨middle, left, hfront, hback⟩

/-- Where a walk comes to with a single piece. -/
theorem walk_singleton {piece : String} (hw : fs.walk making links place [piece] = .ok q) :
    fs.node? place = some .directory ∧ ∃ next, step place piece = .ok next ∧
      (q = next ∨ ∃ target, fs.node? next = some (.link target)) := by
  have hcons {follow : (place pieces : List String) → Except FileError (List String)}
      (hw : fs.walkWith making follow place [piece] = .ok q) : fs.node? place = some .directory ∧
        ∃ next, step place piece = .ok next ∧ (q = next ∨ ∃ target, fs.node? next = some (.link target)) := by
    obtain ⟨hdirectory, -, next, hnext, hon⟩ := walkWith_cons_eq_ok.mp hw
    refine ⟨hdirectory, next, hnext, ?_⟩
    unfold onward at hon
    split at hon
    · exact .inr ⟨_, ‹_›⟩
    · exact .inl (Except.ok.inj hon).symm
  cases links with
  | zero => exact hcons hw
  | succ links => exact hcons hw

/-- A path that ends in a name leads to that name in a directory, unless a link stands there. -/
theorem exists_directory_of_walk {front : List String} {name : String} (hn : IsName name)
    (hw : fs.walk making links place (front ++ [name]) = .ok q) :
    ∃ directory, fs.walk false links place front = .ok directory ∧ fs.node? directory = some .directory ∧
      (q = directory ++ [name] ∨ ∃ target, fs.node? (directory ++ [name]) = some (.link target)) := by
  obtain ⟨directory, left, hfront, hlast⟩ := exists_walk_of_append hw
  obtain ⟨hdirectory, next, hnext, hq⟩ := walk_singleton hlast
  rw [step_of_isName hn hnext] at hq
  exact ⟨directory, hfront, hdirectory, hq⟩

/-- An empty piece behind a path leads nowhere else. -/
theorem walk_of_append_empty {front : List String} (hw : fs.walk false links place (front ++ [""]) = .ok q) :
    fs.walk false links place front = .ok q := by
  obtain ⟨middle, left, hfront, hlast⟩ := exists_walk_of_append hw
  obtain ⟨hdirectory, next, hnext, hq⟩ := walk_singleton hlast
  cases hnext
  rcases hq with rfl | ⟨target, hlink⟩
  · exact hfront
  · rw [hdirectory] at hlink
    cases hlink

end TestScaffold.FileSystem
