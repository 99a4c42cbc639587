import TestScaffold.Proofs.Generation.Moves

/-!
# Accounts of a run

The history of a run says which inputs have been read, which types have had units made for them, and which units have
been stored. With it everything that is on its way through the stages adds up: an input is read or still to be read, a
type found in an input is done with, in the second stage or still owed to it, a unit made for a type is done with or in
the third stage. Where a stage has one permit, the work is done in order there; but its jobs may end in another.

Results:
* `Loads`, `Requests`, `Units`, `Numbers`: the accounts of the stages; kept by every move.
* `History.loads`, `History.requests`, `History.units`, `History.numbers`: they hold after every history.
-/

namespace TestScaffold.Generation

/-- The error that a result is, if it is one. -/
def failure? {ε α : Type} : Except ε α → Option ε
  | .error e => some e
  | .ok _ => none

/-- The unit for a type, if there is one. -/
def unit? (lang : Language) (request : TypeRequest) : Option TestUnit := (synthesize lang request).toOption

namespace Reading

/-- What comes of reading the input. -/
def result (lang : Language) (root : String) (r : Reading) : Except GenerationError (List TypeRequest) :=
  load lang r.files.lookup root r.input

/-- The types found in the input. -/
def requests (lang : Language) (root : String) (r : Reading) : List TypeRequest :=
  (r.result lang root).toOption.getD []

/-- The error with which the input failed. -/
def error? (lang : Language) (root : String) (r : Reading) : Option GenerationError := failure? (r.result lang root)

end Reading

/-- What the third stage makes of a unit that has been stored, or not. -/
def Storing.finished (s : Storing) : Finished TestUnit := ⟨s.unit, s.error⟩

namespace Stage

variable {ι σ β : Type} {c : Prop} [Decidable c]

/-! ## Stages that may have been let go of -/

@[simp] theorem width_ite_close (s : Stage ι σ) : (if c then s.close else s).width = s.width := by
  split <;> rfl

@[simp] theorem ended_ite_close (s : Stage ι σ) : (if c then s.close else s).ended = s.ended := by
  split <;> rfl

@[simp] theorem running_ite_close (s : Stage ι σ) : (if c then s.close else s).running = s.running := by
  split <;> rfl

@[simp] theorem pending_ite_close (job : ι × σ → List β) (item : ι → List β) (s : Stage ι σ) :
    (if c then s.close else s).pending job item = s.pending job item := by
  split <;> rfl

end Stage

namespace Progress

variable {lang : Language} {config : Config} {root : String} {inputs : List String} {before : FileSystem}
  {p q : Progress} {log more : Log}

section Accounts

variable {readings : List Reading} {requests : List TypeRequest} {storings : List Storing}

/-! ## The first stage -/

/-- The input that a job has not looked at yet. -/
def unread : String × Option (List TypeRequest) → List String
  | (input, none) => [input]
  | (_, some _) => []

/-- The types that a job has still to pass on. -/
def owed : String × Option (List TypeRequest) → List TypeRequest
  | (_, none) => []
  | (_, some requests) => requests

/-- Every input has been read once or is still to be read, and an input that fails is reported once. -/
structure Loads (lang : Language) (root : String) (inputs : List String) (readings : List Reading)
    (loader : Stage String (Option (List TypeRequest))) (unsent : List String) (counted : Nat) : Prop where
  read : Rearranged (loader.width = 1)
    (readings.map Reading.input ++ (loader.pending unread (fun x => [x]) ++ unsent)) inputs
  errors : (loader.ended.filterMap Finished.error).Perm (readings.filterMap (Reading.error? lang root))
  count : counted + unsent.length = inputs.length

namespace Loads

variable {loader s : Stage String (Option (List TypeRequest))} {unsent : List String} {counted : Nat}

theorem submit {input : String}
    (h : Loads lang root inputs readings loader (input :: unsent) counted) :
    Loads lang root inputs readings (loader.send input) unsent (counted + 1) := by
  obtain ⟨hr, he, hc⟩ := h
  refine ⟨?_, he, ?_⟩
  · simpa using hr
  · rw [List.length_cons] at hc
    omega

theorem turn {t : Turn} (h : Loads lang root inputs readings loader unsent counted) (hs : loader.Settled)
    (ht : loader.turn none t = some s) : Loads lang root inputs readings s unsent counted := by
  obtain ⟨hr, he, hc⟩ := h
  have hp : s.pending unread (fun x => [x]) = loader.pending unread fun x => [x] :=
    hs.pending_turn ht fun _ => rfl
  refine ⟨?_, ((Stage.ended_turn ht).filterMap _).trans he, hc⟩
  rw [Stage.width_turn ht, hp]
  exact hr

theorem close (h : Loads lang root inputs readings loader unsent counted) :
    Loads lang root inputs readings loader.close unsent counted := ⟨h.read, h.errors, h.count⟩

/-- A reading that succeeds leaves its job with the types found. -/
theorem load {i : Nat} {r : Reading} {found : List TypeRequest}
    (h : Loads lang root inputs readings loader unsent counted)
    (hi : loader.running[i]? = some (r.input, none)) (hl : r.result lang root = .ok found) :
    Loads lang root inputs (readings ++ [r]) (loader.advance i (some found)) unsent counted := by
  obtain ⟨hr, he, hc⟩ := h
  obtain ⟨front, back, hp, ha, -, ho⟩ := Stage.exists_pending_split hi unread fun x => [x]
  refine ⟨?_, ?_, hc⟩
  · rw [hp] at hr
    rw [ha, Stage.width_advance]
    have hpull : Rearranged (loader.width = 1)
        (readings.map Reading.input ++ (front ++ ([r.input] ++ (back ++ unsent)))) inputs := by
      simpa [unread] using hr
    simpa [unread] using hpull.pull fun hw => (ho hw).1
  · simpa [Reading.error?, hl, failure?] using he

/-- A reading that fails ends its job. -/
theorem loadFails {i : Nat} {r : Reading} {e : GenerationError}
    (h : Loads lang root inputs readings loader unsent counted)
    (hi : loader.running[i]? = some (r.input, none)) (hl : r.result lang root = .error e) :
    Loads lang root inputs (readings ++ [r]) (loader.finish i (some e)) unsent counted := by
  obtain ⟨hr, he, hc⟩ := h
  obtain ⟨front, back, hp, -, hf, ho⟩ := Stage.exists_pending_split hi unread fun x => [x]
  refine ⟨?_, ?_, hc⟩
  · rw [hp] at hr
    rw [hf, Stage.width_finish hi]
    have hpull : Rearranged (loader.width = 1)
        (readings.map Reading.input ++ (front ++ ([r.input] ++ (back ++ unsent)))) inputs := by
      simpa [unread] using hr
    simpa using hpull.pull fun hw => (ho hw).1
  · have herror : r.error? lang root = some e := by rw [Reading.error?, hl]; rfl
    rw [Stage.ended_finish hi, List.filterMap_append, List.filterMap_append]
    simpa [herror] using he.append_right [e]

/-- Types that are passed on have nothing to do with inputs that are still to be read. -/
theorem emit {i : Nat} {input : String} {found rest : List TypeRequest}
    (h : Loads lang root inputs readings loader unsent counted)
    (hi : loader.running[i]? = some (input, some found)) :
    Loads lang root inputs readings (loader.advance i (some rest)) unsent counted := by
  obtain ⟨hr, he, hc⟩ := h
  obtain ⟨front, back, hp, ha, -, -⟩ := Stage.exists_pending_split hi unread fun x => [x]
  refine ⟨?_, he, hc⟩
  rw [ha, Stage.width_advance]
  rw [hp] at hr
  exact hr

theorem endLoad {i : Nat} {input : String} {found : List TypeRequest}
    (h : Loads lang root inputs readings loader unsent counted)
    (hi : loader.running[i]? = some (input, some found)) :
    Loads lang root inputs readings (loader.finish i none) unsent counted := by
  obtain ⟨hr, he, hc⟩ := h
  obtain ⟨front, back, hp, -, hf, -⟩ := Stage.exists_pending_split hi unread fun x => [x]
  refine ⟨?_, ?_, hc⟩
  · rw [hf, Stage.width_finish hi]
    rw [hp] at hr
    simpa [unread] using hr
  · simpa [Stage.ended_finish hi] using he

end Loads

theorem loads_move (h : Loads lang config.searchRoot inputs log.readings p.loader p.unsent p.summary.inputs)
    (hc : p.Closing) (hm : Move lang config p more q) :
    Loads lang config.searchRoot inputs (log.append more).readings q.loader q.unsent q.summary.inputs := by
  cases hm with
  | submit hp =>
    rw [Log.append, List.append_nil]
    simp only [unsent, hp] at h
    exact h.submit
  | allSubmitted hp =>
    rw [Log.append, List.append_nil]
    simp only [unsent, hp] at h
    exact h.close
  | loaded hp | synthesized hp | allStored hp =>
    rw [Log.append, List.append_nil]
    simp only [unsent, hp] at h
    exact h
  | loaderTurn ht =>
    rw [Log.append, List.append_nil]
    exact h.turn hc.loader ht
  | load hi hl => exact h.load hi hl
  | loadFails hi hl => exact h.loadFails hi hl
  | emit hi =>
    rw [Log.append, List.append_nil]
    exact h.emit hi
  | endLoad hi =>
    rw [Log.append, List.append_nil]
    exact h.endLoad hi
  | _ =>
    rw [Log.append, List.append_nil]
    exact h

/-! ## From the first stage to the second -/

/-- What a stage has been given and has not done. -/
abbrev undone {ι σ : Type} (s : Stage ι σ) : List ι := s.pending (fun job => [job.1]) fun x => [x]

/-- Every type found has been passed on once, or is still to be passed on, and what has been passed on has been done
once, or is still to be done. -/
structure Requests (lang : Language) (root : String) (readings : List Reading) (requests : List TypeRequest)
    (loader : Stage String (Option (List TypeRequest))) (synthesizer : Stage TypeRequest (Option TestUnit))
    (discovered : Nat) : Prop where
  sent : Rearranged (loader.width = 1 ∧ synthesizer.width = 1)
    (requests ++ (undone synthesizer ++ loader.pending owed fun _ => [])) (readings.flatMap (Reading.requests lang root))
  ended : (synthesizer.ended.map Finished.item).Perm requests
  count : discovered = requests.length + (undone synthesizer).length

namespace Requests

variable {loader l : Stage String (Option (List TypeRequest))} {synthesizer s : Stage TypeRequest (Option TestUnit)}
  {discovered : Nat}

/-- Only what the first stage owes matters, and only what the second stage has. -/
theorem of_same (h : Requests lang root readings requests loader synthesizer discovered)
    (hlw : l.width = loader.width) (hlp : (l.pending owed fun _ => []) = loader.pending owed fun _ => [])
    (hsw : s.width = synthesizer.width) (hsp : undone s = undone synthesizer)
    (hse : s.ended.Perm synthesizer.ended) : Requests lang root readings requests l s discovered := by
  obtain ⟨hs, he, hc⟩ := h
  refine ⟨?_, (hse.map _).trans he, ?_⟩
  · rw [hlw, hsw, hsp, hlp]
    exact hs
  · rw [hsp]
    exact hc

theorem load {i : Nat} {r : Reading} {found : List TypeRequest}
    (h : Requests lang root readings requests loader synthesizer discovered)
    (hi : loader.running[i]? = some (r.input, none)) (hl : r.result lang root = .ok found) :
    Requests lang root (readings ++ [r]) requests (loader.advance i (some found)) synthesizer discovered := by
  obtain ⟨hs, he, hc⟩ := h
  obtain ⟨front, back, hp, ha, -, ho⟩ := Stage.exists_pending_split hi owed fun _ => []
  refine ⟨?_, he, hc⟩
  have hr : r.requests lang root = found := by simp [Reading.requests, hl, Except.toOption]
  have hback : loader.width = 1 ∧ synthesizer.width = 1 → back = [] := fun hw => by simp [(ho hw.1).2]
  rw [hp, ← List.append_assoc] at hs
  rw [ha, Stage.width_advance, List.flatMap_append, List.flatMap_singleton, hr, ← List.append_assoc]
  exact hs.push hback found

theorem loadFails {i : Nat} {r : Reading} {e : GenerationError}
    (h : Requests lang root readings requests loader synthesizer discovered)
    (hi : loader.running[i]? = some (r.input, none)) (hl : r.result lang root = .error e) :
    Requests lang root (readings ++ [r]) requests (loader.finish i (some e)) synthesizer discovered := by
  obtain ⟨hs, he, hc⟩ := h
  obtain ⟨front, back, hp, -, hf, -⟩ := Stage.exists_pending_split hi owed fun _ => []
  refine ⟨?_, he, hc⟩
  have hr : r.requests lang root = [] := by simp [Reading.requests, hl, Except.toOption]
  rw [hp] at hs
  rw [hf, Stage.width_finish hi, List.flatMap_append, List.flatMap_singleton, hr, List.append_nil]
  exact hs

theorem emit {i : Nat} {input : String} {request : TypeRequest} {found : List TypeRequest}
    (h : Requests lang root readings requests loader synthesizer discovered)
    (hi : loader.running[i]? = some (input, some (request :: found))) :
    Requests lang root readings requests (loader.advance i (some found)) (synthesizer.send request)
      (discovered + 1) := by
  obtain ⟨hs, he, hc⟩ := h
  obtain ⟨front, back, hp, ha, -, ho⟩ := Stage.exists_pending_split hi owed fun _ => []
  refine ⟨?_, he, ?_⟩
  · rw [hp] at hs
    rw [ha, Stage.width_advance, Stage.width_send, undone, Stage.pending_send]
    have hpull : Rearranged (loader.width = 1 ∧ synthesizer.width = 1)
        (requests ++ undone synthesizer ++ (front ++ ([request] ++ (found ++ back))))
        (readings.flatMap (Reading.requests lang root)) := by
      simpa [owed] using hs
    simpa [owed] using hpull.pull fun hw => (ho hw.1).1
  · rw [undone, Stage.pending_send, List.length_append, hc]
    rfl

theorem endLoad {i : Nat} {input : String} (h : Requests lang root readings requests loader synthesizer discovered)
    (hi : loader.running[i]? = some (input, some [])) :
    Requests lang root readings requests (loader.finish i none) synthesizer discovered := by
  obtain ⟨front, back, hp, -, hf, -⟩ := Stage.exists_pending_split hi owed fun _ => []
  refine h.of_same (Stage.width_finish hi none) ?_ rfl rfl (.refl _)
  rw [hf, hp]
  rfl

/-- A type is done with when its job has ended its work. -/
theorem finish {i : Nat} {request : TypeRequest} {progress : Option TestUnit}
    (h : Requests lang root readings requests loader synthesizer discovered)
    (hi : synthesizer.running[i]? = some (request, progress)) (error : Option GenerationError) :
    Requests lang root readings (requests ++ [request]) loader (synthesizer.finish i error) discovered := by
  obtain ⟨hs, he, hc⟩ := h
  obtain ⟨front, back, hp, -, hf, ho⟩ := Stage.exists_pending_split hi (fun job => [job.1]) fun x => [x]
  have hp : undone synthesizer = front ++ ([request] ++ back) := hp
  have hf : undone (synthesizer.finish i error) = front ++ back := hf error
  refine ⟨?_, ?_, ?_⟩
  · rw [hp] at hs
    rw [hf, Stage.width_finish hi]
    have hpull : Rearranged (loader.width = 1 ∧ synthesizer.width = 1)
        (requests ++ (front ++ ([request] ++ (back ++ loader.pending owed fun _ => []))))
        (readings.flatMap (Reading.requests lang root)) := by
      simpa using hs
    simpa using hpull.pull fun hw => (ho hw.2).1
  · rw [Stage.ended_finish hi, List.map_append]
    exact he.append_right [request]
  · rw [hp] at hc
    rw [hf]
    simp only [List.length_append, List.length_singleton] at hc ⊢
    omega

end Requests

theorem undone_turn {ι σ : Type} {fresh : σ} {s t : Stage ι σ} {move : Turn} (hs : s.Settled)
    (h : s.turn fresh move = some t) : undone t = undone s := hs.pending_turn h fun _ => rfl

theorem undone_advance {ι σ : Type} {s : Stage ι σ} {i : Nat} {job : ι × σ} (h : s.running[i]? = some job)
    (progress : σ) : undone (s.advance i progress) = undone s := by
  obtain ⟨front, back, hp, ha, -, -⟩ := Stage.exists_pending_split h (fun job => [job.1]) fun x => [x]
  exact (ha progress).trans hp.symm

theorem requests_move
    (h : Requests lang config.searchRoot log.readings log.requests p.loader p.synthesizer p.summary.typesDiscovered)
    (hc : p.Closing) (hm : Move lang config p more q) :
    Requests lang config.searchRoot (log.append more).readings (log.append more).requests q.loader q.synthesizer
      q.summary.typesDiscovered := by
  cases hm with
  | load hi hl =>
    simp only [Log.append, List.append_nil]
    exact h.load hi hl
  | loadFails hi hl =>
    simp only [Log.append, List.append_nil]
    exact h.loadFails hi hl
  | submit hp =>
    simp only [Log.append, List.append_nil]
    exact h.of_same rfl (by simp) rfl rfl (.refl _)
  | allSubmitted hp | loaded hp | synthesized hp | allStored hp =>
    simp only [Log.append, List.append_nil]
    exact h.of_same rfl rfl rfl rfl (.refl _)
  | loaderTurn ht =>
    simp only [Log.append, List.append_nil]
    exact h.of_same (Stage.width_turn ht) (hc.loader.pending_turn ht fun _ => rfl) (by simp) (by simp) (by simp)
  | synthesizerTurn ht =>
    simp only [Log.append, List.append_nil]
    exact h.of_same rfl rfl (Stage.width_turn ht) (undone_turn hc.synthesizer ht) (Stage.ended_turn ht)
  | emit hi =>
    simp only [Log.append, List.append_nil]
    exact h.emit hi
  | endLoad hi =>
    simp only [Log.append, List.append_nil]
    exact h.endLoad hi
  | render hi =>
    simp only [Log.append, List.append_nil]
    exact h.of_same rfl rfl (by simp) (undone_advance hi _) (.refl _)
  | renderFails hi | pass hi =>
    simp only [Log.append, List.append_nil]
    exact h.finish hi _
  | _ =>
    simp only [Log.append, List.append_nil]
    exact h

/-! ## From the second stage to the third -/

/-- The unit that a job has made and not passed on. -/
def held : TypeRequest × Option TestUnit → List TestUnit
  | (_, none) => []
  | (_, some u) => [u]

/-- Every type that is done with has sent its unit on, or is reported once; and every unit has been stored, or not, or
is still to be stored. -/
structure Units (lang : Language) (requests : List TypeRequest) (storings : List Storing)
    (synthesizer : Stage TypeRequest (Option TestUnit)) (writer : Stage TestUnit Filing) (rendered : Nat) : Prop where
  made : ∀ job ∈ synthesizer.running, ∀ u, job.2 = some u → synthesize lang job.1 = .ok u
  errors : ∀ f ∈ synthesizer.ended, f.error = failure? (synthesize lang f.item)
  sent : Rearranged (writer.width = 1) (storings.map Storing.unit ++ undone writer) (requests.filterMap (unit? lang))
  count : rendered = (requests.filterMap (unit? lang)).length + (synthesizer.pending held fun _ => []).length

namespace Units

variable {synthesizer s : Stage TypeRequest (Option TestUnit)} {writer w : Stage TestUnit Filing} {rendered : Nat}

theorem of_writer (h : Units lang requests storings synthesizer writer rendered) (hw : w.width = writer.width)
    (hp : undone w = undone writer) : Units lang requests storings synthesizer w rendered := by
  obtain ⟨hm, he, hs, hc⟩ := h
  refine ⟨hm, he, ?_, hc⟩
  rw [hw, hp]
  exact hs

theorem of_synthesizer (h : Units lang requests storings synthesizer writer rendered)
    (hr : ∀ job ∈ s.running, job ∈ synthesizer.running ∨ job.2 = none) (he : s.ended.Perm synthesizer.ended)
    (hp : (s.pending held fun _ => []) = synthesizer.pending held fun _ => []) :
    Units lang requests storings s writer rendered := by
  refine ⟨fun job hj u hu => ?_, fun f hf => h.errors f (he.mem_iff.mp hf), h.sent, by rw [hp]; exact h.count⟩
  rcases hr job hj with hj | hj
  · exact h.made job hj u hu
  · rw [hj] at hu
    cases hu

theorem turn {t : Turn} (h : Units lang requests storings synthesizer writer rendered) (hs : synthesizer.Settled)
    (ht : synthesizer.turn none t = some s) : Units lang requests storings s writer rendered :=
  h.of_synthesizer (fun _ hj => Stage.mem_running_turn ht hj) (Stage.ended_turn ht) (hs.pending_turn ht fun _ => rfl)

/-- A unit that is made is held by its job. -/
theorem render {i : Nat} {request : TypeRequest} {u : TestUnit}
    (h : Units lang requests storings synthesizer writer rendered)
    (hi : synthesizer.running[i]? = some (request, none)) (hu : synthesize lang request = .ok u) :
    Units lang requests storings (synthesizer.advance i (some u)) writer (rendered + 1) := by
  obtain ⟨hm, he, hs, hc⟩ := h
  obtain ⟨before, after, hr, hadvance, -, -⟩ := Stage.exists_running_split hi
  obtain ⟨front, back, hp, ha, -, -⟩ := Stage.exists_pending_split hi held fun _ => []
  refine ⟨?_, he, hs, ?_⟩
  · intro job hj v hv
    rw [hadvance, List.mem_append, List.mem_cons] at hj
    rcases hj with hj | rfl | hj
    · exact hm job (by simp [hr, hj]) v hv
    · cases hv
      exact hu
    · exact hm job (by simp [hr, hj]) v hv
  · rw [hp] at hc
    rw [ha]
    simp only [held, List.length_append, List.length_cons, List.length_nil] at hc ⊢
    omega

/-- A job that ends is reported with what comes of its type. -/
theorem finish {i : Nat} {request : TypeRequest} {progress : Option TestUnit} {error : Option GenerationError}
    (h : Units lang requests storings synthesizer writer rendered)
    (hi : synthesizer.running[i]? = some (request, progress)) (he : error = failure? (synthesize lang request))
    (hheld : held (request, progress) = (unit? lang request).toList) (hw : w.width = writer.width)
    (hsent : undone w = undone writer ++ (unit? lang request).toList) :
    Units lang (requests ++ [request]) storings (synthesizer.finish i error) w rendered := by
  obtain ⟨hm, hf, hs, hc⟩ := h
  obtain ⟨before, after, hr, -, hfinish, -⟩ := Stage.exists_running_split hi
  obtain ⟨front, back, hp, -, hpending, -⟩ := Stage.exists_pending_split hi held fun _ => []
  have hrequest : [request].filterMap (unit? lang) = (unit? lang request).toList := by
    cases hu : unit? lang request <;> simp [hu]
  refine ⟨?_, ?_, ?_, ?_⟩
  · intro job hj u hu
    rw [hfinish, List.mem_append] at hj
    refine hm job ?_ u hu
    rw [hr, List.mem_append, List.mem_cons]
    exact hj.imp id .inr
  · intro f hmem
    rw [Stage.ended_finish hi, List.mem_append, List.mem_singleton] at hmem
    rcases hmem with hmem | rfl
    · exact hf f hmem
    · exact he
  · rw [hw, hsent, List.filterMap_append, hrequest, ← List.append_assoc]
    exact hs.append_right _
  · rw [hp, hheld] at hc
    rw [hpending, List.filterMap_append, hrequest]
    simp only [List.length_append] at hc ⊢
    omega

theorem renderFails {i : Nat} {request : TypeRequest} {e : GenerationError}
    (h : Units lang requests storings synthesizer writer rendered)
    (hi : synthesizer.running[i]? = some (request, none)) (he : synthesize lang request = .error e) :
    Units lang (requests ++ [request]) storings (synthesizer.finish i (some e)) writer rendered := by
  have hu : unit? lang request = none := by rw [unit?, he]; rfl
  refine h.finish hi ?_ ?_ rfl ?_
  · rw [he]
    rfl
  · rw [hu]
    rfl
  · rw [hu]
    exact (List.append_nil _).symm

/-- A job that is done has sent its unit on. -/
theorem pass {i : Nat} {request : TypeRequest} {u : TestUnit}
    (h : Units lang requests storings synthesizer writer rendered)
    (hi : synthesizer.running[i]? = some (request, some u)) :
    Units lang (requests ++ [request]) storings (synthesizer.finish i none) (writer.send u) rendered := by
  have hok : synthesize lang request = .ok u := h.made _ (List.mem_of_getElem? hi) u rfl
  have hu : unit? lang request = some u := by rw [unit?, hok]; rfl
  refine h.finish hi ?_ ?_ rfl ?_
  · rw [hok]
    rfl
  · rw [hu]
    rfl
  · rw [hu]
    exact Stage.pending_send ..

/-- A unit is done with when its job has ended its work. -/
theorem store {i id : Nat} {u : TestUnit} {filing : Filing} (h : Units lang requests storings synthesizer writer rendered)
    (hi : writer.running[i]? = some (u, filing)) (error : Option GenerationError) :
    Units lang requests (storings ++ [⟨id, u, error⟩]) synthesizer (writer.finish i error) rendered := by
  obtain ⟨hm, he, hs, hc⟩ := h
  obtain ⟨front, back, hp, -, hf, ho⟩ := Stage.exists_pending_split hi (fun job => [job.1]) fun x => [x]
  have hp : undone writer = front ++ ([u] ++ back) := hp
  have hf : undone (writer.finish i error) = front ++ back := hf error
  refine ⟨hm, he, ?_, hc⟩
  rw [hp] at hs
  rw [hf, Stage.width_finish hi, List.map_append]
  exact hs.pull fun hw => (ho hw).1

end Units

theorem units_move
    (h : Units lang log.requests log.storings p.synthesizer p.writer p.summary.unitsRendered) (hc : p.Closing)
    (hm : Move lang config p more q) :
    Units lang (log.append more).requests (log.append more).storings q.synthesizer q.writer
      q.summary.unitsRendered := by
  cases hm with
  | render hi hs =>
    simp only [Log.append, List.append_nil]
    exact h.render hi hs
  | renderFails hi hs =>
    simp only [Log.append, List.append_nil]
    exact h.renderFails hi hs
  | pass hi =>
    simp only [Log.append, List.append_nil]
    exact h.pass hi
  | endStore hi | refuse hi =>
    simp only [Log.append, List.append_nil]
    exact h.store hi _
  | loaded =>
    simp only [Log.append, List.append_nil]
    exact h.of_synthesizer (fun _ hj => .inl hj) (.refl _) rfl
  | synthesized =>
    simp only [Log.append, List.append_nil]
    exact h.of_writer rfl rfl
  | loaderTurn =>
    simp only [Log.append, List.append_nil]
    exact h.of_synthesizer (fun _ hj => .inl (by simpa using hj)) (by simp) (by simp)
  | synthesizerTurn ht =>
    simp only [Log.append, List.append_nil]
    exact (h.turn hc.synthesizer ht).of_writer (by simp) (by simp)
  | writerTurn ht =>
    simp only [Log.append, List.append_nil]
    exact h.of_writer (Stage.width_turn ht) (undone_turn hc.writer ht)
  | emit =>
    simp only [Log.append, List.append_nil]
    exact h.of_synthesizer (fun _ hj => .inl hj) (.refl _) (by simp)
  | number hi | create hi | write hi =>
    simp only [Log.append, List.append_nil]
    exact h.of_writer (by simp) (undone_advance hi _)
  | _ =>
    simp only [Log.append, List.append_nil]
    exact h

/-! ## The third stage -/

/-- The number that a job has taken. -/
def taken (job : TestUnit × Filing) : List Nat := job.2.id?.toList

/-- The numbers from one on have been taken once each. -/
structure Numbers (storings : List Storing) (writer : Stage TestUnit Filing) (nextId : Nat) (written : Nat) :
    Prop where
  positive : 0 < nextId
  ids : Rearranged (writer.width = 1) (storings.map Storing.id ++ writer.pending taken fun _ => [])
    (List.range' 1 (nextId - 1))
  ended : writer.ended.Perm (storings.map Storing.finished)
  count : written = storings.countP fun s => s.error.isNone

namespace Numbers

variable {writer w : Stage TestUnit Filing} {nextId written : Nat}

theorem of_same (h : Numbers storings writer nextId written) (hw : w.width = writer.width)
    (he : w.ended.Perm writer.ended) (hp : (w.pending taken fun _ => []) = writer.pending taken fun _ => []) :
    Numbers storings w nextId written := by
  obtain ⟨hn, hi, hd, hc⟩ := h
  refine ⟨hn, ?_, he.trans hd, hc⟩
  rw [hw, hp]
  exact hi

/-- A job that goes on keeps its number. -/
theorem advance {i : Nat} {u : TestUnit} {filing next : Filing} (h : Numbers storings writer nextId written)
    (hj : writer.running[i]? = some (u, filing)) (hid : next.id? = filing.id?) :
    Numbers storings (writer.advance i next) nextId written := by
  obtain ⟨front, back, hp, ha, -, -⟩ := Stage.exists_pending_split hj taken fun _ => []
  refine h.of_same (Stage.width_advance ..) (.refl _) ?_
  rw [ha, hp, taken, taken, hid]

/-- A job that takes a number takes the next one. -/
theorem number {i : Nat} {u : TestUnit} (h : Numbers storings writer nextId written)
    (hj : writer.running[i]? = some (u, .unnumbered)) :
    Numbers storings (writer.advance i (.numbered nextId)) (nextId + 1) written := by
  obtain ⟨hn, hi, hd, hc⟩ := h
  obtain ⟨front, back, hp, ha, -, ho⟩ := Stage.exists_pending_split hj taken fun _ => []
  refine ⟨Nat.succ_pos nextId, ?_, hd, hc⟩
  have hrange : List.range' 1 (nextId + 1 - 1) = List.range' 1 (nextId - 1) ++ [nextId] := by
    obtain ⟨n, rfl⟩ : ∃ n, nextId = n + 1 := ⟨nextId - 1, by omega⟩
    simp [List.range'_concat, Nat.add_comm]
  have hback : writer.width = 1 → back = [] := fun hw => by simp [(ho hw).2]
  rw [hp] at hi
  rw [ha, Stage.width_advance, hrange]
  exact Rearranged.push hi hback [nextId]

/-- A job that stores its unit, or fails to, is over. -/
theorem finish {i id count : Nat} {u : TestUnit} {filing : Filing} {error : Option GenerationError}
    (h : Numbers storings writer nextId written) (hj : writer.running[i]? = some (u, filing))
    (hid : filing.id? = some id) (hc : count = (storings ++ [Storing.mk id u error]).countP fun s => s.error.isNone) :
    Numbers (storings ++ [⟨id, u, error⟩]) (writer.finish i error) nextId count := by
  obtain ⟨hn, hi, hd, -⟩ := h
  obtain ⟨front, back, hp, -, hf, ho⟩ := Stage.exists_pending_split hj taken fun _ => []
  refine ⟨hn, ?_, ?_, hc⟩
  · rw [hp, taken, hid] at hi
    rw [hf, Stage.width_finish hj, List.map_append]
    exact hi.pull fun hw => (ho hw).1
  · rw [Stage.ended_finish hj, List.map_append]
    exact hd.append_right [⟨u, error⟩]

end Numbers

theorem numbers_move (h : Numbers log.storings p.writer p.nextId p.summary.filesWritten) (hc : p.Closing)
    (hm : Move lang config p more q) :
    Numbers (log.append more).storings q.writer q.nextId q.summary.filesWritten := by
  cases hm with
  | endStore hi => exact h.finish hi rfl (by simp [h.count])
  | refuse hi hid => exact h.finish hi hid (by simp [h.count])
  | number hi =>
    simp only [Log.append, List.append_nil]
    exact h.number hi
  | create hi | write hi =>
    simp only [Log.append, List.append_nil]
    exact h.advance hi rfl
  | synthesized =>
    simp only [Log.append, List.append_nil]
    exact h.of_same rfl (.refl _) rfl
  | synthesizerTurn =>
    simp only [Log.append, List.append_nil]
    exact h.of_same (by simp) (by simp) (by simp)
  | writerTurn ht =>
    simp only [Log.append, List.append_nil]
    exact h.of_same (Stage.width_turn ht) (Stage.ended_turn ht) (hc.writer.pending_turn ht fun _ => rfl)
  | pass =>
    simp only [Log.append, List.append_nil]
    exact h.of_same rfl (.refl _) (by simp)
  | _ =>
    simp only [Log.append, List.append_nil]
    exact h

end Accounts

/-! ## Whole histories -/

theorem widths_move (hm : Move lang config p log q) : q.loader.width = p.loader.width ∧
    q.synthesizer.width = p.synthesizer.width ∧ q.writer.width = p.writer.width := by
  cases hm with
  | loaderTurn ht => exact ⟨Stage.width_turn ht, by simp, rfl⟩
  | synthesizerTurn ht => exact ⟨rfl, Stage.width_turn ht, by simp⟩
  | writerTurn ht => exact ⟨rfl, rfl, Stage.width_turn ht⟩
  | load | emit => exact ⟨by simp, by simp, rfl⟩
  | loadFails hi | endLoad hi => exact ⟨Stage.width_finish hi _, rfl, rfl⟩
  | render => exact ⟨rfl, by simp, rfl⟩
  | renderFails hi | pass hi => exact ⟨rfl, Stage.width_finish hi _, by simp⟩
  | number | create | write => exact ⟨rfl, rfl, by simp⟩
  | endStore hi | refuse hi => exact ⟨rfl, rfl, Stage.width_finish hi _⟩
  | _ => exact ⟨rfl, rfl, rfl⟩

namespace History

variable {load synth write : Nat} (h : History lang config (start inputs load synth write before) log p)

include h

theorem widths : p.loader.width = load ∧ p.synthesizer.width = synth ∧ p.writer.width = write := by
  induction h with
  | nil => exact ⟨rfl, rfl, rfl⟩
  | snoc _ _ hm ih =>
    obtain ⟨hl, hs, hw⟩ := widths_move hm
    exact ⟨hl.trans ih.1, hs.trans ih.2.1, hw.trans ih.2.2⟩

theorem loads : Loads lang config.searchRoot inputs log.readings p.loader p.unsent p.summary.inputs := by
  induction h with
  | nil => exact ⟨.refl _ _, .refl _, Nat.zero_add _⟩
  | snoc _ hc hm ih => exact loads_move ih hc hm

theorem requests :
    Requests lang config.searchRoot log.readings log.requests p.loader p.synthesizer p.summary.typesDiscovered := by
  induction h with
  | nil => exact ⟨.refl _ _, .refl _, rfl⟩
  | snoc _ hc hm ih => exact requests_move ih hc hm

theorem units : Units lang log.requests log.storings p.synthesizer p.writer p.summary.unitsRendered := by
  induction h with
  | nil => exact ⟨by simp [start], by simp [start, Stage.ended], .refl _ _, rfl⟩
  | snoc _ hc hm ih => exact units_move ih hc hm

theorem numbers : Numbers log.storings p.writer p.nextId p.summary.filesWritten := by
  induction h with
  | nil => exact ⟨Nat.one_pos, .refl _ _, .refl _, rfl⟩
  | snoc _ hc hm ih => exact numbers_move ih hc hm

end History

end Progress

end TestScaffold.Generation
