import TestScaffold.Generation.Schedule
import TestScaffold.Proofs.Generation.Pending

/-!
# What can happen in a run

A stage is let go of by the run itself and by the stage in front of it, and it returns only after both. So, as long as
no dispatcher breaks down, nothing is ever sent to a stage that has returned, and each event has one effect, told here
case by case together with what it tells of inputs, types and units.

Results:
* `Progress.Closing`: who may still send to which stage; kept by every event (`Closing.move`).
* `Progress.Move`: the effects of events, in runs that are `Closing`.
* `Progress.exists_history`: every schedule is a history of such moves, and stores what the history does.
-/

namespace TestScaffold.Generation

/-- An input that is read, and the files as they stand then. -/
structure Reading where
  input : String
  files : FileSystem

/-- A unit that has been stored, or not, under its number. -/
structure Storing where
  id : Nat
  unit : TestUnit
  error : Option GenerationError
  deriving DecidableEq, Repr

/-- What is told of a run: the inputs that have been read, the types that units have been made for, or not, and the
units that have been stored, or not, each in their order. -/
structure Log where
  readings : List Reading := []
  requests : List TypeRequest := []
  storings : List Storing := []

/-- One log behind another. -/
def Log.append (k l : Log) : Log := ⟨k.readings ++ l.readings, k.requests ++ l.requests, k.storings ++ l.storings⟩

/-- The number of a unit, once it has one. -/
def Filing.id? : Filing → Option Nat
  | unnumbered => none
  | numbered id | opened id _ _ => some id

/-- How far a run has come, as the number of the stages that it has let go of, and one more once it is over. -/
def Phase.rank : Phase → Nat
  | .submitting _ => 0
  | .loading => 1
  | .synthesizing => 2
  | .storing => 3
  | .over => 4

@[simp] theorem Phase.rank_submitting (inputs : List String) : (submitting inputs).rank = 0 := rfl

@[simp] theorem Phase.rank_loading : loading.rank = 1 := rfl

@[simp] theorem Phase.rank_synthesizing : synthesizing.rank = 2 := rfl

@[simp] theorem Phase.rank_storing : storing.rank = 3 := rfl

@[simp] theorem Phase.rank_over : over.rank = 4 := rfl

/-- All stages can do their work with these numbers of permits. -/
def AllWorkable (load synth write : Nat) : Prop := Stage.Workable load ∧ Stage.Workable synth ∧ Stage.Workable write

instance (load synth write : Nat) : Decidable (AllWorkable load synth write) := inferInstanceAs (Decidable (_ ∧ _))

namespace Progress

/-- Who may still send to which stage: the run itself until it lets go of it, and the stage in front until it
returns. A stage has returned when the run has gone on behind it. -/
structure Closing (p : Progress) : Prop where
  refused : p.refused = []
  loader : p.loader.Settled
  synthesizer : p.synthesizer.Settled
  writer : p.writer.Settled
  toLoader : p.loader.senders = if p.phase.rank = 0 then 1 else 0
  toSynthesizer : p.synthesizer.senders =
    (if p.phase.rank ≤ 1 then 1 else 0) + (if p.loader.gone = true then 0 else 1)
  toWriter : p.writer.senders =
    (if p.phase.rank ≤ 2 then 1 else 0) + (if p.synthesizer.gone = true then 0 else 1)
  loaded : 2 ≤ p.phase.rank → p.loader.gone = true
  synthesized : 3 ≤ p.phase.rank → p.synthesizer.gone = true
  stored : 4 ≤ p.phase.rank → p.writer.gone = true

namespace Closing

variable {p : Progress}

theorem start (inputs : List String) {load synth write : Nat} (hp : AllWorkable load synth write) (fs : FileSystem) :
    (Progress.start inputs load synth write fs).Closing where
  refused := rfl
  loader := .spawn hp.1.2
  synthesizer := .spawn hp.2.1.2
  writer := .spawn hp.2.2.2
  toLoader := rfl
  toSynthesizer := rfl
  toWriter := rfl
  loaded h := absurd h (by simp [Progress.start])
  synthesized h := absurd h (by simp [Progress.start])
  stored h := absurd h (by simp [Progress.start])

/-- While inputs are submitted the first stage takes them. -/
theorem loader_open (h : p.Closing) {inputs : List String} (hp : p.phase = .submitting inputs) :
    p.loader.gone = false := by
  refine h.loader.gone_of_senders ?_
  rw [h.toLoader, hp]
  simp

/-- While the first stage works the second one takes what it finds. -/
theorem synthesizer_open (h : p.Closing) (hl : p.loader.gone = false) : p.synthesizer.gone = false := by
  refine h.synthesizer.gone_of_senders ?_
  rw [h.toSynthesizer, hl]
  simp

/-- While the second stage works the third one takes what it makes. -/
theorem writer_open (h : p.Closing) (hs : p.synthesizer.gone = false) : p.writer.gone = false := by
  refine h.writer.gone_of_senders ?_
  rw [h.toWriter, hs]
  simp

/-- A run that is over has nothing left to do. -/
theorem drained (h : p.Closing) (hp : p.phase = .over) :
    p.loader.isDrained = true ∧ p.synthesizer.isDrained = true ∧ p.writer.isDrained = true := by
  have hr : p.phase.rank = 4 := by rw [hp]; rfl
  exact ⟨h.loader.drained (h.loaded (by omega)), h.synthesizer.drained (h.synthesized (by omega)),
    h.writer.drained (h.stored (by omega))⟩

end Closing

/-! ## Moves -/

/-- A move of a run, with what it tells. -/
inductive Move (lang : Language) (config : Config) (p : Progress) : (log : Log) → (next : Progress) → Prop
  | submit {input : String} {inputs : List String} (hp : p.phase = .submitting (input :: inputs)) :
    Move lang config p {} { p with
      phase := .submitting inputs, summary := { p.summary with inputs := p.summary.inputs + 1 },
      loader := p.loader.send input }
  | allSubmitted (hp : p.phase = .submitting []) :
    Move lang config p {} { p with phase := .loading, loader := p.loader.close }
  | loaded (hp : p.phase = .loading) (hr : p.loader.gone = true) :
    Move lang config p {} { p with phase := .synthesizing, synthesizer := p.synthesizer.close }
  | synthesized (hp : p.phase = .synthesizing) (hr : p.synthesizer.gone = true) :
    Move lang config p {} { p with phase := .storing, writer := p.writer.close }
  | allStored (hp : p.phase = .storing) (hr : p.writer.gone = true) :
    Move lang config p {} { p with phase := .over }
  | loaderTurn {t : Turn} {s : Stage String (Option (List TypeRequest))} (ht : p.loader.turn none t = some s) :
    Move lang config p {} { p with
      loader := s, synthesizer := if s.gone then p.synthesizer.close else p.synthesizer }
  | synthesizerTurn {t : Turn} {s : Stage TypeRequest (Option TestUnit)}
      (ht : p.synthesizer.turn none t = some s) :
    Move lang config p {} { p with synthesizer := s, writer := if s.gone then p.writer.close else p.writer }
  | writerTurn {t : Turn} {s : Stage TestUnit Filing} (ht : p.writer.turn .unnumbered t = some s) :
    Move lang config p {} { p with writer := s }
  | load {i : Nat} {input : String} {requests : List TypeRequest}
      (hi : p.loader.running[i]? = some (input, none))
      (hl : Generation.load lang p.files.lookup config.searchRoot input = .ok requests) :
    Move lang config p { readings := [⟨input, p.files⟩] } { p with loader := p.loader.advance i (some requests) }
  | loadFails {i : Nat} {input : String} {e : GenerationError}
      (hi : p.loader.running[i]? = some (input, none))
      (hl : Generation.load lang p.files.lookup config.searchRoot input = .error e) :
    Move lang config p { readings := [⟨input, p.files⟩] } { p with loader := p.loader.finish i (some e) }
  | emit {i : Nat} {input : String} {request : TypeRequest} {requests : List TypeRequest}
      (hi : p.loader.running[i]? = some (input, some (request :: requests))) :
    Move lang config p {} { p with
      summary := { p.summary with typesDiscovered := p.summary.typesDiscovered + 1 },
      loader := p.loader.advance i (some requests), synthesizer := p.synthesizer.send request }
  | endLoad {i : Nat} {input : String} (hi : p.loader.running[i]? = some (input, some [])) :
    Move lang config p {} { p with loader := p.loader.finish i none }
  | render {i : Nat} {request : TypeRequest} {u : TestUnit}
      (hi : p.synthesizer.running[i]? = some (request, none)) (hs : synthesize lang request = .ok u) :
    Move lang config p {} { p with
      summary := { p.summary with unitsRendered := p.summary.unitsRendered + 1 },
      synthesizer := p.synthesizer.advance i (some u) }
  | renderFails {i : Nat} {request : TypeRequest} {e : GenerationError}
      (hi : p.synthesizer.running[i]? = some (request, none)) (hs : synthesize lang request = .error e) :
    Move lang config p { requests := [request] } { p with synthesizer := p.synthesizer.finish i (some e) }
  | pass {i : Nat} {request : TypeRequest} {u : TestUnit}
      (hi : p.synthesizer.running[i]? = some (request, some u)) :
    Move lang config p { requests := [request] } { p with
      synthesizer := p.synthesizer.finish i none, writer := p.writer.send u }
  | number {i : Nat} {u : TestUnit} (hi : p.writer.running[i]? = some (u, .unnumbered)) :
    Move lang config p {} { p with
      nextId := p.nextId + 1, writer := p.writer.advance i (.numbered p.nextId) }
  | create {i id file : Nat} {u : TestUnit} {files : FileSystem}
      (hi : p.writer.running[i]? = some (u, .numbered id))
      (hc : p.files.create (outputPath lang config.output id) = .ok (files, file)) :
    Move lang config p {} { p with files := files, writer := p.writer.advance i (.opened id file 0) }
  | write {i id file written count : Nat} {u : TestUnit}
      (hi : p.writer.running[i]? = some (u, .opened id file written)) (hcount : 0 < count)
      (hle : written + count ≤ (Text.encode u.text).length) :
    Move lang config p {} { p with
      files := p.files.writeAt file written (((Text.encode u.text).drop written).take count),
      writer := p.writer.advance i (.opened id file (written + count)) }
  | endStore {i id file : Nat} {u : TestUnit}
      (hi : p.writer.running[i]? = some (u, .opened id file (Text.encode u.text).length)) :
    Move lang config p { storings := [⟨id, u, none⟩] } { p with
      summary := { p.summary with filesWritten := p.summary.filesWritten + 1 },
      writer := p.writer.finish i none }
  | refuse {i id : Nat} {u : TestUnit} {filing : Filing} {cause : FileError}
      (hi : p.writer.running[i]? = some (u, filing)) (hid : filing.id? = some id) :
    Move lang config p { storings := [⟨id, u, some (.write (outputPath lang config.output id) u.typeName cause)⟩] }
      { p with
        writer := p.writer.finish i (some (.write (outputPath lang config.output id) u.typeName cause)) }

variable {lang : Language} {config : Config} {p q : Progress}

/-- The units that an event stores, or fails to. -/
def stored (lang : Language) (output : String) (p : Progress) : Event → List Storing
  | .create i =>
    match p.writer.running[i]? with
    | some (u, .numbered id) =>
      match p.files.create (outputPath lang output id) with
      | .ok _ => []
      | .error cause => [⟨id, u, some (.write (outputPath lang output id) u.typeName cause)⟩]
    | _ => []
  | .endStore i =>
    match p.writer.running[i]? with
    | some (u, .opened id _ _) => [⟨id, u, none⟩]
    | _ => []
  | .fault i cause =>
    match p.writer.running[i]? with
    | some (u, .numbered id) | some (u, .opened id _ _) =>
      [⟨id, u, some (.write (outputPath lang output id) u.typeName cause)⟩]
    | _ => []
  | _ => []

/-- The units that the events of a schedule store, or fail to, in their order. -/
def storings (lang : Language) (config : Config) (p : Progress) : (schedule : List Event) → List Storing
  | [] => []
  | e :: schedule =>
    match p.perform lang config e with
    | some q => p.stored lang config.output e ++ q.storings lang config schedule
    | none => []

/-- Every event is a move; no item is sent to a stage that takes no more. -/
theorem Closing.exists_move (h : p.Closing) {e : Event} (he : p.perform lang config e = some q) :
    ∃ log, Move lang config p log q ∧ log.storings = p.stored lang config.output e := by
  cases e with
  | submit =>
    simp only [perform, Progress.submit] at he
    split at he
    · rename_i input inputs hp
      simp only [h.loader_open hp, Bool.false_eq_true, if_false] at he
      cases he
      exact ⟨_, .submit hp, rfl⟩
    · cases he
  | proceed =>
    simp only [perform, Progress.proceed] at he
    split at he <;> rename_i hp
    · cases he
      exact ⟨_, .allSubmitted hp, rfl⟩
    · cases he
    · split at he <;> cases he
      exact ⟨_, .loaded hp ‹_›, rfl⟩
    · split at he <;> cases he
      exact ⟨_, .synthesized hp ‹_›, rfl⟩
    · split at he <;> cases he
      exact ⟨_, .allStored hp ‹_›, rfl⟩
    · cases he
  | loaderTurn t =>
    simp only [perform, Progress.loaderTurn, Option.map_eq_some_iff] at he
    obtain ⟨s, ht, rfl⟩ := he
    exact ⟨_, .loaderTurn ht, rfl⟩
  | synthesizerTurn t =>
    simp only [perform, Progress.synthesizerTurn, Option.map_eq_some_iff] at he
    obtain ⟨s, ht, rfl⟩ := he
    exact ⟨_, .synthesizerTurn ht, rfl⟩
  | writerTurn t =>
    simp only [perform, Progress.writerTurn, Option.map_eq_some_iff] at he
    obtain ⟨s, ht, rfl⟩ := he
    exact ⟨_, .writerTurn ht, rfl⟩
  | read i =>
    simp only [perform, Progress.read] at he
    split at he
    · rename_i input hi
      split at he <;> rename_i hl <;> cases he
      · exact ⟨_, .load hi hl, rfl⟩
      · exact ⟨_, .loadFails hi hl, rfl⟩
    · cases he
  | emit i =>
    simp only [perform, Progress.emit] at he
    split at he
    · rename_i input request requests hi
      have hopen := h.synthesizer_open (h.loader.gone_of_running hi)
      simp only [hopen, Bool.false_eq_true, if_false] at he
      cases he
      exact ⟨_, .emit hi, rfl⟩
    · cases he
  | endLoad i =>
    simp only [perform, Progress.endLoad] at he
    split at he <;> cases he
    exact ⟨_, .endLoad ‹_›, rfl⟩
  | render i =>
    simp only [perform, Progress.render] at he
    split at he
    · rename_i request hi
      split at he <;> rename_i hs <;> cases he
      · exact ⟨_, .render hi hs, rfl⟩
      · exact ⟨_, .renderFails hi hs, rfl⟩
    · cases he
  | pass i =>
    simp only [perform, Progress.pass] at he
    split at he
    · rename_i request u hi
      have hopen := h.writer_open (h.synthesizer.gone_of_running hi)
      simp only [hopen, Bool.false_eq_true, if_false] at he
      cases he
      exact ⟨_, .pass hi, rfl⟩
    · cases he
  | number i =>
    simp only [perform, Progress.number] at he
    split at he <;> cases he
    exact ⟨_, .number ‹_›, rfl⟩
  | create i =>
    simp only [perform, Progress.create] at he
    split at he
    · rename_i u id hi
      split at he <;> rename_i hc <;> cases he
      · exact ⟨_, .create hi hc, by simp only [Progress.stored, hi, hc]⟩
      · exact ⟨_, .refuse hi rfl, by simp only [Progress.stored, hi, hc]⟩
    · cases he
  | write i count =>
    simp only [perform, Progress.write] at he
    split at he
    · split at he <;> cases he
      rename_i hi hcount
      exact ⟨_, .write hi hcount.1 hcount.2, rfl⟩
    · cases he
  | endStore i =>
    simp only [perform, Progress.endStore] at he
    split at he
    · rename_i u id file written hi
      split at he <;> cases he
      rename_i hwritten
      rw [hwritten] at hi
      exact ⟨_, .endStore hi, by simp only [Progress.stored, hi]⟩
    · cases he
  | fault i cause =>
    simp only [perform, Progress.fault] at he
    split at he <;> cases he
    · rename_i hi
      exact ⟨_, .refuse hi rfl, by simp only [Progress.stored, hi]⟩
    · rename_i hi
      exact ⟨_, .refuse hi rfl, by simp only [Progress.stored, hi]⟩

/-- Work inside the stages changes nothing about who may send to them. -/
theorem Closing.of_kept (h : p.Closing) (hf : q.refused = p.refused) (hp : q.phase.rank = p.phase.rank)
    (hl : p.loader.Kept q.loader) (hs : p.synthesizer.Kept q.synthesizer) (hw : p.writer.Kept q.writer) :
    q.Closing where
  refused := hf.trans h.refused
  loader := hl.settled
  synthesizer := hs.settled
  writer := hw.settled
  toLoader := by rw [hl.senders, hp, h.toLoader]
  toSynthesizer := by rw [hs.senders, hp, hl.gone, h.toSynthesizer]
  toWriter := by rw [hw.senders, hp, hs.gone, h.toWriter]
  loaded hq := by rw [hl.gone, h.loaded (hp ▸ hq)]
  synthesized hq := by rw [hs.gone, h.synthesized (hp ▸ hq)]
  stored hq := by rw [hw.gone, h.stored (hp ▸ hq)]

/-- The stages are let go of one after the other, whatever happens. -/
theorem Closing.move (h : p.Closing) {log : Log} (hm : Move lang config p log q) : q.Closing := by
  have hl : p.loader.Kept p.loader := .refl h.loader
  have hs : p.synthesizer.Kept p.synthesizer := .refl h.synthesizer
  have hw : p.writer.Kept p.writer := .refl h.writer
  cases hm with
  | submit hp =>
    have hr : p.phase.rank = 0 := by rw [hp]; rfl
    exact h.of_kept rfl hr.symm (.send h.loader (h.loader_open hp) _) hs hw
  | allSubmitted hp =>
    have hr : p.phase.rank = 0 := by rw [hp]; rfl
    exact { h with
      loader := h.loader.close
      toLoader := by simp [Stage.close, h.toLoader, hr]
      toSynthesizer := h.toSynthesizer.trans (by simp [hr]; rfl)
      toWriter := by simpa [hr] using h.toWriter
      loaded := by simp
      synthesized := by simp
      stored := by simp }
  | loaded hp hl =>
    have hr : p.phase.rank = 1 := by rw [hp]; rfl
    exact { h with
      synthesizer := h.synthesizer.close
      toLoader := by simpa [hr] using h.toLoader
      toSynthesizer := by simp [Stage.close, h.toSynthesizer, hr, hl]
      toWriter := h.toWriter.trans (by simp [hr]; rfl)
      loaded := fun _ => hl
      synthesized := by simp
      stored := by simp }
  | synthesized hp hs =>
    have hr : p.phase.rank = 2 := by rw [hp]; rfl
    exact { h with
      writer := h.writer.close
      toLoader := by simpa [hr] using h.toLoader
      toSynthesizer := by simpa [hr] using h.toSynthesizer
      toWriter := by simp [Stage.close, h.toWriter, hr, hs]
      loaded := fun _ => h.loaded (by omega)
      synthesized := fun _ => hs
      stored := by simp }
  | allStored hp hw =>
    have hr : p.phase.rank = 3 := by rw [hp]; rfl
    exact { h with
      toLoader := by simpa [hr] using h.toLoader
      toSynthesizer := by simpa [hr] using h.toSynthesizer
      toWriter := by simpa [hr] using h.toWriter
      loaded := fun _ => h.loaded (by omega)
      synthesized := fun _ => h.synthesized (by omega)
      stored := fun _ => hw }
  | @loaderTurn t s ht =>
    have ho : p.loader.gone = false := Stage.gone_eq_false_of_turn ht
    have hrank : ¬ 2 ≤ p.phase.rank := fun hp => by simp [h.loaded hp] at ho
    obtain ⟨-, hn⟩ := h.loader.gone_turn ht
    cases hg : s.gone with
    | false =>
      exact h.of_kept rfl rfl ⟨h.loader.turn ht, hn, hg.trans ho.symm⟩ (by simpa [hg] using hs) hw
    | true =>
      exact { h with
        loader := h.loader.turn ht
        synthesizer := by simpa [hg] using h.synthesizer.close
        toLoader := hn.trans h.toLoader
        toSynthesizer := by simp [Stage.close, hg, h.toSynthesizer, ho]
        toWriter := by simpa [hg] using h.toWriter
        loaded := fun hp => absurd hp hrank
        synthesized := fun hp => absurd (Nat.le_of_succ_le hp) hrank }
  | @synthesizerTurn t s ht =>
    have ho : p.synthesizer.gone = false := Stage.gone_eq_false_of_turn ht
    have hrank : ¬ 3 ≤ p.phase.rank := fun hp => by simp [h.synthesized hp] at ho
    obtain ⟨-, hn⟩ := h.synthesizer.gone_turn ht
    cases hg : s.gone with
    | false =>
      exact h.of_kept rfl rfl hl ⟨h.synthesizer.turn ht, hn, hg.trans ho.symm⟩ (by simpa [hg] using hw)
    | true =>
      exact { h with
        synthesizer := h.synthesizer.turn ht
        writer := by simpa [hg] using h.writer.close
        toSynthesizer := hn.trans h.toSynthesizer
        toWriter := by simp [Stage.close, hg, h.toWriter, ho]
        synthesized := fun hp => absurd hp hrank
        stored := fun hp => absurd (Nat.le_of_succ_le hp) hrank }
  | writerTurn ht =>
    have ho : p.writer.gone = false := Stage.gone_eq_false_of_turn ht
    have hrank : ¬ 4 ≤ p.phase.rank := fun hp => by simp [h.stored hp] at ho
    exact { h with
      writer := h.writer.turn ht
      toWriter := (h.writer.gone_turn ht).2.trans h.toWriter
      stored := fun hp => absurd hp hrank }
  | load hi => exact h.of_kept rfl rfl (.advance h.loader hi _) hs hw
  | endLoad hi => exact h.of_kept rfl rfl (.finish h.loader hi _) hs hw
  | loadFails hi => exact h.of_kept rfl rfl (.finish h.loader hi _) hs hw
  | emit hi =>
    have hopen := h.synthesizer_open (h.loader.gone_of_running hi)
    exact h.of_kept rfl rfl (.advance h.loader hi _) (.send h.synthesizer hopen _) hw
  | render hi => exact h.of_kept rfl rfl hl (.advance h.synthesizer hi _) hw
  | renderFails hi => exact h.of_kept rfl rfl hl (.finish h.synthesizer hi _) hw
  | pass hi =>
    have hopen := h.writer_open (h.synthesizer.gone_of_running hi)
    exact h.of_kept rfl rfl hl (.finish h.synthesizer hi _) (.send h.writer hopen _)
  | number hi | create hi | write hi => exact h.of_kept rfl rfl hl hs (.advance h.writer hi _)
  | endStore hi | refuse hi => exact h.of_kept rfl rfl hl hs (.finish h.writer hi _)

/-! ## Histories -/

/-- The moves that have led from `start` to a run, with all that they tell. -/
inductive History (lang : Language) (config : Config) (start : Progress) : (log : Log) → Progress → Prop
  | nil : History lang config start {} start
  | snoc {log more : Log} {p q : Progress} (h : History lang config start log p) (hc : p.Closing)
    (hm : Move lang config p more q) : History lang config start (log.append more) q

theorem History.closing {start : Progress} (hs : start.Closing) {log : Log} (h : History lang config start log p) :
    p.Closing := by
  cases h with
  | nil => exact hs
  | snoc _ hc hm => exact hc.move hm

/-- What is read in a move is read from the files as they stand then. -/
theorem Move.files_of_mem {log : Log} (hm : Move lang config p log q) {r : Reading} (hr : r ∈ log.readings) :
    r.files = p.files := by
  cases hm with
  | load => rw [List.mem_singleton.mp hr]
  | loadFails => rw [List.mem_singleton.mp hr]
  | _ => cases hr

/-- At some time of a schedule the files are `fs`. -/
def StandDuring (lang : Language) (config : Config) (start : Progress) (schedule : List Event)
    (fs : FileSystem) : Prop :=
  ∃ past rest q, schedule = past ++ rest ∧ start.performAll lang config past = some q ∧ q.files = fs

theorem StandDuring.append {start : Progress} {schedule : List Event} {fs : FileSystem}
    (h : StandDuring lang config start schedule fs) (more : List Event) :
    StandDuring lang config start (schedule ++ more) fs := by
  obtain ⟨past, rest, q, rfl, hq⟩ := h
  exact ⟨past, rest ++ more, q, List.append_assoc .., hq⟩

/-- Whatever a schedule adds to a history makes a history. -/
theorem History.performAll {start : Progress} (hs : start.Closing) {log : Log}
    (h : History lang config start log p) {past : List Event}
    (hpast : start.performAll lang config past = some p)
    (hread : ∀ r ∈ log.readings, StandDuring lang config start past r.files) {schedule : List Event}
    (hp : p.performAll lang config schedule = some q) :
    ∃ log', History lang config start log' q ∧
      log'.storings = log.storings ++ p.storings lang config schedule ∧
      ∀ r ∈ log'.readings, StandDuring lang config start (past ++ schedule) r.files := by
  induction schedule generalizing log p past with
  | nil =>
    cases hp
    refine ⟨log, h, ?_, ?_⟩
    · rw [Progress.storings, List.append_nil]
    · rw [List.append_nil]
      exact hread
  | cons e schedule ih =>
    simp only [Progress.performAll, List.foldlM_cons, Option.bind_eq_bind, Option.bind_eq_some_iff] at hp
    obtain ⟨next, he, hnext⟩ := hp
    obtain ⟨more, hm, hstored⟩ := (h.closing hs).exists_move he
    have hpast' : start.performAll lang config (past ++ [e]) = some next := by
      rw [performAll_append, hpast, Option.bind_some]
      simp [Progress.performAll, he]
    have hread' : ∀ r ∈ (log.append more).readings, StandDuring lang config start (past ++ [e]) r.files := by
      intro r hr
      rcases List.mem_append.mp hr with hr | hr
      · exact (hread r hr).append [e]
      · exact ⟨past, [e], p, rfl, hpast, (hm.files_of_mem hr).symm⟩
    obtain ⟨log', hlog', hstorings, hstand⟩ := ih (h.snoc (h.closing hs) hm) hpast' hread' hnext
    refine ⟨log', hlog', ?_, ?_⟩
    · rw [hstorings, Progress.storings, he, ← hstored]
      exact List.append_assoc ..
    · rwa [List.append_assoc] at hstand

/-- Every schedule is a history. All that is read in it is read from the files of their time, and it stores what the
schedule does. -/
theorem exists_history {inputs : List String} {load synth write : Nat} (hp : AllWorkable load synth write)
    {fs : FileSystem} {schedule : List Event}
    (h : (start inputs load synth write fs).performAll lang config schedule = some p) :
    ∃ log, History lang config (start inputs load synth write fs) log p ∧
      log.storings = (start inputs load synth write fs).storings lang config schedule ∧
      ∀ r ∈ log.readings, StandDuring lang config (start inputs load synth write fs) schedule r.files := by
  have hstart : (start inputs load synth write fs).performAll lang config [] =
    some (start inputs load synth write fs) := rfl
  exact History.nil.performAll (.start inputs hp fs) hstart (fun r hr => nomatch hr) h

end Progress

end TestScaffold.Generation
