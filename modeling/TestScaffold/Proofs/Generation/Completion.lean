import Mathlib.Algebra.Order.Ring.Nat
import TestScaffold.Proofs.Generation.Filing

/-!
# Runs come to their end

No schedule goes on for ever, since every move brings an item further or closes something, and none gets stuck: as
long as a run is not over something can happen, provided that every stage may run at least one job and can give its
permits. So whatever has happened so far, the run can be brought to its end.

Results:
* `Progress.measure_move`: every move makes less of what is left to do.
* `Progress.History.exists_perform`: a run that is not over can go on.
* `Progress.exists_completion`: any schedule can be completed.
-/

namespace TestScaffold.Generation

/-! ## What is left to do in a stage -/

/-- How far a dispatcher is from its end. -/
def Status.rest : Status → Nat
  | .spawned => 2
  | .working => 1
  | .returned | .broken => 0

namespace Stage

variable {ι σ : Type}

/-- What is left to do in a stage: a waiting item counts more than any job, and a job more than its result. -/
def weight (wait : ι → Nat) (job : ι × σ → Nat) (s : Stage ι σ) : Nat :=
  (s.queue.map fun x => wait x + 1).sum + (s.hand.toList.map wait).sum + (s.running.map job).sum
    + 2 * s.leaving.length + s.unreaped.length + s.status.rest

theorem weight_turn_lt {wait : ι → Nat} {job : ι × σ → Nat} {fresh : σ} (hf : ∀ x, job (x, fresh) < wait x)
    {s t : Stage ι σ} {move : Turn} (h : s.turn fresh move = some t) : t.weight wait job < s.weight wait job := by
  cases turn_eq_some_iff.mp h with
  | begin hstatus =>
    simp only [weight, hstatus, Status.rest]
    omega
  | breakDown hstatus =>
    simp only [weight, hstatus, Status.rest, List.map_nil, List.sum_nil]
    omega
  | take _ hhand hqueue =>
    simp only [weight, hhand, hqueue, Option.toList_none, Option.toList_some, List.map_cons, List.map_nil,
      List.sum_cons, List.sum_nil]
    omega
  | @start x n _ hhand =>
    have hx : job (x, fresh) < wait x := hf x
    simp only [weight, hhand, Option.toList_none, Option.toList_some, List.map_append, List.map_cons, List.map_nil,
      List.sum_append, List.sum_cons, List.sum_nil]
    omega
  | @leave i f _ hleaving =>
    obtain ⟨hi, -⟩ := List.getElem?_eq_some_iff.mp hleaving
    simp only [weight, List.length_eraseIdx, if_pos hi, List.length_append, List.length_singleton]
    omega
  | reap _ hunreaped =>
    simp only [weight, hunreaped, List.length_cons]
    omega
  | finish hstatus =>
    simp only [weight, hstatus, Status.rest]
    omega

@[simp] theorem weight_close (wait : ι → Nat) (job : ι × σ → Nat) (s : Stage ι σ) :
    s.close.weight wait job = s.weight wait job := rfl

theorem weight_send (wait : ι → Nat) (job : ι × σ → Nat) (s : Stage ι σ) (x : ι) :
    (s.send x).weight wait job = s.weight wait job + (wait x + 1) := by
  simp only [weight, send, List.map_append, List.map_cons, List.map_nil, List.sum_append, List.sum_cons, List.sum_nil]
  omega

/-- A job that goes on changes its own weight only. -/
theorem weight_advance {s : Stage ι σ} {i : Nat} {x : ι} {progress : σ}
    (h : s.running[i]? = some (x, progress)) (wait : ι → Nat) (job : ι × σ → Nat) (next : σ) :
    (s.advance i next).weight wait job + job (x, progress) = s.weight wait job + job (x, next) := by
  obtain ⟨front, back, hr, ha, -, -⟩ := exists_running_split h
  have hsum : ((s.advance i next).running.map job).sum + job (x, progress)
      = (s.running.map job).sum + job (x, next) := by
    rw [ha, hr]
    simp only [List.map_append, List.map_cons, List.sum_append, List.sum_cons]
    omega
  simp only [weight] at hsum ⊢
  simp only [advance] at hsum ⊢
  omega

/-- A job that ends leaves its result. -/
theorem weight_finish {s : Stage ι σ} {i : Nat} {x : ι} {progress : σ}
    (h : s.running[i]? = some (x, progress)) (wait : ι → Nat) (job : ι × σ → Nat) (error : Option GenerationError) :
    (s.finish i error).weight wait job + job (x, progress) = s.weight wait job + 2 := by
  obtain ⟨front, back, hr, -, hf, -⟩ := exists_running_split h
  have hsum : ((s.finish i error).running.map job).sum + job (x, progress) = (s.running.map job).sum := by
    rw [hf, hr]
    simp only [List.map_append, List.map_cons, List.sum_append, List.sum_cons]
    omega
  simp only [weight] at hsum ⊢
  simp only [finish_eq h, List.length_append, List.length_singleton] at hsum ⊢
  omega

/-- A dispatcher that is there, and to which nothing more can come, has something to do, or else one of its jobs has. -/
theorem exists_turn_or_running {s : Stage ι σ} (fresh : σ) (hn : s.senders = 0) (hg : s.gone = false)
    (hw : 0 < s.width) : (∃ move t, s.turn fresh move = some t) ∨ ∃ job, s.running[0]? = some job := by
  cases hstatus : s.status with
  | returned => simp [gone, hstatus] at hg
  | broken => simp [gone, hstatus] at hg
  | spawned =>
    refine .inl ⟨.begin, ?_⟩
    rcases Nat.lt_or_ge maxPermits s.permits with hp | hp
    · exact ⟨_, turn_eq_some_iff.mpr (.breakDown hstatus hp)⟩
    · exact ⟨_, turn_eq_some_iff.mpr (.begin hstatus hp)⟩
  | working =>
    cases hrun : s.running with
    | cons job rest => exact .inr ⟨job, rfl⟩
    | nil =>
      refine .inl ?_
      have hpermits : 0 < s.permits := by simpa [width, hrun] using hw
      obtain ⟨n, hp⟩ : ∃ n, s.permits = n + 1 := ⟨s.permits - 1, by omega⟩
      cases hh : s.hand with
      | some x => exact ⟨.start, _, turn_eq_some_iff.mpr (.start hstatus hh hp)⟩
      | none =>
        cases hq : s.queue with
        | cons x rest => exact ⟨.take, _, turn_eq_some_iff.mpr (.take hstatus hh hq)⟩
        | nil =>
          cases hl : s.leaving with
          | cons f rest => exact ⟨.leave 0, _, turn_eq_some_iff.mpr (.leave hstatus (by rw [hl]; rfl))⟩
          | nil =>
            cases hu : s.unreaped with
            | cons f rest => exact ⟨.reap, _, turn_eq_some_iff.mpr (.reap hstatus hu)⟩
            | nil =>
              have hdrained := isDrained_iff.mpr ⟨hn, hq, hh, hrun, hl, hu⟩
              exact ⟨.finish, _, turn_eq_some_iff.mpr (.finish hstatus hdrained)⟩

end Stage

namespace Progress

variable {lang : Language} {config : Config} {p q : Progress} {log : Log}

/-! ## What is left to do in a run -/

/-- The weight of a job of the first stage. -/
def loadWeight : String × Option (List TypeRequest) → Nat
  | (_, none) => 4
  | (_, some _) => 3

/-- The weight of a job of the second stage. -/
def synthesizeWeight : TypeRequest × Option TestUnit → Nat
  | (_, none) => 4
  | (_, some _) => 3

/-- The weight of a job of the third stage: what it has still to write counts byte by byte. -/
def writeWeight : TestUnit × Filing → Nat
  | (u, .unnumbered) => (Text.encode u.text).length + 5
  | (u, .numbered _) => (Text.encode u.text).length + 4
  | (u, .opened _ _ written) => (Text.encode u.text).length - written + 3

/-- The weight of a unit that waits for its job. -/
def unitWeight (u : TestUnit) : Nat := (Text.encode u.text).length + 6

/-- What is left to do with inputs, then with the types found in them, and then with the units made for these. -/
def measure (p : Progress) : Nat × Nat × Nat :=
  (4 - p.phase.rank + 7 * p.unsent.length + p.loader.weight (fun _ => 5) loadWeight,
    7 * (p.loader.pending owed fun _ => []).length + p.synthesizer.weight (fun _ => 5) synthesizeWeight,
    p.writer.weight unitWeight writeWeight)

/-- Every move makes less of what is left to do. Only loading an input finds more types, and only making a unit for a
type leaves something to write. -/
theorem measure_move (hm : Move lang config p log q) :
    Prod.Lex (· < ·) (Prod.Lex (· < ·) (· < ·)) q.measure p.measure := by
  cases hm with
  | submit hp =>
    refine .left _ _ ?_
    simp only [Stage.weight_send, unsent, hp, Phase.rank_submitting, List.length_cons]
    omega
  | allSubmitted hp =>
    refine .left _ _ ?_
    simp only [Stage.weight_close, unsent, hp, Phase.rank_submitting, Phase.rank_loading, List.length_nil]
    omega
  | loaded hp | synthesized hp | allStored hp =>
    refine .left _ _ ?_
    simp only [unsent, hp, Phase.rank_loading, Phase.rank_synthesizing, Phase.rank_storing, Phase.rank_over,
      List.length_nil]
    omega
  | @loaderTurn t s ht =>
    have hlt : s.weight (fun _ => 5) loadWeight < p.loader.weight (fun _ => 5) loadWeight :=
      Stage.weight_turn_lt (fun _ => by simp [loadWeight]) ht
    refine .left _ _ ?_
    simp only [unsent]
    omega
  | @load i input requests hi =>
    have hadvance := Stage.weight_advance hi (fun _ => 5) loadWeight (some requests)
    simp only [loadWeight] at hadvance
    refine .left _ _ ?_
    simp only [unsent]
    omega
  | @loadFails i input e hi =>
    have hfinish := Stage.weight_finish hi (fun _ => 5) loadWeight (some e)
    simp only [loadWeight] at hfinish
    refine .left _ _ ?_
    simp only [unsent]
    omega
  | endLoad hi =>
    have hfinish := Stage.weight_finish hi (fun _ => 5) loadWeight none
    simp only [loadWeight] at hfinish
    refine .left _ _ ?_
    simp only [unsent]
    omega
  | @emit i input request requests hi =>
    obtain ⟨front, back, hp, ha, -, -⟩ := Stage.exists_pending_split hi owed fun _ => []
    have hadvance := Stage.weight_advance hi (fun _ => 5) loadWeight (some requests)
    simp only [loadWeight, Nat.add_right_cancel_iff] at hadvance
    simp only [measure, unsent, hadvance, ha, hp, owed, Stage.weight_send, List.length_append, List.length_cons]
    refine .right _ (.left _ _ ?_)
    omega
  | @synthesizerTurn t s ht =>
    have hlt : s.weight (fun _ => 5) synthesizeWeight < p.synthesizer.weight (fun _ => 5) synthesizeWeight :=
      Stage.weight_turn_lt (fun _ => by simp [synthesizeWeight]) ht
    refine .right _ (.left _ _ ?_)
    dsimp only
    omega
  | @render i request u hi =>
    have hadvance := Stage.weight_advance hi (fun _ => 5) synthesizeWeight (some u)
    simp only [synthesizeWeight] at hadvance
    refine .right _ (.left _ _ ?_)
    dsimp only
    omega
  | @renderFails i request e hi =>
    have hfinish := Stage.weight_finish hi (fun _ => 5) synthesizeWeight (some e)
    simp only [synthesizeWeight] at hfinish
    refine .right _ (.left _ _ ?_)
    dsimp only
    omega
  | pass hi =>
    have hfinish := Stage.weight_finish hi (fun _ => 5) synthesizeWeight none
    simp only [synthesizeWeight] at hfinish
    refine .right _ (.left _ _ ?_)
    dsimp only
    omega
  | @writerTurn t s ht =>
    have hlt : s.weight unitWeight writeWeight < p.writer.weight unitWeight writeWeight :=
      Stage.weight_turn_lt (fun _ => by simp [unitWeight, writeWeight]) ht
    exact .right _ (.right _ hlt)
  | number hi =>
    have hadvance := Stage.weight_advance hi unitWeight writeWeight (.numbered p.nextId)
    simp only [writeWeight] at hadvance
    refine .right _ (.right _ ?_)
    dsimp only
    omega
  | @create i id file u files hi =>
    have hadvance := Stage.weight_advance hi unitWeight writeWeight (.opened id file 0)
    simp only [writeWeight] at hadvance
    refine .right _ (.right _ ?_)
    dsimp only
    omega
  | @write i id file written count u hi =>
    have hadvance := Stage.weight_advance hi unitWeight writeWeight (.opened id file (written + count))
    simp only [writeWeight] at hadvance
    refine .right _ (.right _ ?_)
    dsimp only
    omega
  | endStore hi =>
    have hfinish := Stage.weight_finish hi unitWeight writeWeight none
    simp only [writeWeight] at hfinish
    refine .right _ (.right _ ?_)
    dsimp only
    omega
  | @refuse i id u filing cause hi =>
    have hfinish := Stage.weight_finish hi unitWeight writeWeight
      (some (.write (outputPath lang config.output id) u.typeName cause))
    have hjob : 2 < writeWeight (u, filing) := by cases filing <;> simp only [writeWeight] <;> omega
    refine .right _ (.right _ ?_)
    dsimp only
    omega

/-! ## Something can always happen -/

/-- A job of the first stage can go on. -/
theorem exists_perform_of_loading (lang : Language) (config : Config) {job : String × Option (List TypeRequest)}
    (hj : p.loader.running[0]? = some job) : ∃ e q, p.perform lang config e = some q := by
  obtain ⟨input, progress⟩ := job
  cases progress with
  | none =>
    refine ⟨.read 0, ?_⟩
    simp only [perform, Progress.read, hj]
    split
    · exact ⟨_, rfl⟩
    · exact ⟨_, rfl⟩
  | some requests =>
    cases requests with
    | nil => exact ⟨.endLoad 0, _, by simp [perform, Progress.endLoad, hj]; rfl⟩
    | cons request requests =>
      refine ⟨.emit 0, ?_⟩
      simp only [perform, Progress.emit, hj]
      split
      · exact ⟨_, rfl⟩
      · exact ⟨_, rfl⟩

/-- A job of the second stage can go on. -/
theorem exists_perform_of_synthesizing (lang : Language) (config : Config) {job : TypeRequest × Option TestUnit}
    (hj : p.synthesizer.running[0]? = some job) : ∃ e q, p.perform lang config e = some q := by
  obtain ⟨request, progress⟩ := job
  cases progress with
  | none =>
    refine ⟨.render 0, ?_⟩
    simp only [perform, Progress.render, hj]
    split
    · exact ⟨_, rfl⟩
    · exact ⟨_, rfl⟩
  | some u =>
    refine ⟨.pass 0, ?_⟩
    simp only [perform, Progress.pass, hj]
    split
    · exact ⟨_, rfl⟩
    · exact ⟨_, rfl⟩

/-- A job of the third stage can go on, as long as it has written no more than its unit. -/
theorem exists_perform_of_storing (lang : Language) (config : Config) {u : TestUnit} {filing : Filing}
    (hj : p.writer.running[0]? = some (u, filing))
    (hle : ∀ id file written, filing = .opened id file written → written ≤ (Text.encode u.text).length) :
    ∃ e q, p.perform lang config e = some q := by
  cases filing with
  | unnumbered => exact ⟨.number 0, _, by simp [perform, Progress.number, hj]; rfl⟩
  | numbered id =>
    refine ⟨.create 0, ?_⟩
    simp only [perform, Progress.create, hj]
    split
    · exact ⟨_, rfl⟩
    · exact ⟨_, rfl⟩
  | opened id file written =>
    rcases Nat.eq_or_lt_of_le (hle id file written rfl) with heq | hlt
    · exact ⟨.endStore 0, _, by simp [perform, Progress.endStore, hj, heq]; rfl⟩
    · refine ⟨.write 0 ((Text.encode u.text).length - written), ?_⟩
      simp only [perform, Progress.write, hj]
      rw [if_pos ⟨by omega, by omega⟩]
      exact ⟨_, rfl⟩

section

variable {inputs : List String} {load synth write : Nat} {before : FileSystem}

/-- As long as a run is not over something can happen. -/
theorem History.exists_perform (h : History lang config (start inputs load synth write before) log p)
    (hall : AllWorkable load synth write) (hp : p.phase ≠ .over) : ∃ e q, p.perform lang config e = some q := by
  have hc := h.closing (.start inputs hall before)
  obtain ⟨hl, hs, hw⟩ := hall
  obtain ⟨hlw, hsw, hww⟩ := h.widths
  cases hphase : p.phase with
  | submitting inputs =>
    cases inputs with
    | nil => exact ⟨.proceed, _, by simp [perform, Progress.proceed, hphase]; rfl⟩
    | cons input inputs =>
      refine ⟨.submit, ?_⟩
      simp only [perform, Progress.submit, hphase]
      split
      · exact ⟨_, rfl⟩
      · exact ⟨_, rfl⟩
  | loading =>
    cases hg : p.loader.gone with
    | true => exact ⟨.proceed, _, by simp [perform, Progress.proceed, hphase, hg]; rfl⟩
    | false =>
      have hn : p.loader.senders = 0 := by simp [hc.toLoader, hphase]
      rcases Stage.exists_turn_or_running none hn hg (hlw ▸ hl.1) with ⟨move, t, ht⟩ | ⟨job, hj⟩
      · exact ⟨.loaderTurn move, _, by simp [perform, Progress.loaderTurn, ht]; rfl⟩
      · exact exists_perform_of_loading lang config hj
  | synthesizing =>
    cases hg : p.synthesizer.gone with
    | true => exact ⟨.proceed, _, by simp [perform, Progress.proceed, hphase, hg]; rfl⟩
    | false =>
      have hlg : p.loader.gone = true := hc.loaded (by simp [hphase])
      have hn : p.synthesizer.senders = 0 := by simp [hc.toSynthesizer, hphase, hlg]
      rcases Stage.exists_turn_or_running none hn hg (hsw ▸ hs.1) with ⟨move, t, ht⟩ | ⟨job, hj⟩
      · exact ⟨.synthesizerTurn move, _, by simp [perform, Progress.synthesizerTurn, ht]; rfl⟩
      · exact exists_perform_of_synthesizing lang config hj
  | storing =>
    cases hg : p.writer.gone with
    | true => exact ⟨.proceed, _, by simp [perform, Progress.proceed, hphase, hg]; rfl⟩
    | false =>
      have hsg : p.synthesizer.gone = true := hc.synthesized (by simp [hphase])
      have hn : p.writer.senders = 0 := by simp [hc.toWriter, hphase, hsg]
      rcases Stage.exists_turn_or_running .unnumbered hn hg (hww ▸ hw.1) with ⟨move, t, ht⟩ | ⟨⟨u, filing⟩, hj⟩
      · exact ⟨.writerTurn move, _, by simp [perform, Progress.writerTurn, ht]; rfl⟩
      · refine exists_perform_of_storing lang config hj fun id file written he => ?_
        exact (h.filed.opened u id file written (he ▸ List.mem_of_getElem? hj)).1
  | _ => exact absurd hphase hp

/-! ## The end of a run -/

/-- Whatever the history of a run, it can be brought to its end. -/
theorem History.exists_completion {log : Log} {p : Progress}
    (h : History lang config (start inputs load synth write before) log p) (hall : AllWorkable load synth write) :
    ∃ rest q, p.performAll lang config rest = some q ∧ q.phase = .over := by
  by_cases hp : p.phase = .over
  · exact ⟨[], p, rfl, hp⟩
  · obtain ⟨e, q, he⟩ := h.exists_perform hall hp
    have hc := h.closing (.start inputs hall before)
    obtain ⟨more, hm, -⟩ := hc.exists_move he
    have hless : Prod.Lex (· < ·) (Prod.Lex (· < ·) (· < ·)) q.measure p.measure := measure_move hm
    obtain ⟨rest, r, hr, hover⟩ := (h.snoc hc hm).exists_completion hall
    refine ⟨e :: rest, r, ?_, hover⟩
    simpa [Progress.performAll, he] using hr
termination_by p.measure
decreasing_by exact hless

/-- Whatever has happened so far, a run can be brought to its end. -/
theorem exists_completion (hall : AllWorkable load synth write) {schedule : List Event}
    (h : (start inputs load synth write before).performAll lang config schedule = some p) :
    ∃ rest q, p.performAll lang config rest = some q ∧ q.phase = .over := by
  obtain ⟨log, hh, -⟩ := exists_history hall h
  exact hh.exists_completion hall

end

end Progress

/-- Every run can come to an end. -/
theorem exists_ends (lang : Language) (config : Config) (inputs : List String) {load synth write : Nat}
    (before : FileSystem) (hall : AllWorkable load synth write) :
    ∃ o after, Ends lang config inputs load synth write before o after := by
  have hstart : (Progress.start inputs load synth write before).performAll lang config [] =
    some (Progress.start inputs load synth write before) := rfl
  obtain ⟨rest, q, hq, hover⟩ := Progress.exists_completion hall hstart
  exact ⟨_, _, rest, q, hq, hover, rfl, rfl⟩

end TestScaffold.Generation
