import Mathlib.Data.List.Perm.Basic
import TestScaffold.Proofs.Generation.Moves

/-!
# Stages and their dispatchers

`Stage.perform` lets senders, jobs and the dispatcher act in any order. What has been sent, started and finished on the
way is told as a history, and a stage accounts for all of it: each item in one place, each permit free or held by a job,
each error seen by the dispatcher or still to be seen.

`Stage.turn` also lets the dispatcher have its turns in any order, and does not let it return too early. The dispatcher
itself is a loop: it makes its permits, takes an item off the queue, waits for a permit, starts the item, reaps the jobs
that have ended by then, and takes the next one. When nothing more can come, it reaps until there is no job left, and
returns without looking at anything else. The stage never refuses it a turn, so nothing that the loop relies on is only
the guard of a turn.

All this holds for a dispatcher that can give its permits. One that cannot loses what has been sent to it
(`not_orderly_oversized`).

Results:
* `Stage.Reached.accounted`: what a stage accounts for, in every state it can reach.
* `Dispatcher.Reached.placed`, `Dispatcher.Placed.exists_turn`: the loop is where its stage lets it go on.
* `Dispatcher.Placed.next_eq_none_iff`: what the loop waits for.
* `Dispatcher.stage_orderly`: permits, items, errors, waiting and return in every interleaving.
-/

namespace TestScaffold.Generation

/-- What has happened to a stage: the items sent to it, those whose work was started, and the jobs that have ended, each
in the order in which it happened. -/
structure History (ι : Type) where
  sent : List ι := []
  started : List ι := []
  finished : List (Finished ι) := []

/-- The history behind an event that happens to a stage. -/
def History.add {ι σ : Type} (k : History ι) (s : Stage ι σ) : Stage.Event ι σ → History ι
  | .send x => { k with sent := k.sent ++ [x] }
  | .turn .start => { k with started := k.started ++ s.hand.toList }
  | .turn (.leave i) => { k with finished := k.finished ++ s.leaving[i]?.toList }
  | _ => k

namespace Stage

variable {ι σ : Type} {fresh : σ} {p : Nat} {k : History ι} {s t : Stage ι σ}

/-! ## What a stage accounts for -/

/-- A stage with a number of permits, before anything has happened. Its handle is the one sender. -/
def spawn (p : Nat) : Stage ι σ := { permits := p, senders := 1 }

/-- The states that a stage can reach in any interleaving of its senders, its jobs and its dispatcher, with what has
happened on the way. -/
inductive Reached (fresh : σ) (p : Nat) : History ι → Stage ι σ → Prop
  | spawn : Reached fresh p {} (.spawn p)
  | perform {k : History ι} {s t : Stage ι σ} {e : Event ι σ} (h : Reached fresh p k s)
      (he : s.perform fresh e = some t) : Reached fresh p (k.add s e) t

/-- What every event keeps. -/
structure Accounted (p : Nat) (k : History ι) (s : Stage ι σ) : Prop where
  width : s.width = p
  /-- Items are started in the order in which they are sent. -/
  sent : k.sent = k.started ++ (s.hand.toList ++ s.queue)
  started : k.started.Perm (s.running.map Prod.fst ++ s.leaving.map Finished.item ++ k.finished.map Finished.item)
  finished : k.finished = s.reaped ++ s.unreaped
  settled : s.Settled

/-- What is taken out of a list may as well stand behind the rest. -/
theorem perm_map_eraseIdx {α β : Type} {l : List α} {i : Nat} {x : α} (h : l[i]? = some x) (f : α → β) :
    (l.map f).Perm ((l.eraseIdx i).map f ++ [f x]) := by
  obtain ⟨hi, rfl⟩ := List.getElem?_eq_some_iff.mp h
  exact ((List.getElem_cons_eraseIdx_perm hi).symm.map f).trans (List.perm_append_singleton _ _).symm

namespace Accounted

theorem spawn (hp : p ≤ maxPermits) : Accounted p {} (.spawn p : Stage ι σ) where
  width := rfl
  sent := rfl
  started := .refl _
  finished := rfl
  settled := .spawn hp

theorem turn {move : Turn} (h : Accounted p k s) (ht : s.turn fresh move = some t) :
    Accounted p (k.add s (.turn move)) t := by
  have hsettled := h.settled.turn ht
  have hwidth := (width_turn ht).trans h.width
  cases turn_eq_some_iff.mp ht with
  | begin => exact ⟨hwidth, h.sent, h.started, h.finished, hsettled⟩
  | breakDown _ hpermits => exact absurd h.settled.permits_le (Nat.not_le.mpr hpermits)
  | take _ hhand hqueue =>
    refine ⟨hwidth, ?_, h.started, h.finished, hsettled⟩
    have hsent := h.sent
    rwa [hhand, hqueue] at hsent
  | @start x n _ hhand =>
    have hsent : k.sent = k.started ++ [x] ++ s.queue := by
      rw [h.sent, hhand, List.append_assoc]
      rfl
    refine ⟨hwidth, by rw [History.add, hhand]; exact hsent, ?_, h.finished, hsettled⟩
    rw [History.add, hhand, List.map_append, List.append_assoc, List.append_assoc]
    calc (k.started ++ [x]).Perm
          ((s.running.map Prod.fst ++ s.leaving.map Finished.item ++ k.finished.map Finished.item) ++ [x]) :=
          h.started.append_right [x]
      _ = s.running.map Prod.fst ++ ((s.leaving.map Finished.item ++ k.finished.map Finished.item) ++ [x]) := by
          rw [List.append_assoc, List.append_assoc, List.append_assoc]
      List.Perm _ (s.running.map Prod.fst ++ ([x] ++ (s.leaving.map Finished.item ++ k.finished.map Finished.item))) :=
          List.perm_append_comm.append_left _
  | @leave i f _ hleaving =>
    have hitems := perm_map_eraseIdx hleaving Finished.item
    refine ⟨hwidth, by rw [History.add]; exact h.sent, ?_, ?_, hsettled⟩
    · rw [History.add, hleaving, Option.toList_some, List.map_append]
      calc k.started.Perm
            (s.running.map Prod.fst ++ s.leaving.map Finished.item ++ k.finished.map Finished.item) := h.started
        List.Perm _ (s.running.map Prod.fst ++ ((s.leaving.eraseIdx i).map Finished.item ++ [f.item]) ++
            k.finished.map Finished.item) := (hitems.append_left _).append_right _
        _ = s.running.map Prod.fst ++ (s.leaving.eraseIdx i).map Finished.item ++
            ([f.item] ++ k.finished.map Finished.item) := by
            rw [← List.append_assoc, List.append_assoc _ [f.item]]
        List.Perm _ (s.running.map Prod.fst ++ (s.leaving.eraseIdx i).map Finished.item ++
            (k.finished.map Finished.item ++ [f.item])) := List.perm_append_comm.append_left _
    · rw [History.add, hleaving, Option.toList_some, h.finished, List.append_assoc]
  | reap _ hunreaped =>
    refine ⟨hwidth, h.sent, h.started, ?_, hsettled⟩
    have hfinished := h.finished
    rw [hunreaped] at hfinished
    rw [List.append_assoc]
    exact hfinished
  | finish => exact ⟨hwidth, h.sent, h.started, h.finished, hsettled⟩

theorem finish {i : Nat} {job : ι × σ} (h : Accounted p k s) (hi : s.running[i]? = some job)
    (error : Option GenerationError) : Accounted p (k.add s (.finish i error)) (s.finish i error) := by
  have hjobs := perm_map_eraseIdx hi Prod.fst
  have hkept := Kept.finish h.settled hi error
  refine ⟨(width_finish hi error).trans h.width, ?_, ?_, ?_, hkept.settled⟩
  · rw [finish_eq hi]
    exact h.sent
  · rw [finish_eq hi, List.map_append]
    calc k.started.Perm (s.running.map Prod.fst ++ s.leaving.map Finished.item ++ k.finished.map Finished.item) :=
          h.started
      List.Perm _ ((s.running.eraseIdx i).map Prod.fst ++ [job.1] ++ s.leaving.map Finished.item ++
          k.finished.map Finished.item) := (hjobs.append_right _).append_right _
      _ = (s.running.eraseIdx i).map Prod.fst ++ ([job.1] ++ s.leaving.map Finished.item) ++
          k.finished.map Finished.item := by rw [List.append_assoc _ [job.1]]
      List.Perm _ ((s.running.eraseIdx i).map Prod.fst ++ (s.leaving.map Finished.item ++ [job.1]) ++
          k.finished.map Finished.item) := (List.perm_append_comm.append_left _).append_right _
  · rw [finish_eq hi]
    exact h.finished

theorem advance {i : Nat} {job : ι × σ} (h : Accounted p k s) (hi : s.running[i]? = some job) (progress : σ) :
    Accounted p (k.add s (.advance i progress)) (s.advance i progress) := by
  have hjobs : (s.advance i progress).running.map Prod.fst = s.running.map Prod.fst := by
    obtain ⟨front, back, hrunning, hadvance, -, -⟩ := exists_running_split hi
    rw [hadvance, hrunning, List.map_append, List.map_append, List.map_cons, List.map_cons]
  refine ⟨(width_advance s i progress).trans h.width, h.sent, ?_, h.finished, (Kept.advance h.settled hi progress).settled⟩
  rw [hjobs]
  exact h.started

/-- One event keeps what a stage accounts for. -/
theorem perform {e : Event ι σ} (h : Accounted p k s) (he : s.perform fresh e = some t) :
    Accounted p (k.add s e) t := by
  cases e with
  | turn move => exact h.turn he
  | send x =>
    simp only [Stage.perform] at he
    split at he <;> cases he
    rename_i hsend
    have hgone : s.gone = false := by simpa using (not_or.mp hsend).2
    refine ⟨h.width, ?_, h.started, h.finished, (Kept.send h.settled hgone x).settled⟩
    rw [History.add, h.sent, List.append_assoc, List.append_assoc]
    rfl
  | share =>
    simp only [Stage.perform] at he
    split at he <;> cases he
    rename_i hsenders
    exact ⟨h.width, h.sent, h.started, h.finished,
      .of_gone_eq_false h.settled.width (h.settled.gone_of_senders hsenders)⟩
  | close =>
    simp only [Stage.perform] at he
    split at he <;> cases he
    exact ⟨h.width, h.sent, h.started, h.finished, h.settled.close⟩
  | advance i progress =>
    simp only [Stage.perform] at he
    split at he <;> cases he
    rename_i hi
    exact h.advance (List.getElem?_eq_getElem hi) progress
  | finish i error =>
    simp only [Stage.perform] at he
    split at he <;> cases he
    rename_i hi
    exact h.finish (List.getElem?_eq_getElem hi) error

end Accounted

/-- Every state is accounted for that a stage can reach with permits that can be given. -/
theorem Reached.accounted (h : Reached fresh p k s) (hp : p ≤ maxPermits) : Accounted p k s := by
  induction h with
  | spawn => exact .spawn hp
  | perform _ he ih => exact ih.perform he

/-- The rules of a stage, for its permits, its items, its errors and its dispatcher. -/
structure Orderly (p : Nat) (k : History ι) (s : Stage ι σ) : Prop where
  /-- Each job that is at work holds a permit, and the others are free. -/
  permits : s.running.length ≤ p ∧ s.permits = p - s.running.length
  /-- Every item that was sent is in the queue, in hand, a job, or finished, and is there as often as it was sent. A job
  that has given its permit back is one until it ends. -/
  places : k.sent.Perm (s.queue ++ s.hand.toList ++ (s.running.map Prod.fst ++ s.leaving.map Finished.item) ++
    k.finished.map Finished.item)
  /-- The work is started on the items in the order in which they were sent, on each of them once: none that has been
  started is in hand or in the queue. -/
  once : k.sent = k.started ++ s.hand.toList ++ s.queue ∧
    k.started.Perm (s.running.map Prod.fst ++ s.leaving.map Finished.item ++ k.finished.map Finished.item)
  /-- Each job that has ended with an error has one entry among the errors that are recorded and those still to be
  reaped, and no other job has one. -/
  errors : s.errors ++ s.unreaped.filterMap Finished.error = k.finished.filterMap Finished.error
  /-- While no job is at work there is a permit. -/
  free : s.running = [] → 0 < s.permits
  /-- The dispatcher does not break down. -/
  works : s.status ≠ .broken
  /-- Nothing is left behind a dispatcher that has returned, and nothing more can come. -/
  returned : s.status = .returned →
    s.senders = 0 ∧ s.queue = [] ∧ s.hand = none ∧ s.running = [] ∧ s.leaving = [] ∧ s.unreaped = []

theorem Accounted.orderly (h : Accounted p k s) (hp : 0 < p) : Orderly p k s := by
  have hwidth : s.permits + s.running.length = p := h.width
  refine ⟨by omega, ?_, ⟨?_, h.started⟩, ?_, ?_, h.settled.status, fun hr => ?_⟩
  · calc k.sent = k.started ++ (s.hand.toList ++ s.queue) := h.sent
      List.Perm _ ((s.hand.toList ++ s.queue) ++ k.started) := List.perm_append_comm
      List.Perm _ ((s.queue ++ s.hand.toList) ++ k.started) := List.perm_append_comm.append_right _
      List.Perm _ ((s.queue ++ s.hand.toList) ++
          (s.running.map Prod.fst ++ s.leaving.map Finished.item ++ k.finished.map Finished.item)) :=
          h.started.append_left _
      _ = s.queue ++ s.hand.toList ++ (s.running.map Prod.fst ++ s.leaving.map Finished.item) ++
          k.finished.map Finished.item := (List.append_assoc _ _ _).symm
  · rw [h.sent, List.append_assoc]
  · rw [h.finished, List.filterMap_append, errors]
  · intro hrunning
    rw [hrunning, List.length_nil] at hwidth
    omega
  · exact isDrained_iff.mp (h.settled.drained (by simp [gone, hr]))

end Stage

/-! ## The dispatcher's loop -/

/-- How the work on an item ends. -/
inductive Ending
  | succeeded
  | failed (e : GenerationError)
  /-- The work broke down, with a message. -/
  | panicked (message : String)

/-- What is recorded of a job that has ended, if anything. -/
def Ending.error? (kind : StageName) : Ending → Option GenerationError
  | .succeeded => none
  | .failed e => some e
  | .panicked message => some (.breakdown kind message)

/-- Where a dispatcher is in its loop. -/
inductive Position
  /-- It is about to make its permits. -/
  | starting
  /-- It waits for the next item. -/
  | receiving
  /-- It has an item in hand and waits for a permit. -/
  | acquiring
  /-- It has started an item and reaps what has ended by now. -/
  | reaping
  /-- No item can come any more, and it waits for the jobs that are left. -/
  | joining
  | ended
  /-- It has broken down. -/
  | down
  deriving DecidableEq, Repr

/-- What the dispatcher has come to there. -/
def Position.status : Position → Status
  | .starting => .spawned
  | .receiving | .acquiring | .reaping | .joining => .working
  | .ended => .returned
  | .down => .broken

/-- A stage and its dispatcher's place in the loop. -/
structure Dispatcher (ι σ : Type) where
  stage : Stage ι σ
  position : Position := .starting

/-- What can happen to a stage with its dispatcher. -/
inductive Act (ι σ : Type)
  | send (x : ι)
  | share
  | close
  | advance (i : Nat) (progress : σ)
  | finish (i : Nat) (ending : Ending)
  /-- A job that has given its permit back ends. -/
  | leave (i : Nat)
  /-- The dispatcher does what comes next in its loop. -/
  | step

namespace Dispatcher

variable {ι σ : Type} {kind : StageName} {fresh : σ} {p : Nat} {k : History ι} {d : Dispatcher ι σ}

/-- What the dispatcher does next, if it does anything to the stage, and where it is then; `none` while it waits. It
looks at the queue and its senders, at the free permits, or at its jobs, each where the loop does. -/
def next (d : Dispatcher ι σ) : Option (Option Turn × Position) :=
  match d.position with
  | .starting => some (some .begin, if d.stage.permits ≤ Stage.maxPermits then .receiving else .down)
  | .receiving =>
    if d.stage.queue.isEmpty then (if d.stage.senders = 0 then some (none, .joining) else none)
    else some (some .take, .acquiring)
  | .acquiring => if d.stage.permits = 0 then none else some (some .start, .reaping)
  | .reaping => if d.stage.unreaped.isEmpty then some (none, .receiving) else some (some .reap, .reaping)
  | .joining =>
    if d.stage.unreaped.isEmpty then
      (if d.stage.running.isEmpty && d.stage.leaving.isEmpty then some (some .finish, .ended) else none)
    else some (some .reap, .joining)
  | .ended | .down => none

/-- What an act is to the stage, if it is anything, and where the dispatcher is behind it. -/
def effect (kind : StageName) (d : Dispatcher ι σ) : Act ι σ → Option (Option (Stage.Event ι σ) × Position)
  | .send x => some (some (.send x), d.position)
  | .share => some (some .share, d.position)
  | .close => some (some .close, d.position)
  | .advance i progress => some (some (.advance i progress), d.position)
  | .finish i ending => some (some (.finish i (ending.error? kind)), d.position)
  | .leave i => some (some (.turn (.leave i)), d.position)
  | .step => d.next.map fun (turn?, position) => (turn?.map .turn, position)

/-- The states of a stage and its dispatcher in any interleaving, with what has happened on the way. -/
inductive Reached (kind : StageName) (fresh : σ) (p : Nat) : History ι → Dispatcher ι σ → Prop
  | spawn : Reached kind fresh p {} ⟨.spawn p, .starting⟩
  | event {k : History ι} {d : Dispatcher ι σ} {a : Act ι σ} {e : Stage.Event ι σ} {position : Position}
      {s : Stage ι σ} (h : Reached kind fresh p k d) (ha : d.effect kind a = some (some e, position))
      (he : d.stage.perform fresh e = some s) : Reached kind fresh p (k.add d.stage e) ⟨s, position⟩
  | silent {k : History ι} {d : Dispatcher ι σ} {a : Act ι σ} {position : Position}
      (h : Reached kind fresh p k d) (ha : d.effect kind a = some (none, position)) :
      Reached kind fresh p k ⟨d.stage, position⟩

/-- What an act does; `none` where it cannot happen. -/
def act (kind : StageName) (fresh : σ) (k : History ι) (d : Dispatcher ι σ) (a : Act ι σ) :
    Option (History ι × Dispatcher ι σ) :=
  match d.effect kind a with
  | some (some e, position) => (d.stage.perform fresh e).map fun s => (k.add d.stage e, ⟨s, position⟩)
  | some (none, position) => some (k, ⟨d.stage, position⟩)
  | none => none

/-- What some acts in a row do; `none` where one of them cannot happen. -/
def actAll (kind : StageName) (fresh : σ) (k : History ι) (d : Dispatcher ι σ) (acts : List (Act ι σ)) :
    Option (History ι × Dispatcher ι σ) :=
  acts.foldlM (fun run => act kind fresh run.1 run.2) (k, d)

theorem Reached.act {a : Act ι σ} {l : History ι} {e : Dispatcher ι σ} (h : Reached kind fresh p k d)
    (ha : d.act kind fresh k a = some (l, e)) : Reached kind fresh p l e := by
  simp only [Dispatcher.act] at ha
  split at ha
  · rename_i event position heffect
    obtain ⟨s, hs, hrun⟩ := Option.map_eq_some_iff.mp ha
    cases hrun
    exact .event h heffect hs
  · rename_i position heffect
    cases ha
    exact .silent h heffect
  · cases ha

theorem Reached.actAll {acts : List (Act ι σ)} {l : History ι} {e : Dispatcher ι σ} (h : Reached kind fresh p k d)
    (ha : d.actAll kind fresh k acts = some (l, e)) : Reached kind fresh p l e := by
  induction acts generalizing k d with
  | nil =>
    cases ha
    exact h
  | cons a acts ih =>
    rw [Dispatcher.actAll, List.foldlM_cons] at ha
    obtain ⟨run, hrun, hrest⟩ := Option.bind_eq_some_iff.mp ha
    exact ih (h.act hrun) hrest

/-- A stage with its dispatcher does nothing that the stage by itself cannot do. -/
theorem Reached.stage (h : Reached kind fresh p k d) : Stage.Reached fresh p k d.stage := by
  induction h with
  | spawn => exact .spawn
  | event _ _ he ih => exact ih.perform he
  | silent _ _ ih => exact ih

/-- What a dispatcher relies on at its place in the loop. -/
structure Placed (d : Dispatcher ι σ) : Prop where
  settled : d.stage.Settled
  status : d.stage.status = d.position.status
  hand : d.stage.hand.isSome = true ↔ d.position = .acquiring
  closed : d.position = .joining ∨ d.position = .ended → d.stage.senders = 0 ∧ d.stage.queue = []

/-- What the dispatcher has found where it goes on. -/
inductive Next (d : Dispatcher ι σ) : Option Turn → Position → Prop
  | make (hd : d.position = .starting) :
    Next d (some .begin) (if d.stage.permits ≤ Stage.maxPermits then .receiving else .down)
  | receive (hd : d.position = .receiving) (hqueue : d.stage.queue ≠ []) : Next d (some .take) .acquiring
  | close (hd : d.position = .receiving) (hqueue : d.stage.queue = []) (hsenders : d.stage.senders = 0) :
    Next d none .joining
  | acquire (hd : d.position = .acquiring) (hpermits : d.stage.permits ≠ 0) : Next d (some .start) .reaping
  | goOn (hd : d.position = .reaping) : Next d none .receiving
  | reap (hd : d.position = .reaping ∨ d.position = .joining) (hunreaped : d.stage.unreaped ≠ []) :
    Next d (some .reap) d.position
  | giveBack (hd : d.position = .joining) (hunreaped : d.stage.unreaped = []) (hrunning : d.stage.running = [])
    (hleaving : d.stage.leaving = []) : Next d (some .finish) .ended

theorem next_of_eq_some {turn? : Option Turn} {position : Position} (h : d.next = some (turn?, position)) :
    Next d turn? position := by
  rw [next] at h
  cases hd : d.position with
  | starting =>
    simp only [hd] at h
    cases h
    exact .make hd
  | receiving =>
    simp only [hd] at h
    split at h
    · rename_i hqueue
      split at h <;> cases h
      rename_i hsenders
      exact .close hd (List.isEmpty_iff.mp hqueue) hsenders
    · rename_i hqueue
      cases h
      exact .receive hd (mt List.isEmpty_iff.mpr hqueue)
  | acquiring =>
    simp only [hd] at h
    split at h <;> cases h
    rename_i hpermits
    exact .acquire hd hpermits
  | reaping =>
    simp only [hd] at h
    split at h <;> cases h
    · exact .goOn hd
    · rename_i hunreaped
      have hreap : Next d (some .reap) d.position := .reap (.inl hd) (mt List.isEmpty_iff.mpr hunreaped)
      rwa [hd] at hreap
  | joining =>
    simp only [hd] at h
    split at h
    · rename_i hunreaped
      split at h <;> cases h
      rename_i hjobs
      obtain ⟨hrunning, hleaving⟩ := Bool.and_eq_true_iff.mp hjobs
      exact .giveBack hd (List.isEmpty_iff.mp hunreaped) (List.isEmpty_iff.mp hrunning) (List.isEmpty_iff.mp hleaving)
    · rename_i hunreaped
      cases h
      have hreap : Next d (some .reap) d.position := .reap (.inr hd) (mt List.isEmpty_iff.mpr hunreaped)
      rwa [hd] at hreap
  | ended | down =>
    simp only [hd] at h
    cases h

namespace Placed

theorem hand_eq_none (h : d.Placed) (hd : d.position ≠ .acquiring) : d.stage.hand = none :=
  Option.not_isSome_iff_eq_none.mp (mt h.hand.mp hd)

theorem status_eq (h : d.Placed) {position : Position} (hd : d.position = position) :
    d.stage.status = position.status := by rw [h.status, hd]

/-- The stage refuses its dispatcher nothing: where the loop has a turn, the turn can be had. -/
theorem exists_turn (h : d.Placed) {turn : Turn} {position : Position} (hnext : d.next = some (some turn, position)) :
    ∃ s, d.stage.turn fresh turn = some s := by
  cases next_of_eq_some hnext with
  | make hd => exact ⟨_, Stage.turn_eq_some_iff.mpr (.begin (h.status_eq hd) h.settled.permits_le)⟩
  | receive hd hqueue =>
    obtain ⟨x, rest, hqueue⟩ := List.exists_cons_of_ne_nil hqueue
    exact ⟨_, Stage.turn_eq_some_iff.mpr (.take (h.status_eq hd) (h.hand_eq_none (by simp [hd])) hqueue)⟩
  | acquire hd hpermits =>
    obtain ⟨x, hhand⟩ := Option.isSome_iff_exists.mp (h.hand.mpr hd)
    obtain ⟨n, hpermits⟩ := Nat.exists_eq_succ_of_ne_zero hpermits
    exact ⟨_, Stage.turn_eq_some_iff.mpr (.start (h.status_eq hd) hhand hpermits)⟩
  | reap hd hunreaped =>
    obtain ⟨f, rest, hunreaped⟩ := List.exists_cons_of_ne_nil hunreaped
    have hstatus : d.stage.status = .working := hd.elim h.status_eq h.status_eq
    exact ⟨_, Stage.turn_eq_some_iff.mpr (.reap hstatus hunreaped)⟩
  | giveBack hd hunreaped hrunning hleaving =>
    -- The loop looks at its jobs only: that nothing is queued and nothing in hand it knows from where it is.
    obtain ⟨hsenders, hqueue⟩ := h.closed (.inl hd)
    have hdrained := Stage.isDrained_iff.mpr
      ⟨hsenders, hqueue, h.hand_eq_none (by simp [hd]), hrunning, hleaving, hunreaped⟩
    exact ⟨_, Stage.turn_eq_some_iff.mpr (.finish (h.status_eq hd) hdrained)⟩

/-- A turn takes the dispatcher to where it may rely on what comes next. -/
theorem turn (h : d.Placed) {turn : Turn} {position : Position} {s : Stage ι σ} (hnext : Next d (some turn) position)
    (hs : d.stage.turn fresh turn = some s) : Placed ⟨s, position⟩ := by
  have hsettled := h.settled.turn hs
  cases hnext with
  | make hd =>
    rw [if_pos h.settled.permits_le]
    cases Stage.turn_eq_some_iff.mp hs with
    | begin => exact ⟨hsettled, rfl, by simp [h.hand_eq_none, hd], by simp⟩
    | breakDown _ hpermits => exact absurd h.settled.permits_le (Nat.not_le.mpr hpermits)
  | receive hd =>
    cases Stage.turn_eq_some_iff.mp hs with
    | take hstatus => exact ⟨hsettled, hstatus, by simp, by simp⟩
  | acquire hd =>
    cases Stage.turn_eq_some_iff.mp hs with
    | start hstatus => exact ⟨hsettled, hstatus, by simp, by simp⟩
  | reap =>
    cases Stage.turn_eq_some_iff.mp hs with
    | reap => exact ⟨hsettled, h.status, h.hand, h.closed⟩
  | giveBack hd =>
    cases Stage.turn_eq_some_iff.mp hs with
    | finish => exact ⟨hsettled, rfl, by simp [h.hand_eq_none, hd], fun _ => h.closed (.inl hd)⟩

/-- Going on without a turn takes it there as well. -/
theorem silent (h : d.Placed) {position : Position} (hnext : Next d none position) : Placed ⟨d.stage, position⟩ := by
  cases hnext with
  | close hd hqueue hsenders =>
    exact ⟨h.settled, (h.status_eq hd :), by simp [h.hand_eq_none, hd], fun _ => ⟨hsenders, hqueue⟩⟩
  | goOn hd => exact ⟨h.settled, (h.status_eq hd :), by simp [h.hand_eq_none, hd], by simp⟩

/-- Senders and jobs leave it there. -/
theorem outside (h : d.Placed) {e : Stage.Event ι σ} {s : Stage ι σ} (hout : ∀ move, e = .turn move → ∃ i, move = .leave i)
    (hs : d.stage.perform fresh e = some s) : Placed ⟨s, d.position⟩ := by
  cases e with
  | turn move =>
    obtain ⟨i, rfl⟩ := hout move rfl
    have hsettled := h.settled.turn hs
    cases Stage.turn_eq_some_iff.mp hs with
    | leave => exact ⟨hsettled, h.status, h.hand, h.closed⟩
  | send x =>
    simp only [Stage.perform] at hs
    split at hs <;> cases hs
    rename_i hsend
    obtain ⟨hsenders, hgone⟩ := not_or.mp hsend
    exact ⟨(Stage.Kept.send h.settled (by simpa using hgone) x).settled, h.status, h.hand,
      fun hd => absurd (h.closed hd).1 hsenders⟩
  | share =>
    simp only [Stage.perform] at hs
    split at hs <;> cases hs
    rename_i hsenders
    exact ⟨.of_gone_eq_false h.settled.width (h.settled.gone_of_senders hsenders), h.status, h.hand,
      fun hd => absurd (h.closed hd).1 hsenders⟩
  | close =>
    simp only [Stage.perform] at hs
    split at hs <;> cases hs
    rename_i hsenders
    exact ⟨h.settled.close, h.status, h.hand, fun hd => absurd (h.closed hd).1 hsenders⟩
  | advance i progress =>
    simp only [Stage.perform] at hs
    split at hs <;> cases hs
    rename_i hi
    exact ⟨(Stage.Kept.advance h.settled (List.getElem?_eq_getElem hi) progress).settled, h.status, h.hand, h.closed⟩
  | finish i error =>
    simp only [Stage.perform] at hs
    split at hs <;> cases hs
    rename_i hi
    have hsettled := (Stage.Kept.finish h.settled (List.getElem?_eq_getElem hi) error).settled
    rw [Stage.finish_eq (List.getElem?_eq_getElem hi)] at hsettled ⊢
    exact ⟨hsettled, h.status, h.hand, h.closed⟩

end Placed

theorem Reached.placed (h : Reached kind fresh p k d) (hp : p ≤ Stage.maxPermits) : d.Placed := by
  induction h with
  | spawn => exact ⟨.spawn hp, rfl, by simp [Stage.spawn], by simp⟩
  | @event k d a e position s _ ha he ih =>
    cases a with
    | step =>
      obtain ⟨⟨turn?, next⟩, hnext, heffect⟩ := Option.map_eq_some_iff.mp ha
      cases turn? <;> cases heffect
      exact ih.turn (next_of_eq_some hnext) he
    | leave i =>
      cases ha
      exact ih.outside (fun move hmove => ⟨i, (Stage.Event.turn.inj hmove).symm⟩) he
    | _ =>
      cases ha
      exact ih.outside (fun move hmove => by cases hmove) he
  | @silent k d a position _ ha ih =>
    cases a with
    | step =>
      obtain ⟨⟨turn?, next⟩, hnext, heffect⟩ := Option.map_eq_some_iff.mp ha
      cases turn? <;> cases heffect
      exact ih.silent (next_of_eq_some hnext)
    | _ => cases ha

/-- The dispatcher waits for an item as long as one may be sent, for a permit as long as there is none, and for a job as
long as one is running or about to end. -/
theorem next_eq_none_iff : d.next = none ↔
    (d.position = .receiving ∧ d.stage.queue = [] ∧ d.stage.senders ≠ 0) ∨
    (d.position = .acquiring ∧ d.stage.permits = 0) ∨
    (d.position = .joining ∧ d.stage.unreaped = [] ∧ (d.stage.running ≠ [] ∨ d.stage.leaving ≠ [])) ∨
    d.position = .ended ∨ d.position = .down := by
  rw [next]
  cases hd : d.position with
  | starting => simp
  | receiving => by_cases hqueue : d.stage.queue = [] <;> simp [hqueue]
  | acquiring => simp
  | reaping => by_cases hunreaped : d.stage.unreaped = [] <;> simp [hunreaped]
  | joining =>
    by_cases hunreaped : d.stage.unreaped = [] <;> by_cases hrunning : d.stage.running = [] <;> simp [hunreaped, hrunning]
  | ended => simp
  | down => simp

/-- A stage whose dispatcher can give its permits is orderly in every state that it can reach, and the loop of the
dispatcher never leaves that order: no turn that it goes for is refused, it waits for a permit only while all permits
are held by jobs, and it is over only when nothing is left and nothing more can come. -/
theorem stage_orderly (kind : StageName) (fresh : σ) {p : Nat} (hp : Stage.Workable p) :
    (∀ (k : History ι) (s : Stage ι σ), Stage.Reached fresh p k s → s.Orderly p k) ∧
    ∀ (k : History ι) (d : Dispatcher ι σ), Reached kind fresh p k d →
      Stage.Reached fresh p k d.stage ∧
      (∀ turn position, d.next = some (some turn, position) → ∃ s, d.stage.turn fresh turn = some s) ∧
      (d.position = .acquiring → d.next = none → d.stage.running.length = p ∧ d.stage.running ≠ []) ∧
      d.position ≠ .down ∧
      (d.position = .ended → d.stage.senders = 0 ∧ d.stage.queue = [] ∧ d.stage.hand = none ∧
        d.stage.running = [] ∧ d.stage.leaving = [] ∧ d.stage.unreaped = []) := by
  obtain ⟨hpos, hmax⟩ := hp
  have horderly (k : History ι) (s : Stage ι σ) (h : Stage.Reached fresh p k s) : s.Orderly p k :=
    (h.accounted hmax).orderly hpos
  refine ⟨horderly, fun k d h => ⟨h.stage, fun _ _ => (h.placed hmax).exists_turn, fun hd hwait => ?_, fun hd => ?_,
    fun hd => ?_⟩⟩
  · have hpermits : d.stage.permits = 0 := by
      rcases next_eq_none_iff.mp hwait with hnext | hnext | hnext | hnext | hnext
      · cases hnext.1.symm.trans hd
      · exact hnext.2
      · cases hnext.1.symm.trans hd
      · cases hnext.symm.trans hd
      · cases hnext.symm.trans hd
    obtain ⟨hle, hfree⟩ := (horderly k d.stage h.stage).permits
    have hlength : d.stage.running.length = p := by omega
    exact ⟨hlength, List.ne_nil_of_length_pos (hlength ▸ hpos)⟩
  · exact (horderly k d.stage h.stage).works ((h.placed hmax).status_eq hd)
  · exact (horderly k d.stage h.stage).returned ((h.placed hmax).status_eq hd)

/-- Three items for a stage with one permit: the work on the first breaks down, that on the second fails. The first job
has given its permit back, but ends after the second. -/
def sampleActs : List (Act Nat Unit) :=
  [.send 1, .step, .send 2, .send 3, .step, .step, .step, .finish 0 (.panicked "boom"), .step, .step,
    .finish 0 (.failed (.notFound "a.cs")), .leave 1, .step, .leave 0, .step, .step, .close, .step, .step, .step,
    .finish 0 .succeeded, .leave 0, .step, .step, .step]

theorem stage_orderly_sample : Stage.Workable 1 ∧ ∃ k d,
    actAll .load () {} ⟨.spawn 1, .starting⟩ sampleActs = some (k, d) ∧ k.sent = [1, 2, 3] ∧ k.started = [1, 2, 3] ∧
      d.position = .ended ∧ d.stage.errors = [.notFound "a.cs", .breakdown .load "boom"] ∧ d.stage.Orderly 1 k ∧
      d.stage.senders = 0 ∧ d.stage.queue = [] ∧ d.stage.running = [] := by
  have hone : Stage.Workable 1 := by decide
  have hended : actAll .load () {} ⟨.spawn 1, .starting⟩ sampleActs = some
      (⟨[1, 2, 3], [1, 2, 3], [⟨2, some (.notFound "a.cs")⟩, ⟨1, some (.breakdown .load "boom")⟩, ⟨3, none⟩]⟩,
        ⟨{ permits := 1, senders := 0, status := .returned,
           reaped := [⟨2, some (.notFound "a.cs")⟩, ⟨1, some (.breakdown .load "boom")⟩, ⟨3, none⟩] }, .ended⟩) := by
    rfl
  obtain ⟨horderly, hloop⟩ := stage_orderly .load () hone
  obtain ⟨hstage, -, -, -, hover⟩ := hloop _ _ (Reached.spawn.actAll hended)
  obtain ⟨hsenders, hqueue, -, hrunning, -⟩ := hover rfl
  exact ⟨hone, _, _, hended, rfl, rfl, rfl, rfl, horderly _ _ hstage, hsenders, hqueue, hrunning⟩

/-- A dispatcher that cannot give its permits loses what has been sent to it: the item is nowhere any more. -/
theorem not_orderly_oversized : ∃ k d,
    actAll .load () {} ⟨.spawn (Stage.maxPermits + 1), .starting⟩ [.send 1, .step] = some (k, d) ∧
      Reached .load () (Stage.maxPermits + 1) k d ∧ d.position = .down ∧ k.sent = [1] ∧ k.finished = [] ∧
      d.stage.queue = [] ∧ d.stage.hand = none ∧ d.stage.running = [] ∧ d.stage.leaving = [] ∧
      ¬ d.stage.Orderly (Stage.maxPermits + 1) k := by
  have hlost : actAll .load () {} ⟨.spawn (Stage.maxPermits + 1), .starting⟩ [Act.send 1, Act.step] = some
      (⟨[1], [], []⟩, ⟨{ permits := Stage.maxPermits + 1, senders := 1, status := .broken }, .down⟩) := by
    rfl
  exact ⟨_, _, hlost, Reached.spawn.actAll hlost, rfl, rfl, rfl, rfl, rfl, rfl, rfl,
    fun h => by simpa using h.places.length_eq⟩

end Dispatcher

end TestScaffold.Generation
