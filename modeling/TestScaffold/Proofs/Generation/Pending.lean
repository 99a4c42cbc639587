import Mathlib.Data.List.Perm.Basic
import TestScaffold.Generation.Stage

/-!
# What a stage still has to do

A stage is looked at through what its items still owe: an item that waits owes what its job will owe when it begins.
A turn changes nothing about that, unless the dispatcher breaks down. A job that goes on or ends changes its own part
only, and with a single permit there is no other part.

Results:
* `Stage.turn_eq_some_iff`: what each turn needs, and what it does.
* `Stage.Settled`: a dispatcher that can give its permits, and does not go before its work is done; kept by every turn.
* `Stage.pending_turn`, `Stage.ended_turn`: what a turn leaves alone.
* `Stage.exists_pending_split`: the part of one job, and what becomes of it.
-/

namespace TestScaffold.Generation

/-- The list `b` has the elements of `a`, and in the same order where `one` holds. -/
structure Rearranged {α : Type} (one : Prop) (a b : List α) : Prop where
  perm : a.Perm b
  eq : one → a = b

namespace Rearranged

variable {α β : Type} {one : Prop} {a b c l t : List α}

theorem refl (one : Prop) (a : List α) : Rearranged one a a := ⟨.refl a, fun _ => rfl⟩

theorem trans (h : Rearranged one a b) (k : Rearranged one b c) : Rearranged one a c :=
  ⟨h.perm.trans k.perm, fun ho => (h.eq ho).trans (k.eq ho)⟩

theorem mono {other : Prop} (h : Rearranged one a b) (ho : other → one) : Rearranged other a b :=
  ⟨h.perm, fun o => h.eq (ho o)⟩

theorem append_right (h : Rearranged one a b) (c : List α) : Rearranged one (a ++ c) (b ++ c) :=
  ⟨h.perm.append_right c, fun ho => by rw [h.eq ho]⟩

theorem filterMap (h : Rearranged one a b) (f : α → Option β) : Rearranged one (a.filterMap f) (b.filterMap f) :=
  ⟨h.perm.filterMap f, fun ho => by rw [h.eq ho]⟩

theorem flatMap (h : Rearranged one a b) (f : α → List β) : Rearranged one (a.flatMap f) (b.flatMap f) :=
  ⟨h.perm.flatMap_right f, fun ho => by rw [h.eq ho]⟩

theorem length_eq (h : Rearranged one a b) : a.length = b.length := h.perm.length_eq

/-- What is taken out of the middle comes before what is left there. -/
theorem pull {x : List α} (h : Rearranged one (l ++ (a ++ (x ++ b))) t) (ha : one → a = []) :
    Rearranged one (l ++ x ++ (a ++ b)) t := by
  refine ⟨?_, fun ho => ?_⟩
  · refine List.Perm.trans ?_ h.perm
    rw [List.append_assoc, ← List.append_assoc x, ← List.append_assoc a]
    exact (List.perm_append_comm.append_right b).append_left l
  · rw [← h.eq ho, ha ho]
    simp

/-- What is put into the middle comes behind all that was there. -/
theorem push (h : Rearranged one (l ++ (a ++ b)) t) (hb : one → b = []) (x : List α) :
    Rearranged one (l ++ (a ++ (x ++ b))) (t ++ x) := by
  refine ⟨?_, fun ho => ?_⟩
  · refine List.Perm.trans ?_ (h.perm.append_right x)
    rw [List.append_assoc, List.append_assoc]
    exact (List.perm_append_comm.append_left a).append_left l
  · rw [← h.eq ho, hb ho]
    simp

end Rearranged

namespace Stage

variable {ι σ β : Type} {fresh : σ} {s t : Stage ι σ} {move : Turn}

/-- A number of permits with which a dispatcher can do its work. -/
def Workable (permits : Nat) : Prop := 0 < permits ∧ permits ≤ maxPermits

instance (permits : Nat) : Decidable (Workable permits) := inferInstanceAs (Decidable (_ ∧ _))

/-- How many jobs may run at once. -/
def width (s : Stage ι σ) : Nat := s.permits + s.running.length

/-- What has become of the jobs whose work is over. -/
def ended (s : Stage ι σ) : List (Finished ι) := s.reaped ++ s.unreaped ++ s.leaving

/-- What the items that are not over still owe, where `job` says what a running job owes and `item` what a waiting
item does. -/
def pending (job : ι × σ → List β) (item : ι → List β) (s : Stage ι σ) : List β :=
  s.running.flatMap job ++ (s.hand.toList ++ s.queue).flatMap item

/-- Every item that the stage has been given, wherever it is now. -/
def items (s : Stage ι σ) : List ι := s.ended.map Finished.item ++ s.pending (fun job => [job.1]) fun x => [x]

/-! ## Turns -/

/-- What each turn needs, and what it does. -/
inductive Turned (fresh : σ) (s : Stage ι σ) : Turn → Stage ι σ → Prop
  | begin (hstatus : s.status = .spawned) (hpermits : s.permits ≤ maxPermits) :
    Turned fresh s .begin { s with status := .working }
  | breakDown (hstatus : s.status = .spawned) (hpermits : maxPermits < s.permits) :
    Turned fresh s .begin { s with status := .broken, queue := [] }
  | take {x : ι} {rest : List ι} (hstatus : s.status = .working) (hhand : s.hand = none) (hqueue : s.queue = x :: rest) :
    Turned fresh s .take { s with hand := some x, queue := rest }
  | start {x : ι} {n : Nat} (hstatus : s.status = .working) (hhand : s.hand = some x) (hpermits : s.permits = n + 1) :
    Turned fresh s .start { s with hand := none, permits := n, running := s.running ++ [(x, fresh)] }
  | leave {i : Nat} {f : Finished ι} (hstatus : s.status = .working) (hleaving : s.leaving[i]? = some f) :
    Turned fresh s (.leave i) { s with leaving := s.leaving.eraseIdx i, unreaped := s.unreaped ++ [f] }
  | reap {f : Finished ι} {rest : List (Finished ι)} (hstatus : s.status = .working) (hunreaped : s.unreaped = f :: rest) :
    Turned fresh s .reap { s with unreaped := rest, reaped := s.reaped ++ [f] }
  | finish (hstatus : s.status = .working) (hdrained : s.isDrained = true) :
    Turned fresh s .finish { s with status := .returned }

theorem turn_eq_some_iff : s.turn fresh move = some t ↔ Turned fresh s move t := by
  constructor
  · intro h
    unfold turn at h
    split at h
    · split at h <;> cases h
      · exact .begin ‹_› ‹_›
      · exact .breakDown ‹_› (Nat.lt_of_not_le ‹_›)
    · split at h <;> cases h
      exact .take ‹_› ‹_› ‹_›
    · split at h <;> cases h
      exact .start ‹_› ‹_› ‹_›
    · obtain ⟨f, hf, rfl⟩ := Option.map_eq_some_iff.mp h
      exact .leave ‹_› hf
    · split at h <;> cases h
      exact .reap ‹_› ‹_›
    · split at h <;> cases h
      exact .finish ‹_› ‹_›
    · cases h
  · intro h
    cases h with
    | begin hstatus hpermits => simp [turn, hstatus, hpermits]
    | breakDown hstatus hpermits => simp [turn, hstatus, Nat.not_le.mpr hpermits]
    | take hstatus hhand hqueue => simp [turn, hstatus, hhand, hqueue]
    | start hstatus hhand hpermits => simp [turn, hstatus, hhand, hpermits]
    | leave hstatus hleaving => simp [turn, hstatus, hleaving]
    | reap hstatus hunreaped => simp [turn, hstatus, hunreaped]
    | finish hstatus hdrained => simp [turn, hstatus, hdrained]

/-- A dispatcher that is gone has no turn any more. -/
theorem gone_eq_false_of_turn (h : s.turn fresh move = some t) : s.gone = false := by
  cases turn_eq_some_iff.mp h with
  | begin hstatus | breakDown hstatus | take hstatus | start hstatus | leave hstatus | reap hstatus | finish hstatus =>
    simp [gone, hstatus]

theorem width_turn (h : s.turn fresh move = some t) : t.width = s.width := by
  cases turn_eq_some_iff.mp h with
  | start _ _ hpermits =>
    simp only [width, hpermits, List.length_append, List.length_singleton]
    omega
  | _ => rfl

/-- A job that runs after a turn has been running before, or has just begun. -/
theorem mem_running_turn (h : s.turn fresh move = some t) {job : ι × σ} (hj : job ∈ t.running) :
    job ∈ s.running ∨ job.2 = fresh := by
  cases turn_eq_some_iff.mp h with
  | start =>
    rcases List.mem_append.mp hj with hj | hj
    · exact .inl hj
    · rw [List.mem_singleton.mp hj]
      exact .inr rfl
  | _ => exact .inl hj

/-- No turn ends the work on an item. -/
theorem ended_turn (h : s.turn fresh move = some t) : t.ended.Perm s.ended := by
  cases turn_eq_some_iff.mp h with
  | @leave i f _ hleaving =>
    obtain ⟨hi, rfl⟩ := List.getElem?_eq_some_iff.mp hleaving
    simp only [ended, List.append_assoc]
    exact ((List.getElem_cons_eraseIdx_perm hi).append_left s.unreaped).append_left s.reaped
  | reap _ hunreaped => simp [ended, hunreaped]
  | _ => exact .refl _

/-! ## Dispatchers that do not break down -/

/-- A dispatcher that can give its permits has not broken down, and does not return before its work is done and nothing
more can come. -/
structure Settled (s : Stage ι σ) : Prop where
  width : s.width ≤ maxPermits
  status : s.status ≠ .broken
  drained : s.gone = true → s.isDrained = true

theorem isDrained_iff : s.isDrained = true ↔
    s.senders = 0 ∧ s.queue = [] ∧ s.hand = none ∧ s.running = [] ∧ s.leaving = [] ∧ s.unreaped = [] := by
  simp [isDrained, and_assoc]

/-- In a stage with nothing left to do, everything has been seen. -/
theorem of_isDrained (h : s.isDrained = true) (job : ι × σ → List β) (item : ι → List β) :
    s.pending job item = [] ∧ s.errors = s.ended.filterMap Finished.error ∧
      s.items = s.ended.map Finished.item := by
  obtain ⟨-, hq, hh, hr, hl, hu⟩ := isDrained_iff.mp h
  exact ⟨by simp [pending, hq, hh, hr], by simp [errors, ended, hl, hu], by simp [items, pending, hq, hh, hr]⟩

namespace Settled

theorem spawn {permits senders : Nat} (h : permits ≤ maxPermits) :
    Settled ({ permits := permits, senders := senders } : Stage ι σ) :=
  ⟨h, by simp, by simp [gone]⟩

theorem of_gone_eq_false (hw : s.width ≤ maxPermits) (hg : s.gone = false) : s.Settled := by
  refine ⟨hw, fun hb => ?_, fun hr => ?_⟩
  · simp [gone, hb] at hg
  · rw [hg] at hr
    cases hr

variable (hs : s.Settled)

include hs

theorem permits_le : s.permits ≤ maxPermits := Nat.le_trans (Nat.le_add_right _ _) hs.width

/-- The permits are there. -/
theorem status_turn (h : s.turn fresh move = some t) : t.status ≠ .broken := by
  cases turn_eq_some_iff.mp h with
  | breakDown _ hpermits => exact absurd hs.permits_le (Nat.not_le.mpr hpermits)
  | begin => simp
  | finish => simp
  | take hstatus | start hstatus | leave hstatus | reap hstatus => simp [hstatus]

theorem turn (h : s.turn fresh move = some t) : t.Settled := by
  refine ⟨(width_turn h).symm ▸ hs.width, hs.status_turn h, fun hg => ?_⟩
  cases turn_eq_some_iff.mp h with
  | breakDown _ hpermits => exact absurd hs.permits_le (Nat.not_le.mpr hpermits)
  | finish _ hdrained => exact hdrained
  | begin => simp [gone] at hg
  | take hstatus | start hstatus | leave hstatus | reap hstatus => simp [gone, hstatus] at hg

/-- A dispatcher goes with its last turn. -/
theorem gone_turn (h : s.turn fresh move = some t) : t.gone = decide (move = .finish) ∧ t.senders = s.senders := by
  cases turn_eq_some_iff.mp h with
  | breakDown _ hpermits => exact absurd hs.permits_le (Nat.not_le.mpr hpermits)
  | begin => exact ⟨by simp [gone], rfl⟩
  | finish => exact ⟨by simp [gone], rfl⟩
  | take hstatus | start hstatus | leave hstatus | reap hstatus => exact ⟨by simp [gone, hstatus], rfl⟩

/-- A turn does none of the work, and none is lost with it. -/
theorem pending_turn (h : s.turn fresh move = some t) {job : ι × σ → List β} {item : ι → List β}
    (hf : ∀ x, job (x, fresh) = item x) : t.pending job item = s.pending job item := by
  cases turn_eq_some_iff.mp h with
  | breakDown _ hpermits => exact absurd hs.permits_le (Nat.not_le.mpr hpermits)
  | take _ hhand hqueue => simp [pending, hhand, hqueue]
  | start _ hhand => simp [pending, hhand, hf]
  | _ => rfl

theorem report_eq (kind : StageName) : s.report kind = s.errors := if_neg hs.status

theorem close : s.close.Settled := by
  refine ⟨hs.width, hs.status, fun hg => ?_⟩
  obtain ⟨hn, hq⟩ := isDrained_iff.mp (hs.drained hg)
  exact isDrained_iff.mpr ⟨by rw [Stage.close, hn], hq⟩

/-- As long as a job is running, the dispatcher is there. -/
theorem gone_of_running {i : Nat} {job : ι × σ} (h : s.running[i]? = some job) : s.gone = false := by
  cases hg : s.gone with
  | false => rfl
  | true =>
    obtain ⟨-, -, -, hr, -⟩ := isDrained_iff.mp (hs.drained hg)
    rw [hr] at h
    cases h

/-- As long as something can be sent, the dispatcher is there. -/
theorem gone_of_senders (h : s.senders ≠ 0) : s.gone = false := by
  cases hg : s.gone with
  | false => rfl
  | true => exact absurd (isDrained_iff.mp (hs.drained hg)).1 h

end Settled

/-! ## Senders -/

@[simp] theorem width_send (s : Stage ι σ) (x : ι) : (s.send x).width = s.width := rfl

@[simp] theorem gone_close (s : Stage ι σ) : s.close.gone = s.gone := rfl

@[simp] theorem pending_send (job : ι × σ → List β) (item : ι → List β) (s : Stage ι σ) (x : ι) :
    (s.send x).pending job item = s.pending job item ++ item x := by
  simp [pending, send]

/-! ## Jobs -/

theorem lt_length_of_running {i : Nat} {job : ι × σ} (h : s.running[i]? = some job) : i < s.running.length :=
  (List.getElem?_eq_some_iff.mp h).1

@[simp] theorem width_advance (s : Stage ι σ) (i : Nat) (progress : σ) :
    (s.advance i progress).width = s.width := by
  simp [width, advance]

@[simp] theorem ended_advance (s : Stage ι σ) (i : Nat) (progress : σ) : (s.advance i progress).ended = s.ended := rfl

theorem finish_eq {i : Nat} {job : ι × σ} (h : s.running[i]? = some job) (error : Option GenerationError) :
    s.finish i error = { s with
      permits := s.permits + 1, running := s.running.eraseIdx i, leaving := s.leaving ++ [⟨job.1, error⟩] } := by
  rw [finish, h]

theorem width_finish {i : Nat} {job : ι × σ} (h : s.running[i]? = some job) (error : Option GenerationError) :
    (s.finish i error).width = s.width := by
  have hi := lt_length_of_running h
  rw [finish_eq h]
  simp only [width, List.length_eraseIdx, if_pos hi]
  omega

theorem ended_finish {i : Nat} {job : ι × σ} (h : s.running[i]? = some job) (error : Option GenerationError) :
    (s.finish i error).ended = s.ended ++ [⟨job.1, error⟩] := by
  simp [finish_eq h, ended]

@[simp] theorem gone_finish (s : Stage ι σ) (i : Nat) (error : Option GenerationError) :
    (s.finish i error).gone = s.gone := by
  unfold finish
  split <;> rfl

@[simp] theorem senders_finish (s : Stage ι σ) (i : Nat) (error : Option GenerationError) :
    (s.finish i error).senders = s.senders := by
  unfold finish
  split <;> rfl

/-- What goes on in a stage while its senders and its dispatcher stay. -/
structure Kept (s t : Stage ι σ) : Prop where
  settled : t.Settled
  senders : t.senders = s.senders
  gone : t.gone = s.gone

namespace Kept

theorem refl (hs : s.Settled) : s.Kept s := ⟨hs, rfl, rfl⟩

theorem send (hs : s.Settled) (hg : s.gone = false) (x : ι) : s.Kept (s.send x) :=
  ⟨.of_gone_eq_false hs.width hg, rfl, rfl⟩

variable {i : Nat} {job : ι × σ}

theorem advance (hs : s.Settled) (hi : s.running[i]? = some job) (progress : σ) : s.Kept (s.advance i progress) :=
  ⟨.of_gone_eq_false ((width_advance s i progress).symm ▸ hs.width) (hs.gone_of_running hi), rfl, rfl⟩

theorem finish (hs : s.Settled) (hi : s.running[i]? = some job) (error : Option GenerationError) :
    s.Kept (s.finish i error) :=
  ⟨.of_gone_eq_false ((width_finish hi error).symm ▸ hs.width) ((gone_finish s i error).trans (hs.gone_of_running hi)),
    senders_finish s i error, gone_finish s i error⟩

end Kept

/-- The jobs in front of one job and behind it; a stage with a single permit runs no other. -/
theorem exists_running_split {i : Nat} {job : ι × σ} (h : s.running[i]? = some job) :
    ∃ front back, s.running = front ++ job :: back ∧
      (∀ progress, (s.advance i progress).running = front ++ (job.1, progress) :: back) ∧
      (∀ error, (s.finish i error).running = front ++ back) ∧ (s.width = 1 → front = [] ∧ back = []) := by
  obtain ⟨hi, hj⟩ := List.getElem?_eq_some_iff.mp h
  have hs : s.running = s.running.take i ++ job :: s.running.drop (i + 1) := by
    rw [← hj]
    simp
  refine ⟨s.running.take i, s.running.drop (i + 1), hs, fun progress => ?_, fun error => ?_, fun hw => ?_⟩
  · simp only [advance]
    rw [List.modify_eq_take_cons_drop hi, hj]
  · simp [finish_eq h, List.eraseIdx_eq_take_drop_succ]
  · simp only [width] at hw
    constructor
    · rw [List.take_eq_nil_iff]
      omega
    · rw [List.drop_eq_nil_iff]
      omega

/-- What one job owes stands between what others owe, and goes with the job. -/
theorem exists_pending_split {i : Nat} {x : ι} {progress : σ} (h : s.running[i]? = some (x, progress))
    (job : ι × σ → List β) (item : ι → List β) :
    ∃ front back, s.pending job item = front ++ (job (x, progress) ++ back) ∧
      (∀ next, (s.advance i next).pending job item = front ++ (job (x, next) ++ back)) ∧
      (∀ error, (s.finish i error).pending job item = front ++ back) ∧
      (s.width = 1 → front = [] ∧ back = (s.hand.toList ++ s.queue).flatMap item) := by
  obtain ⟨front, back, hr, ha, hf, ho⟩ := exists_running_split h
  have hwait (error : Option GenerationError) :
      (s.finish i error).hand = s.hand ∧ (s.finish i error).queue = s.queue := by
    simp [finish_eq h]
  refine ⟨front.flatMap job, back.flatMap job ++ (s.hand.toList ++ s.queue).flatMap item, ?_, fun next => ?_,
    fun error => ?_, fun hw => ?_⟩
  · simp [pending, hr]
  · rw [pending, ha next]
    simp [advance]
  · rw [pending, hf error, (hwait error).1, (hwait error).2]
    simp
  · obtain ⟨rfl, rfl⟩ := ho hw
    exact ⟨rfl, rfl⟩

end Stage

end TestScaffold.Generation
