import TestScaffold.Generation.Error

/-!
# Stages

A stage works on the items that are sent to it, on a limited number of them at a time. Items wait in a queue, from
which a dispatcher takes one into its hand. Once there is a free permit the item becomes a job, which holds the
permit while it runs and gives it back when its work is over, however it ends. The job itself is over a little later,
so the next one may run and end before it is. The dispatcher reaps what has become of the jobs, and returns when
nothing is left and nothing more can come.

A dispatcher that is to give more permits than there can be breaks down before it takes anything off its queue. What
has been sent to it is lost then, and nothing more can be sent.

* `Stage.turn`: what the dispatcher and its jobs do apart from the work; `none` where it cannot happen.
* `Stage.perform`: what any event does to a stage.
-/

namespace TestScaffold.Generation

/-- An item whose work is over, and the error that it failed with, if it did. -/
structure Finished (ι : Type) where
  item : ι
  error : Option GenerationError
  deriving DecidableEq, Repr

/-- What a dispatcher has come to. -/
inductive Status
  /-- It has not begun yet. -/
  | spawned
  | working
  /-- It has returned the errors it has seen. -/
  | returned
  /-- It has broken down. -/
  | broken
  deriving DecidableEq, Repr

/-- A stage for items of type `ι`; `σ` says how far the work on an item has come. -/
structure Stage (ι σ : Type) where
  status : Status := .spawned
  /-- How many more jobs may run. -/
  permits : Nat
  /-- How many senders may still send. -/
  senders : Nat
  queue : List ι := []
  /-- The item that waits for a permit. -/
  hand : Option ι := none
  running : List (ι × σ) := []
  /-- Jobs that have given their permit back and are about to end. -/
  leaving : List (Finished ι) := []
  /-- What has become of jobs, not yet seen by the dispatcher, in the order in which they ended. -/
  unreaped : List (Finished ι) := []
  /-- What the dispatcher has seen. -/
  reaped : List (Finished ι) := []
  deriving DecidableEq, Repr

/-- What happens in a stage apart from the work on its items. -/
inductive Turn
  /-- The dispatcher makes its permits. -/
  | begin
  /-- The dispatcher takes the next item off the queue. -/
  | take
  /-- The dispatcher makes the item in hand a job. -/
  | start
  /-- A job that has given its permit back ends. -/
  | leave (i : Nat)
  /-- The dispatcher sees what has become of a job. -/
  | reap
  /-- The dispatcher returns the errors it has seen. -/
  | finish
  deriving DecidableEq, Repr

namespace Stage

/-- The most permits that a dispatcher can give: an eighth of the largest number of 64 bits. -/
def maxPermits : Nat := 18446744073709551615 / 8

/-- How a dispatcher breaks down that is to give more permits. -/
def permitsRefusal : String := s!"a semaphore may not have more than MAX_PERMITS permits ({maxPermits})"

variable {ι σ : Type}

/-- Whether the dispatcher is gone, and nothing can be sent any more. -/
def gone (s : Stage ι σ) : Bool := s.status == .returned || s.status == .broken

/-- The errors that the dispatcher has seen, in the order of the jobs' ends. -/
def errors (s : Stage ι σ) : List GenerationError := s.reaped.filterMap Finished.error

/-- What is learned from a dispatcher that is gone. -/
def report (kind : StageName) (s : Stage ι σ) : List GenerationError :=
  if s.status = .broken then [.breakdown kind permitsRefusal] else s.errors

/-- Whether nothing is left, and nothing more can come. -/
def isDrained (s : Stage ι σ) : Bool :=
  s.senders == 0 && s.queue.isEmpty && s.hand.isNone && s.running.isEmpty && s.leaving.isEmpty && s.unreaped.isEmpty

/-- Adds an item to the queue. -/
def send (s : Stage ι σ) (x : ι) : Stage ι σ := { s with queue := s.queue ++ [x] }

/-- Takes one sender away. -/
def close (s : Stage ι σ) : Stage ι σ := { s with senders := s.senders - 1 }

/-- Notes how far the job at a position has come. -/
def advance (s : Stage ι σ) (i : Nat) (progress : σ) : Stage ι σ :=
  { s with running := s.running.modify i fun job => (job.1, progress) }

/-- Ends the work of the job at a position, which gives its permit back. -/
def finish (s : Stage ι σ) (i : Nat) (error : Option GenerationError) : Stage ι σ :=
  match s.running[i]? with
  | some job =>
    { s with
      permits := s.permits + 1, running := s.running.eraseIdx i, leaving := s.leaving ++ [⟨job.1, error⟩] }
  | none => s

/-- What a turn does, where it can happen. A job begins with `fresh`. -/
def turn (fresh : σ) (s : Stage ι σ) (t : Turn) : Option (Stage ι σ) :=
  match s.status, t with
  | .spawned, .begin =>
    if s.permits ≤ maxPermits then some { s with status := .working } else some { s with status := .broken, queue := [] }
  | .working, .take =>
    match s.hand, s.queue with
    | none, x :: rest => some { s with hand := some x, queue := rest }
    | _, _ => none
  | .working, .start =>
    match s.hand, s.permits with
    | some x, n + 1 => some { s with hand := none, permits := n, running := s.running ++ [(x, fresh)] }
    | _, _ => none
  | .working, .leave i =>
    s.leaving[i]?.map fun f => { s with leaving := s.leaving.eraseIdx i, unreaped := s.unreaped ++ [f] }
  | .working, .reap =>
    match s.unreaped with
    | f :: rest => some { s with unreaped := rest, reaped := s.reaped ++ [f] }
    | [] => none
  | .working, .finish => if s.isDrained then some { s with status := .returned } else none
  | _, _ => none

/-- What can happen to a stage. -/
inductive Event (ι σ : Type)
  | send (x : ι)
  /-- A sender is copied. -/
  | share
  /-- A sender goes away. -/
  | close
  | turn (t : Turn)
  /-- The job at a position comes further. -/
  | advance (i : Nat) (progress : σ)
  /-- The work of the job at a position ends. -/
  | finish (i : Nat) (error : Option GenerationError)

/-- What an event does to a stage; `none` where it cannot happen. Only an open sender sends, and only as long as the
dispatcher is there. -/
def perform (fresh : σ) (s : Stage ι σ) : Event ι σ → Option (Stage ι σ)
  | .send x => if s.senders = 0 ∨ s.gone then none else some (s.send x)
  | .share => if s.senders = 0 then none else some { s with senders := s.senders + 1 }
  | .close => if s.senders = 0 then none else some s.close
  | .turn t => s.turn fresh t
  | .advance i progress => if i < s.running.length then some (s.advance i progress) else none
  | .finish i error => if i < s.running.length then some (s.finish i error) else none

end Stage

end TestScaffold.Generation
