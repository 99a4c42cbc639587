import TestScaffold.Generation.Run

/-!
# Runs with many workers

The three stages work at the same time, each on as many items as it may. What they do is told as a list of events;
any order of events that can happen is a schedule. A stage closes once the run itself and the stage in front of it
have both let go of it. A file is made first and then filled piece by piece, so others may do something in between,
and either may fail for reasons of the system's own.

* `Progress.perform`: what one event does to a run; `none` where the event cannot happen.
* `Ends`: how a run may end under some schedule.
-/

namespace TestScaffold.Generation

/-- What the run itself is about to do. -/
inductive Phase
  /-- It submits the inputs that are left. -/
  | submitting (inputs : List String)
  /-- It waits for the first stage to return. -/
  | loading
  | synthesizing
  | storing
  | over
  deriving DecidableEq, Repr

/-- How far a unit has come to its file. -/
inductive Filing
  | unnumbered
  | numbered (id : Nat)
  /-- The file is there, and `written` bytes of the unit are in it. -/
  | opened (id file written : Nat)
  deriving DecidableEq, Repr

/-- A run on its way. -/
structure Progress where
  files : FileSystem
  phase : Phase
  summary : Summary := {}
  /-- The number of the next unit. -/
  nextId : Nat := 1
  /-- What went wrong with submitting inputs. -/
  refused : List GenerationError := []
  /-- A job has not looked at its input yet, or has these types still to pass on. -/
  loader : Stage String (Option (List TypeRequest))
  /-- A job has not made its unit yet, or has this one still to pass on. -/
  synthesizer : Stage TypeRequest (Option TestUnit)
  writer : Stage TestUnit Filing

namespace Progress

/-- A run before anything has happened. The stage in front and the run itself may send to a stage. -/
def start (inputs : List String) (load synth write : Nat) (fs : FileSystem) : Progress where
  files := fs
  phase := .submitting inputs
  loader := { permits := load, senders := 1 }
  synthesizer := { permits := synth, senders := 2 }
  writer := { permits := write, senders := 2 }

/-- The end of a run: its counts, and the errors in the order of the stages. -/
def outcome (p : Progress) : Outcome :=
  ⟨p.summary, p.refused ++ p.loader.report .load ++ p.synthesizer.report .synthesize ++ p.writer.report .write⟩

/-- The inputs that have not been submitted. -/
def unsent (p : Progress) : List String :=
  match p.phase with
  | .submitting inputs => inputs
  | _ => []

end Progress

/-- What can happen in a run. Jobs are told by their positions among the running jobs of their stage. -/
inductive Event
  /-- The run submits its next input. -/
  | submit
  /-- The run lets go of a stage once all before it is done. -/
  | proceed
  | loaderTurn (t : Turn)
  | synthesizerTurn (t : Turn)
  | writerTurn (t : Turn)
  /-- A job reads and parses its input. -/
  | read (job : Nat)
  /-- A job passes one of its types on. -/
  | emit (job : Nat)
  /-- A job has no type left to pass on. -/
  | endLoad (job : Nat)
  /-- A job makes its unit. -/
  | render (job : Nat)
  /-- A job passes its unit on. -/
  | pass (job : Nat)
  /-- A job takes the next number. -/
  | number (job : Nat)
  /-- A job makes its file, or empties the one that is there. -/
  | create (job : Nat)
  /-- A job writes the next `count` bytes of its unit. -/
  | write (job count : Nat)
  /-- A job has written its unit. -/
  | endStore (job : Nat)
  /-- The system refuses a job to make its file or to write into it. -/
  | fault (job : Nat) (cause : FileError)
  deriving DecidableEq, Repr

namespace Progress

/-! ## The run itself -/

/-- Submits the next input. -/
def submit (p : Progress) : Option Progress :=
  match p.phase with
  | .submitting (input :: inputs) =>
    let p := { p with phase := .submitting inputs, summary := { p.summary with inputs := p.summary.inputs + 1 } }
    if p.loader.gone then some { p with refused := p.refused ++ [.stageClosed .load] }
    else some { p with loader := p.loader.send input }
  | _ => none

/-- Lets go of the next stage, once all before it is done. -/
def proceed (p : Progress) : Option Progress :=
  match p.phase with
  | .submitting [] => some { p with phase := .loading, loader := p.loader.close }
  | .submitting (_ :: _) => none
  | .loading =>
    if p.loader.gone then some { p with phase := .synthesizing, synthesizer := p.synthesizer.close } else none
  | .synthesizing =>
    if p.synthesizer.gone then some { p with phase := .storing, writer := p.writer.close } else none
  | .storing => if p.writer.gone then some { p with phase := .over } else none
  | .over => none

/-! ## Dispatchers -/

/-- A turn of the first stage, whose dispatcher lets go of the second stage when it goes. -/
def loaderTurn (p : Progress) (t : Turn) : Option Progress :=
  (p.loader.turn none t).map fun loader =>
    { p with loader := loader, synthesizer := if loader.gone then p.synthesizer.close else p.synthesizer }

/-- A turn of the second stage, whose dispatcher lets go of the third stage when it goes. -/
def synthesizerTurn (p : Progress) (t : Turn) : Option Progress :=
  (p.synthesizer.turn none t).map fun synthesizer =>
    { p with synthesizer := synthesizer, writer := if synthesizer.gone then p.writer.close else p.writer }

/-- A turn of the third stage. -/
def writerTurn (p : Progress) (t : Turn) : Option Progress :=
  (p.writer.turn .unnumbered t).map fun writer => { p with writer := writer }

/-! ## Jobs -/

/-- A job of the first stage reads and parses its input; if that fails, the job is over. -/
def read (lang : Language) (root : String) (p : Progress) (job : Nat) : Option Progress :=
  match p.loader.running[job]? with
  | some (input, none) =>
    match load lang p.files.lookup root input with
    | .ok requests => some { p with loader := p.loader.advance job (some requests) }
    | .error e => some { p with loader := p.loader.finish job (some e) }
  | _ => none

/-- A job of the first stage passes a type on. -/
def emit (p : Progress) (job : Nat) : Option Progress :=
  match p.loader.running[job]? with
  | some (_, some (request :: requests)) =>
    let p := { p with summary := { p.summary with typesDiscovered := p.summary.typesDiscovered + 1 } }
    if p.synthesizer.gone then
      some { p with loader := p.loader.finish job (some (.stageClosed .synthesize)) }
    else
      some { p with loader := p.loader.advance job (some requests), synthesizer := p.synthesizer.send request }
  | _ => none

/-- A job of the first stage that has passed all its types on is over. -/
def endLoad (p : Progress) (job : Nat) : Option Progress :=
  match p.loader.running[job]? with
  | some (_, some []) => some { p with loader := p.loader.finish job none }
  | _ => none

/-- A job of the second stage makes its unit; if that fails, the job is over. -/
def render (lang : Language) (p : Progress) (job : Nat) : Option Progress :=
  match p.synthesizer.running[job]? with
  | some (request, none) =>
    match synthesize lang request with
    | .ok u =>
      some { p with
        summary := { p.summary with unitsRendered := p.summary.unitsRendered + 1 },
        synthesizer := p.synthesizer.advance job (some u) }
    | .error e => some { p with synthesizer := p.synthesizer.finish job (some e) }
  | _ => none

/-- A job of the second stage passes its unit on and is over. -/
def pass (p : Progress) (job : Nat) : Option Progress :=
  match p.synthesizer.running[job]? with
  | some (_, some u) =>
    if p.writer.gone then some { p with synthesizer := p.synthesizer.finish job (some (.stageClosed .write)) }
    else some { p with synthesizer := p.synthesizer.finish job none, writer := p.writer.send u }
  | _ => none

/-- A job of the third stage takes the next number. -/
def number (p : Progress) (job : Nat) : Option Progress :=
  match p.writer.running[job]? with
  | some (_, .unnumbered) =>
    some { p with nextId := p.nextId + 1, writer := p.writer.advance job (.numbered p.nextId) }
  | _ => none

/-- A job of the third stage makes its file, or empties the one that is there; if that fails, the job is over. -/
def create (lang : Language) (output : String) (p : Progress) (job : Nat) : Option Progress :=
  match p.writer.running[job]? with
  | some (u, .numbered id) =>
    match p.files.create (outputPath lang output id) with
    | .ok (files, file) => some { p with files := files, writer := p.writer.advance job (.opened id file 0) }
    | .error cause =>
      some { p with writer := p.writer.finish job (some (.write (outputPath lang output id) u.typeName cause)) }
  | _ => none

/-- A job of the third stage writes some bytes of its unit behind those it has written. -/
def write (p : Progress) (job count : Nat) : Option Progress :=
  match p.writer.running[job]? with
  | some (u, .opened id file written) =>
    let bytes := Text.encode u.text
    if 0 < count ∧ written + count ≤ bytes.length then
      some { p with
        files := p.files.writeAt file written ((bytes.drop written).take count),
        writer := p.writer.advance job (.opened id file (written + count)) }
    else none
  | _ => none

/-- A job of the third stage that has written its unit is over. -/
def endStore (p : Progress) (job : Nat) : Option Progress :=
  match p.writer.running[job]? with
  | some (u, .opened _ _ written) =>
    if written = (Text.encode u.text).length then
      some { p with
        summary := { p.summary with filesWritten := p.summary.filesWritten + 1 },
        writer := p.writer.finish job none }
    else none
  | _ => none

/-- A job of the third stage that the system refuses something is over, and what it has written stays. -/
def fault (lang : Language) (output : String) (p : Progress) (job : Nat) (cause : FileError) : Option Progress :=
  match p.writer.running[job]? with
  | some (u, .numbered id) | some (u, .opened id _ _) =>
    some { p with writer := p.writer.finish job (some (.write (outputPath lang output id) u.typeName cause)) }
  | _ => none

/-! ## Schedules -/

/-- What an event does to a run; `none` where it cannot happen. -/
def perform (lang : Language) (config : Config) (p : Progress) : Event → Option Progress
  | .submit => p.submit
  | .proceed => p.proceed
  | .loaderTurn t => p.loaderTurn t
  | .synthesizerTurn t => p.synthesizerTurn t
  | .writerTurn t => p.writerTurn t
  | .read job => p.read lang config.searchRoot job
  | .emit job => p.emit job
  | .endLoad job => p.endLoad job
  | .render job => p.render lang job
  | .pass job => p.pass job
  | .number job => p.number job
  | .create job => p.create lang config.output job
  | .write job count => p.write job count
  | .endStore job => p.endStore job
  | .fault job cause => p.fault lang config.output job cause

/-- The run after some events in a row; `none` where one of them cannot happen. -/
def performAll (lang : Language) (config : Config) (p : Progress) (schedule : List Event) : Option Progress :=
  schedule.foldlM (perform lang config) p

theorem performAll_append (lang : Language) (config : Config) (p : Progress) (first second : List Event) :
    p.performAll lang config (first ++ second) =
      (p.performAll lang config first).bind fun q => q.performAll lang config second := by
  simp [performAll, List.foldlM_append]

end Progress

/-- A run with some parallelism in each stage may end with `outcome`, and leave `after` behind. -/
def Ends (lang : Language) (config : Config) (inputs : List String) (load synth write : Nat)
    (before : FileSystem) (outcome : Outcome) (after : FileSystem) : Prop :=
  ∃ schedule p, (Progress.start inputs load synth write before).performAll lang config schedule = some p ∧
    p.phase = .over ∧ p.outcome = outcome ∧ p.files = after

end TestScaffold.Generation
