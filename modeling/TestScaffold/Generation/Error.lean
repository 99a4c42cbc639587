import TestScaffold.Diagnostic
import TestScaffold.Files.FileSystem

/-!
# What can go wrong in a run

* `GenerationError`: the cause for which one item of a run fails; its wording is `GenerationError.message`.
* `Summary`: what a run has counted.
* `Outcome.failureText`: a failed run in words.
-/

namespace TestScaffold

/-- The parts of a run. -/
inductive StageName
  | load
  | synthesize
  | write
  /-- The run itself, which drives the three stages. -/
  | pipeline
  deriving DecidableEq, Repr

/-- The name of a part. -/
def StageName.label : StageName → String
  | load => "load"
  | synthesize => "synthesize"
  | write => "write"
  | pipeline => "pipeline"

/-- Why a run does not start, or why one item of it fails. -/
inductive GenerationError
  /-- The run was refused before any work. -/
  | configuration (message : String)
  | notFound (path : String)
  | read (path : String) (cause : FileError)
  | decode (path : String) (fault : Text.Utf8Fault)
  | parse (path : String) (reports : List Diagnostic)
  /-- The type has no enclosing namespace, so there is none to put its unit in. -/
  | missingNamespace (typeName path : String)
  | write (path typeName : String) (cause : FileError)
  | breakdown (stage : StageName) (message : String)
  /-- The stage that the item was passed to takes no more work. -/
  | stageClosed (stage : StageName)
  deriving DecidableEq, Repr

namespace GenerationError

/-- The error in words. -/
def message : GenerationError → String
  | configuration message => s!"invalid configuration: {message}"
  | notFound path => s!"input not found: {path}"
  | read path cause => s!"failed to read {path}: {cause.message}"
  | decode path fault => s!"{path} is not valid UTF-8: {fault.message}"
  | parse path reports => s!"failed to parse {path} ({reports.length} syntax error(s))"
  | missingNamespace typeName path => s!"type '{typeName}' in {path} is not declared inside a namespace"
  | write path typeName cause => s!"failed to write {path} for type '{typeName}': {cause.message}"
  | breakdown stage message => s!"{stage.label} worker panicked: {message}"
  | stageClosed stage => s!"the {stage.label} stage is no longer accepting work"

/-- The file that the error is about, where there is one. -/
def path? : GenerationError → Option String
  | notFound path | read path _ | decode path _ | parse path _ | missingNamespace _ path | write path _ _ =>
    some path
  | configuration _ | breakdown _ _ | stageClosed _ => none

/-- The identifier under which the error is documented. -/
def code : GenerationError → String
  | configuration _ => "stubgen::configuration"
  | notFound _ => "stubgen::not_found"
  | read _ _ => "stubgen::read"
  | decode _ _ => "stubgen::decode"
  | parse _ _ => "stubgen::parse"
  | missingNamespace _ _ => "stubgen::missing_namespace"
  | write _ _ _ => "stubgen::write"
  | breakdown _ _ => "stubgen::worker_panicked"
  | stageClosed _ => "stubgen::stage_closed"

/-- Advice on mending the error, where there is any. -/
def help? : GenerationError → Option String
  | missingNamespace _ _ =>
    some "declare the type inside a namespace; its test unit lives in `<namespace>.Tests`"
  | _ => none

end GenerationError

/-- What a run has counted. -/
structure Summary where
  /-- Inputs handed to the run. -/
  inputs : Nat := 0
  /-- Types found in the inputs that could be loaded. -/
  typesDiscovered : Nat := 0
  /-- Units made for those types. -/
  unitsRendered : Nat := 0
  /-- Units stored. -/
  filesWritten : Nat := 0
  deriving DecidableEq, Repr

/-- The end of a run: what was counted, and one error per item that failed. -/
structure Outcome where
  summary : Summary
  errors : List GenerationError
  deriving DecidableEq, Repr

/-- What a run gives back: its counts if nothing failed, and otherwise the whole outcome as a failure. -/
def Outcome.result (o : Outcome) : Except Outcome Summary := if o.errors.isEmpty then .ok o.summary else .error o

/-- A failed run in words: how much was stored all the same, and every error on a line of its own. -/
def Outcome.failureText (o : Outcome) : String :=
  let counts := s!"{o.summary.filesWritten} of {o.summary.typesDiscovered} discovered type(s) written"
  let heading := s!"{o.errors.length} item(s) failed ({counts}):"
  heading ++ String.join (o.errors.map fun e => s!"\n  - {e.message}")

end TestScaffold
