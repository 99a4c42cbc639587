import TestScaffold.CommandLine.Arguments
import TestScaffold.CommandLine.Response

/-!
# The program

Reads the files that a command needs, and carries out what the library says.
-/

namespace TestScaffold.Program

open CommandLine

/-- The refusal that the system answers with. -/
def fileError : IO.Error → FileError
  | .noFileOrDirectory _ _ _ => .notFound
  | .inappropriateType _ 20 _ => .notADirectory
  | .inappropriateType _ 21 _ => .isADirectory
  | .invalidArgument _ 36 _ => .nameTooLong
  | .invalidArgument _ 40 _ => .tooManyLinks
  | .permissionDenied _ code details | .resourceExhausted _ code details | .otherError code details =>
    .other s!"{details} (os error {code})"
  | e => .other (toString e)

/-- Runs an action on files. -/
def attempt {α : Type} (action : IO α) : IO (Except FileError α) := do
  match ← action.toBaseIO with
  | .ok a => return .ok a
  | .error e => return .error (fileError e)

/-- What is found at a path. A file larger than `limit` is not read; only its size is known. -/
def entryAt (limit : Option Nat) (path : String) : IO (Except FileError Entry) := do
  let found ← attempt do return (← (← IO.FS.realPath path).metadata)
  match ← attempt (IO.FS.Handle.mk path .read), found with
  | .error cause, .error _ => return .error cause
  | .error cause, .ok data => return .ok (.unreadable data.byteSize.toNat cause)
  | .ok _, .error cause => return .error cause
  | .ok _, .ok data =>
    let size := data.byteSize.toNat
    if data.type == .dir then return .ok .directory
    else if limit.any (· < size) then return .ok (.file (.zeros size))
    else
      match ← attempt (IO.FS.readBinFile path) with
      | .ok bytes => return .ok (.file (.bytes bytes.toList))
      | .error cause => return .ok (.unreadable size cause)

/-- What is found at some paths. -/
def survey (limit : Option Nat) (paths : List String) : IO Lookup := do
  let entries ← paths.mapM fun path => do return (path, ← entryAt limit path)
  return fun path => (entries.lookup path).getD (.error .notFound)

/-- Stores a unit in the file with a number. -/
def store (lang : Language) (output : String) (u : TestUnit) (id : Nat) : IO (Except GenerationError Unit) := do
  let path := Generation.outputPath lang output id
  let stored ← attempt (IO.FS.writeFile path u.text)
  return stored.mapError (.write path u.typeName)

/-- The time since `start` in words. -/
def elapsedText (start : Nat) : IO String := do
  let ms := (← IO.monoMsNow) - start
  return s!"{ms}ms"

/-- Carries out a run. -/
def generate (r : GenerateRequest) : IO Response := do
  let start ← IO.monoMsNow
  let config := r.config
  let lang := Language.csharp config.framework
  let paths := r.files ++ r.files.map (Path.join config.searchRoot)
  let lookup ← survey none (config.output :: paths)
  match config.validate lookup with
  | .error e => return .refused e
  | .ok () =>
    let plan := Generation.Plan.make lang config lookup r.files
    let stored ← (plan.units.zipIdx 1).mapM fun (u, id) => store lang config.output u id
    let lookup ← survey none paths
    let outcome := plan.outcome config stored
    let elapsed ← elapsedText start
    return (Response.ofOutcome? lookup elapsed outcome).getD (.cutShort elapsed outcome.summary)

/-- Carries out a command. -/
def perform : Command → IO Response
  | .inspect file => do return .inspect (← survey (some maxSourceSize) [file]) file
  | .render file f => do return .render (← survey (some maxSourceSize) [file]) file f
  | .generate request => generate request

end TestScaffold.Program

/-- Runs the command that the arguments ask for. -/
def main (arguments : List String) : IO UInt32 := do
  let response ← match TestScaffold.CommandLine.Command.ofArguments arguments with
    | .ok command => TestScaffold.Program.perform command
    | .error halt => pure (.ofHalt halt)
  IO.print response.stdout
  IO.eprint response.stderr
  return response.exitCode.toUInt32
