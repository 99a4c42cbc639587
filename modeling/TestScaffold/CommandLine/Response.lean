import TestScaffold.CommandLine.Command
import TestScaffold.Diagnostic
import TestScaffold.Generation.Run

/-!
# Responses

What the program writes for a command, and the exit code it ends with. Files are seen only through a lookup, so the
commands that store nothing need no file system.

* `inspect` and `render`: the responses of the commands on one file.
* `ofOutcome?`: the response at the end of a run. There is none if the run has written over one of its own sources
  and a report on that source now starts inside a character.
-/

namespace TestScaffold.CommandLine

/-- What the program writes, and how it ends. -/
structure Response where
  exitCode : Nat := 0
  stdout : String := ""
  stderr : String := ""
  deriving DecidableEq, Repr

/-- Why a source cannot be shown. -/
inductive SourceError
  | inaccessible (path : String) (cause : FileError)
  | tooLarge (path : String) (size : Nat)
  | unreadable (path : String) (cause : FileError)
  /-- The text does not parse. -/
  | malformed (path : String) (source : String) (reports : List Diagnostic)
  deriving DecidableEq, Repr

/-- The largest source that is read, in bytes. -/
def maxSourceSize : Nat := 100 * 1024 * 1024

/-- Diagnostics one after the other, each with the line of `source` it is about. Fails if one of them starts inside
a character of `source`. -/
def reportText? (path source : String) (reports : List Diagnostic) : Option String :=
  (reports.mapM (Diagnostic.render? · path source)).map String.join

/-- The error in words. Diagnostics of a text start at its characters, so they can always be shown with it. -/
def SourceError.message : SourceError → String
  | inaccessible path cause => s!"Cannot access file '{path}': {cause.message}"
  | tooLarge path size => s!"Source file '{path}' is too large ({size} bytes, max {maxSourceSize} bytes)"
  | unreadable path cause => s!"Error reading file '{path}': {cause.message}"
  | malformed path source reports => Text.trimBlanksRight ((reportText? path source reports).getD "")

/-- The text of the file at a path. -/
def readText (lookup : Lookup) (path : String) : Except FileError String := do
  match (← Generation.readFile lookup path).decode with
  | .ok text => return text
  | .error _ => throw .notText

/-- The text of a source. Its size is looked at before it is read. -/
def readSource (lookup : Lookup) (path : String) : Except SourceError String :=
  match lookup path with
  | .error cause => .error (.inaccessible path cause)
  | .ok entry =>
    if entry.size > maxSourceSize then .error (.tooLarge path entry.size)
    else (readText lookup path).mapError (.unreadable path)

/-- The declarations of a source. -/
def parseSource (lookup : Lookup) (path : String) : Except SourceError DeclarationTree := do
  let source ← readSource lookup path
  (DeclarationTree.ofSource source).mapError (.malformed path source)

namespace Response

/-- A failure with a message; `stdout` has been written before. -/
def failure (message : String) (stdout : String := "") : Response where
  exitCode := 1
  stdout := stdout
  stderr := if message.isEmpty then "" else message ++ "\n"

/-- One line per error. -/
def errorLines (errors : List GenerationError) : String :=
  String.join (errors.map fun e => s!"error: {e.message}\n")

/-! ## Commands on one file -/

/-- What a run would make for a type, in one line. -/
def typeLine (tree : DeclarationTree) (path : String) (node : Nat) : String :=
  match Generation.describe tree node path with
  | .ok d =>
    let unit := s!"{Naming.testNamespace d.namespaceName}.{Naming.testTypeName d.name}"
    let stubs := ", ".intercalate (Naming.stubNames d.methods)
    s!"{d.namespaceName}.{d.name} -> {unit} [{stubs}]\n"
  | .error e => s!"{tree.nameOf node} -> skipped: {e.message}\n"

/-- The outline of a tree, and below it the types that units are made for. -/
def overview (tree : DeclarationTree) (path : String) : String :=
  let types := tree.classLikeTypes
  let lines := if types.isEmpty then "(no class-like types)\n" else String.join (types.map (typeLine tree path))
  Text.trimBlanksRight tree.outline ++ "\n\n" ++ lines

/-- The response that shows the declarations of a file. -/
def inspect (lookup : Lookup) (path : String) : Response :=
  match parseSource lookup path with
  | .error e => failure e.message
  | .ok tree => { stdout := overview tree path }

/-- A unit under the name of its type. -/
def unitText (u : TestUnit) : String := s!"// {u.typeName}\n{u.text}"

/-- The response that shows the units for a file, in the order of their types. -/
def render (lookup : Lookup) (path : String) (f : Framework) : Response :=
  match parseSource lookup path with
  | .error e => failure e.message
  | .ok tree =>
    let (descriptors, errors) :=
      Generation.separate (tree.classLikeTypes.map fun node => Generation.describe tree node path)
    let shown := String.join (descriptors.map fun d => unitText (TestUnit.render f d))
    if errors.isEmpty then { stdout := shown }
    else failure (Text.trimBlanksRight (errorLines errors)) shown

/-! ## Runs -/

/-- What a run has counted, in one line. -/
def summaryLine (s : Summary) (elapsed : String) : String :=
  let counts := s!"{s.filesWritten} test unit(s) for {s.typesDiscovered} type(s) from {s.inputs} input(s)"
  s!"Wrote {counts} in {elapsed}\n"

/-- An error of a run. One about a source that does not parse is shown with the lines it is about, if the source
can still be read. The source may hold another text by then; this fails if a diagnostic starts inside one of its
characters. -/
def errorText? (lookup : Lookup) (e : GenerationError) : Option String :=
  match e with
  | .parse path reports =>
    match readText lookup path with
    | .ok source => reportText? path source reports
    | .error _ => some (errorLines [e])
  | _ => some (errorLines [e])

/-- The response to a run that is refused. -/
def refused (e : GenerationError) : Response := failure s!"Error: {e.message}"

/-- The response at the end of a run, if all its errors can be shown. Sources are read again as they stand then. -/
def ofOutcome? (lookup : Lookup) (elapsed : String) (o : Outcome) : Option Response :=
  let summary := summaryLine o.summary elapsed
  if o.errors.isEmpty then some { stdout := summary }
  else
    let heading := s!"{o.errors.length} item(s) failed:\n"
    (o.errors.mapM (errorText? lookup)).map fun texts =>
      failure (Text.trimBlanksRight (heading ++ String.join texts)) summary

/-- The response at the end of a run that has an error which cannot be shown: only the summary comes out. -/
def cutShort (elapsed : String) (s : Summary) : Response where
  exitCode := 101
  stdout := summaryLine s elapsed
  stderr := "a report starts inside a character\n"

/-- The response to a request for a run, and the files after it. -/
def generate? (fs : FileSystem) (elapsed : String) (r : GenerateRequest) : Option Response × FileSystem :=
  match Generation.generate (Language.csharp r.framework) r.config r.files fs with
  | .error e => (some (refused e), fs)
  | .ok (outcome, fs) => (ofOutcome? fs.lookup elapsed outcome, fs)

/-! ## No command -/

/-- The program's name and version. -/
def versionText : String := "stubgen 0.1.0\n"

/-- How the program is used. -/
def usageText : String :=
  "Generate placeholder unit-test skeletons for C# types\n\n"
    ++ "Usage:\n"
    ++ "  stubgen generate FILES... --output DIR [--jobs N] [--load-parallelism N] [--synth-parallelism N]\n"
    ++ "                   [--write-parallelism N] [--framework NAME] [--root DIR]\n"
    ++ "  stubgen inspect FILE\n"
    ++ "  stubgen render FILE [--framework NAME]\n\n"
    ++ "Frameworks: nunit (default), mstest, xunit\n"

/-- The response when no command is run. -/
def ofHalt : Halt → Response
  | .help => { stdout := usageText }
  | .version => { stdout := versionText }
  | .nothingGiven => { exitCode := Halt.nothingGiven.exitCode, stderr := usageText }
  | h => { exitCode := h.exitCode, stderr := s!"error: {h.message}\n" }

/-! ## Any command -/

/-- The response to a command, and the files after it. -/
def ofCommand? (fs : FileSystem) (elapsed : String) : Command → Option Response × FileSystem
  | .inspect file => (some (inspect fs.lookup file), fs)
  | .render file f => (some (render fs.lookup file f), fs)
  | .generate request => generate? fs elapsed request

end Response

end TestScaffold.CommandLine
