import TestScaffold.Declaration.Reader
import TestScaffold.Generation.Error
import TestScaffold.Generation.Stage
import TestScaffold.TestUnit.Render

/-!
# Runs

A run takes every input through three stages: load the input and find its types, make a unit for each type, store
the units in numbered files. An item that fails is reported and holds up no other. How sources are parsed and units
made is left to a `Language`; its parser and its renderer may break down on some items, which fails those items and no
others.

* `Config.validate`: the first reason for which a run with a configuration is refused.
* `Language.csharp`: the parser and renderer of this library.
* `load`, `synthesize`, `store`: what each stage does with one item.
* `Plan.make`: all inputs loaded and all units made, one item after the other.
* `run`: the plan carried out on a file system, the errors in the order of the stages.
-/

namespace TestScaffold

/-! ## Configurations -/

/-- The settings of a run. A parallelism that is not set is the number of processors, and a search root that is not
set is the working directory. -/
structure Config where
  /-- The directory that units are stored in; it has to exist. -/
  output : String
  loadParallelism : Option Nat := none
  synthParallelism : Option Nat := none
  writeParallelism : Option Nat := none
  framework : Framework := .nunit
  /-- Where relative inputs are looked for that do not exist as given. -/
  root : Option String := none
  deriving DecidableEq, Repr

namespace Config

/-- Sets the parallelism of all stages. -/
def withParallelism (c : Config) (load synth write : Nat) : Config :=
  { c with loadParallelism := some load, synthParallelism := some synth, writeParallelism := some write }

/-- The stages with the settings of their parallelism, in the order of the run. -/
def parallelisms (c : Config) : List (String × Option Nat) :=
  [("load", c.loadParallelism), ("synth", c.synthParallelism), ("write", c.writeParallelism)]

/-- The directory in which relative inputs are looked for again. -/
def searchRoot (c : Config) : String := c.root.getD "."

/-- The stage that could run no job at all, if there is one. -/
def idleStage? (c : Config) : Option String :=
  (c.parallelisms.find? fun p => p.2 == some 0).map Prod.fst

/-- Accepts a configuration, or says why it is refused: a stage without jobs first, then the output directory. -/
def validate (c : Config) (lookup : Lookup) : Except GenerationError Unit :=
  match c.idleStage? with
  | some stage => .error (.configuration s!"{stage} parallelism must be at least 1")
  | none =>
    match lookup c.output with
    | .ok .directory => .ok ()
    | .ok _ => .error (.configuration s!"output path {c.output} is not a directory")
    | .error e => .error (.configuration s!"output directory {c.output} is not accessible: {e.message}")

end Config

/-! ## Languages -/

/-- What a worker that breaks down leaves behind. -/
inductive Breakdown
  | message (text : String)
  /-- Something that has no text. -/
  | silent
  deriving DecidableEq, Repr

/-- A breakdown in words. -/
def Breakdown.text : Breakdown → String
  | message text => text
  | silent => "non-string panic payload"

/-- A way to read sources and to make test units. -/
structure Language where
  parse : String → Except Breakdown (Except (List Diagnostic) DeclarationTree)
  render : Descriptor → Except Breakdown TestUnit
  /-- The extension of the files that hold units. -/
  extension : String

/-- C# sources, and units for a test framework. -/
def Language.csharp (f : Framework) : Language where
  parse source := .ok (DeclarationTree.ofSource source)
  render d := .ok (TestUnit.render f d)
  extension := TestUnit.extension

namespace Generation

/-! ## One item of each stage -/

/-- A type that a unit is to be made for, in the tree of the file it was found in. -/
structure TypeRequest where
  source : String
  tree : DeclarationTree
  node : Nat

/-- The path that an input is found at: as given, or else below the search root if it is relative. -/
def resolve (lookup : Lookup) (root input : String) : Option String :=
  if (lookup input).isOk then some input
  else if Path.isAbsolute input then none
  else
    let rooted := Path.join root input
    if (lookup rooted).isOk then some rooted else none

/-- The contents of the file at a path. -/
def readFile (lookup : Lookup) (path : String) : Except FileError Contents := do
  match ← lookup path with
  | .file contents => return contents
  | .directory => throw .isADirectory
  | .unreadable _ cause => throw cause

/-- The types of one input, or the first thing that goes wrong with it. -/
def load (lang : Language) (lookup : Lookup) (root input : String) :
    Except GenerationError (List TypeRequest) :=
  match resolve lookup root input with
  | none => .error (.notFound input)
  | some path =>
    match readFile lookup path with
    | .error e => .error (.read path e)
    | .ok contents =>
      match contents.decode with
      | .error fault => .error (.decode path fault)
      | .ok text =>
        match lang.parse text with
        | .error breakdown => .error (.breakdown .load breakdown.text)
        | .ok (.error reports) => .error (.parse path reports)
        | .ok (.ok tree) => .ok (tree.classLikeTypes.map fun node => ⟨path, tree, node⟩)

/-- What a unit for a type has to know; a type outside any namespace is refused. -/
def describe (tree : DeclarationTree) (node : Nat) (source : String) : Except GenerationError Descriptor :=
  match Descriptor.ofNode? tree node with
  | some d => .ok d
  | none => .error (.missingNamespace (tree.nameOf node) source)

/-- The unit for a type. -/
def synthesize (lang : Language) (request : TypeRequest) : Except GenerationError TestUnit :=
  match describe request.tree request.node request.source with
  | .error e => .error e
  | .ok d =>
    match lang.render d with
    | .error breakdown => .error (.breakdown .synthesize breakdown.text)
    | .ok u => .ok u

/-- The path of the file with a number. -/
def outputPath (lang : Language) (output : String) (id : Nat) : String :=
  Path.join output s!"{id}.{lang.extension}"

/-- Stores a unit in the file with a number, whatever stood there before. -/
def store (lang : Language) (output : String) (fs : FileSystem) (id : Nat) (u : TestUnit) :
    Except GenerationError FileSystem :=
  let path := outputPath lang output id
  match fs.write path u.text with
  | .ok fs => .ok fs
  | .error e => .error (.write path u.typeName e)

/-! ## Many items -/

/-- The values and the errors among many results, each in their order. -/
def separate {α ε : Type} (results : List (Except ε α)) : List α × List ε :=
  (results.filterMap Except.toOption,
    results.filterMap fun
      | .error e => some e
      | .ok _ => none)

/-- Whether the dispatcher of a stage breaks down. The number of processors is never too large for it. -/
def breaksDown (parallelism : Option Nat) : Bool := parallelism.any fun n => Stage.maxPermits < n

/-- What is learned from the dispatcher of a stage that ends after `errors`, or breaks down before it begins. -/
def reportOf (kind : StageName) (parallelism : Option Nat) (errors : List GenerationError) : List GenerationError :=
  if breaksDown parallelism then [.breakdown kind Stage.permitsRefusal] else errors

/-- Passes the types of an input on to the second stage; if that takes nothing, the first type is refused. -/
def emit (refused : Bool) (requests : List TypeRequest) : Except GenerationError (List TypeRequest) :=
  if refused && !requests.isEmpty then .error (.stageClosed .synthesize) else .ok requests

/-- Passes a unit on to the third stage. -/
def handOn (refused : Bool) (u : TestUnit) : Except GenerationError TestUnit :=
  if refused then .error (.stageClosed .write) else .ok u

/-- Everything a run does before it stores units. -/
structure Plan where
  inputs : Nat
  typesDiscovered : Nat
  unitsRendered : Nat
  /-- The units to be stored. -/
  units : List TestUnit
  /-- The errors of loading, and then those of making units. -/
  errors : List GenerationError

/-- Loads all inputs in their order, and then makes the units in the order in which their types were found. -/
def Plan.make (lang : Language) (config : Config) (lookup : Lookup) (inputs : List String) : Plan :=
  let taken := if breaksDown config.loadParallelism then [] else inputs
  let (found, loadErrors) := separate (taken.map fun input =>
    load lang lookup config.searchRoot input >>= emit (breaksDown config.synthParallelism))
  let (units, unitErrors) := separate (found.flatten.map fun request =>
    synthesize lang request >>= handOn (breaksDown config.writeParallelism))
  { inputs := inputs.length
    typesDiscovered := found.flatten.length + loadErrors.count (.stageClosed .synthesize)
    unitsRendered := units.length + unitErrors.count (.stageClosed .write)
    units := units
    errors := reportOf .load config.loadParallelism loadErrors ++ reportOf .synthesize config.synthParallelism unitErrors }

/-- The end of a run whose units were stored or not as `stored` says, unit by unit. -/
def Plan.outcome (config : Config) (p : Plan) (stored : List (Except GenerationError Unit)) : Outcome :=
  let (written, writeErrors) := separate stored
  { summary :=
      { inputs := p.inputs, typesDiscovered := p.typesDiscovered, unitsRendered := p.unitsRendered,
        filesWritten := written.length }
    errors := p.errors ++ reportOf .write config.writeParallelism writeErrors }

/-- Stores units under the numbers from `id` on. A unit that cannot be stored uses its number up. -/
def storeFrom (lang : Language) (output : String) (fs : FileSystem) (id : Nat) :
    List TestUnit → List (Except GenerationError Unit) × FileSystem
  | [] => ([], fs)
  | u :: us =>
    match store lang output fs id u with
    | .ok fs =>
      let (stored, fs) := storeFrom lang output fs (id + 1) us
      (.ok () :: stored, fs)
    | .error e =>
      let (stored, fs) := storeFrom lang output fs (id + 1) us
      (.error e :: stored, fs)

theorem storeFrom_cons_of_ok {lang : Language} {output : String} {fs after : FileSystem} {id : Nat}
    {u : TestUnit} (h : store lang output fs id u = .ok after) (us : List TestUnit) :
    storeFrom lang output fs id (u :: us) =
      (.ok () :: (storeFrom lang output after (id + 1) us).1, (storeFrom lang output after (id + 1) us).2) := by
  conv =>
    lhs
    unfold storeFrom
  rw [h]

theorem storeFrom_cons_of_error {lang : Language} {output : String} {fs : FileSystem} {id : Nat}
    {u : TestUnit} {e : GenerationError} (h : store lang output fs id u = .error e) (us : List TestUnit) :
    storeFrom lang output fs id (u :: us) =
      (.error e :: (storeFrom lang output fs (id + 1) us).1, (storeFrom lang output fs (id + 1) us).2) := by
  conv =>
    lhs
    unfold storeFrom
  rw [h]

/-- A run over `inputs` that takes one item at a time. The configuration has been validated. -/
def run (lang : Language) (config : Config) (inputs : List String) (fs : FileSystem) : Outcome × FileSystem :=
  let plan := Plan.make lang config fs.lookup inputs
  let (stored, fs) := storeFrom lang config.output fs 1 plan.units
  (plan.outcome config stored, fs)

/-- A run, unless the configuration is refused. -/
def generate (lang : Language) (config : Config) (inputs : List String) (fs : FileSystem) :
    Except GenerationError (Outcome × FileSystem) := do
  config.validate fs.lookup
  return run lang config inputs fs

end Generation

end TestScaffold
