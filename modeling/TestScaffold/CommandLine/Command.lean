import TestScaffold.Generation.Run

/-!
# Commands

* `Command`: what the program is to do, with every value it needs.
* `GenerateRequest.config`: the configuration that a request for a run comes to.
* `Halt`: why the words of a command line lead to no command; its wording is `Halt.message`.
-/

namespace TestScaffold.CommandLine

/-! ## What to do -/

/-- The values of a run as they are given. -/
structure GenerateRequest where
  files : List String
  output : String
  /-- The parallelism of every stage that has none of its own. -/
  jobs : Option Nat := none
  load : Option Nat := none
  synth : Option Nat := none
  write : Option Nat := none
  framework : Framework := .nunit
  root : Option String := none
  deriving DecidableEq, Repr

/-- The configuration of a run: a stage's own parallelism goes before that of all stages. -/
def GenerateRequest.config (r : GenerateRequest) : Config where
  output := r.output
  loadParallelism := r.load <|> r.jobs
  synthParallelism := r.synth <|> r.jobs
  writeParallelism := r.write <|> r.jobs
  framework := r.framework
  root := r.root

/-- What the program is to do. -/
inductive Command
  /-- Show the declarations of one file and the units a run would make for them. -/
  | inspect (file : String)
  /-- Show the units for one file. -/
  | render (file : String) (framework : Framework)
  /-- Make and store the units for many files. -/
  | generate (request : GenerateRequest)
  deriving DecidableEq, Repr

/-! ## Why nothing is done -/

/-- Why no command is run. -/
inductive Halt
  /-- The user asked for help. -/
  | help
  /-- The user asked for the version. -/
  | version
  /-- There are no words at all. -/
  | nothingGiven
  | unknownSubcommand (name : String)
  | unknownArgument (word : String)
  /-- Arguments that have to be given are not. -/
  | missing (names : List String)
  | missingValue (name : String)
  | invalidValue (name value : String)
  /-- The value is no number, or one too large. -/
  | invalidNumber (name value : String)
  /-- The setting is given more than once. -/
  | repeated (name : String)
  /-- A value is attached to something that takes none. -/
  | unexpectedValue (name value : String)
  deriving DecidableEq, Repr

namespace Halt

/-- The exit code: only what the user asked for is no fault. -/
def exitCode : Halt → Nat
  | help | version => 0
  | _ => 2

/-- The fault in words; what the user asked for has none. -/
def message : Halt → String
  | help | version => ""
  | nothingGiven => "a subcommand is needed"
  | unknownSubcommand name => s!"unknown subcommand '{name}'"
  | unknownArgument word => s!"unexpected argument '{word}'"
  | missing names => "missing: " ++ ", ".intercalate names
  | missingValue name => s!"'{name}' needs a value"
  | invalidValue name value => s!"'{value}' is no value for '{name}'"
  | invalidNumber name value => s!"'{value}' is no number for '{name}'"
  | repeated name => s!"'{name}' is given more than once"
  | unexpectedValue name value => s!"'{name}' takes no value, but is given '{value}'"

end Halt

end TestScaffold.CommandLine
