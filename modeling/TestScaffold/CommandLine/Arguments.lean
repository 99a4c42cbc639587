import TestScaffold.CommandLine.Command
import TestScaffold.CommandLine.Setting

/-!
# From words to commands

Words are read from left to right. What one group of words gives, a setting with its value or some files in a row,
is checked only when the next group begins: until then it is pending. So a word that is not known at all is
reported before a bad value in front of it, and what is missing is reported last.

* `Command.ofArguments`: the command that the words after the program's name ask for.
* `Reading.take`: one word of a subcommand.
-/

namespace TestScaffold.CommandLine

/-! ## Values -/

/-- The values that have been checked. -/
structure Given where
  files : List String := []
  output : Option String := none
  jobs : Option Nat := none
  load : Option Nat := none
  synth : Option Nat := none
  write : Option Nat := none
  framework : Option Framework := none
  root : Option String := none
  deriving DecidableEq, Repr

/-- The largest number that a setting takes. -/
def maxNumber : Nat := 18446744073709551615

/-- Decimal digits, read from the left. -/
def digitsValue (cs : List Char) : Nat := cs.foldl (fun n c => 10 * n + (c.toNat - '0'.toNat)) 0

/-- The number a text stands for: one plus sign or none, then decimal digits, at least one. -/
def number? (s : String) : Option Nat :=
  let digits := match s.toList with
    | '+' :: cs => cs
    | cs => cs
  if digits.isEmpty || !digits.all Char.isDigit then none
  else
    let n := digitsValue digits
    if n ≤ maxNumber then some n else none

namespace Given

/-- Whether a setting has been given. -/
def has (g : Given) : Setting → Bool
  | .output => g.output.isSome
  | .jobs => g.jobs.isSome
  | .load => g.load.isSome
  | .synth => g.synth.isSome
  | .write => g.write.isSome
  | .framework => g.framework.isSome
  | .root => g.root.isSome

/-- A value that is a path; no path is empty. -/
def path (name value : String) : Except Halt String :=
  if value.isEmpty then .error (.invalidValue name value) else .ok value

/-- A value that is a number. -/
def number (name value : String) : Except Halt Nat :=
  match number? value with
  | some n => .ok n
  | none => .error (.invalidNumber name value)

/-- A value that names a test framework. -/
def frameworkNamed (name value : String) : Except Halt Framework :=
  match Framework.ofName? value with
  | some f => .ok f
  | none => .error (.invalidValue name value)

/-- Takes the value of a setting. Only a setting that is new has its value looked at. -/
def assign (g : Given) (s : Setting) (value : String) : Except Halt Given :=
  if g.has s then .error (.repeated s.name)
  else
    match s with
    | .output => return { g with output := ← path s.name value }
    | .jobs => return { g with jobs := ← number s.name value }
    | .load => return { g with load := ← number s.name value }
    | .synth => return { g with synth := ← number s.name value }
    | .write => return { g with write := ← number s.name value }
    | .framework => return { g with framework := ← frameworkNamed s.name value }
    | .root => return { g with root := ← path s.name value }

/-- The command that the values make, unless one that has to be given is missing. -/
def command (g : Given) (c : Subcommand) : Except Halt Command :=
  match c, g.files, g.output with
  | .inspect, file :: _, _ => .ok (.inspect file)
  | .render, file :: _, _ => .ok (.render file (g.framework.getD .nunit))
  | .generate, file :: files, some output =>
    .ok (.generate
      { files := file :: files, output := output, jobs := g.jobs, load := g.load, synth := g.synth,
        write := g.write, framework := g.framework.getD .nunit, root := g.root })
  | .generate, [], none => .error (.missing ["files", Setting.output.name])
  | .generate, _ :: _, none => .error (.missing [Setting.output.name])
  | _, [], _ => .error (.missing ["files"])

end Given

/-! ## Words -/

/-- The group of words that is still open. -/
inductive Pending
  | nothing
  /-- A setting, and its value once it has come. -/
  | setting (s : Setting) (value : Option String)
  | files (paths : List String)
  deriving DecidableEq, Repr

/-- How far the words of a subcommand have been read. -/
structure Reading where
  given : Given := {}
  pending : Pending := .nothing
  /-- Whether every later word is taken as it stands. -/
  separated : Bool := false
  deriving DecidableEq, Repr

namespace Reading

/-- Checks what is pending. -/
def settle (r : Reading) : Except Halt Reading :=
  match r.pending with
  | .nothing => .ok r
  | .setting s none => .error (.missingValue s.name)
  | .setting s (some value) => return { r with given := ← r.given.assign s value, pending := .nothing }
  | .files paths => do
    let paths ← paths.mapM (Given.path "files")
    return { r with given := { r.given with files := r.given.files ++ paths }, pending := .nothing }

/-- The files named so far, checked or not. -/
def files (r : Reading) : List String :=
  match r.pending with
  | .files paths => r.given.files ++ paths
  | _ => r.given.files

/-- Takes a word as a file. -/
def addFile (c : Subcommand) (r : Reading) (path : String) : Except Halt Reading :=
  if !c.takesManyFiles && !r.files.isEmpty then .error (.unknownArgument path)
  else
    match r.pending with
    | .files paths => .ok { r with pending := .files (paths ++ [path]) }
    | _ => return { ← r.settle with pending := .files [path] }

/-- Takes the name of a setting. A value attached to it is checked at once. -/
def beginSetting (r : Reading) (s : Setting) (value : Option String) : Except Halt Reading := do
  let r ← r.settle
  match value with
  | none => return { r with pending := .setting s none }
  | some value => return { r with given := ← r.given.assign s value }

/-- Asks for help, unless what is pending is at fault. -/
def askHelp (r : Reading) : Except Halt Reading := do
  let _ ← r.settle
  throw .help

/-- Takes one word of the subcommand `c`. -/
def take (c : Subcommand) (r : Reading) (w : String) : Except Halt Reading :=
  if r.separated then r.addFile c w
  else
    match Word.ofString w with
    | .separator => .ok { r with separated := true }
    | .plain text =>
      match r.pending with
      | .setting s none => .ok { r with pending := .setting s (some text) }
      | _ => r.addFile c text
    | .long name value =>
      match name, value with
      | "help", none => r.askHelp
      | "help", some value => .error (.unexpectedValue name value)
      | _, _ =>
        match c.setting? name with
        | some s => r.beginSetting s value
        | none => .error (.unknownArgument w)
    | .short letter rest =>
      if letter == 'h' then r.askHelp
      else
        match c.shortSetting? letter with
        | some s => r.beginSetting s (Word.shortValue? rest)
        | none => .error (.unknownArgument w)

end Reading

/-- The command that the words after a subcommand's name ask for. -/
def Subcommand.command (c : Subcommand) (words : List String) : Except Halt Command := do
  let r ← words.foldlM (Reading.take c) {}
  let r ← r.settle
  r.given.command c

/-! ## The first word -/

/-- The word that asks for help in place of a subcommand. -/
def helpWord : String := "help"

/-- Whether a word names a subcommand or asks for help. -/
def isCommandWord (w : String) : Bool := w == helpWord || (Subcommand.ofName? w).isSome

/-- What the words after `helpWord` come to. They may name one subcommand. -/
def helpOn : List String → Halt
  | [] => .help
  | [w] => if isCommandWord w then .help else .unknownSubcommand w
  | w :: next :: _ => if isCommandWord w then .unknownSubcommand next else .unknownSubcommand w

/-- The command that the words after the program's name ask for. -/
def Command.ofArguments : List String → Except Halt Command
  | [] => .error .nothingGiven
  | w :: words =>
    match Word.ofString w with
    | .plain name =>
      if name == helpWord then .error (helpOn words)
      else
        match Subcommand.ofName? name with
        | some c => c.command words
        | none => .error (.unknownSubcommand name)
    | .separator =>
      match words with
      | [] => .error .nothingGiven
      | next :: _ => .error (if isCommandWord next then .unknownArgument next else .unknownSubcommand next)
    | .long name value =>
      match name, value with
      | "help", none => .error .help
      | "version", none => .error .version
      | "help", some value | "version", some value => .error (.unexpectedValue name value)
      | _, _ => .error (.unknownArgument w)
    | .short letter _ =>
      .error (if letter == 'h' then .help else if letter == 'V' then .version else .unknownArgument w)

end TestScaffold.CommandLine
