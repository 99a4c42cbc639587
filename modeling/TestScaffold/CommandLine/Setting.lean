/-!
# Subcommands, settings and words

* `Subcommand.setting?` and `Subcommand.shortSetting?`: the settings that a subcommand knows, by name.
* `Subcommand.ofName?` inverts `Subcommand.name` (`ofName?_name`).
* `Word.ofString`: how one word reads on its own, before any setting is known.
-/

namespace TestScaffold.CommandLine

/-! ## Subcommands and their settings -/

/-- Something that takes one value and is given at most once. -/
inductive Setting
  | output
  | jobs
  | load
  | synth
  | write
  | framework
  | root
  deriving DecidableEq, Repr

namespace Setting

/-- The name after two dashes. -/
def name : Setting → String
  | output => "output"
  | jobs => "jobs"
  | load => "load-parallelism"
  | synth => "synth-parallelism"
  | write => "write-parallelism"
  | framework => "framework"
  | root => "root"

/-- The letter after one dash, for the settings that have one. -/
def letter? : Setting → Option Char
  | output => some 'o'
  | jobs => some 'j'
  | load | synth | write | framework | root => none

end Setting

/-- What the program can be told to do. -/
inductive Subcommand
  | generate
  | inspect
  | render
  deriving DecidableEq, Repr

namespace Subcommand

/-- Every subcommand. -/
def all : List Subcommand := [generate, inspect, render]

/-- The word that asks for a subcommand. -/
def name : Subcommand → String
  | generate => "generate"
  | inspect => "inspect"
  | render => "render"

/-- The subcommand called `s`; letter case matters. -/
def ofName? (s : String) : Option Subcommand := all.find? fun c => c.name == s

/-- The settings a subcommand knows. -/
def settings : Subcommand → List Setting
  | generate => [.output, .jobs, .load, .synth, .write, .framework, .root]
  | inspect => []
  | render => [.framework]

/-- Whether a subcommand works on any number of files; the others work on one. -/
def takesManyFiles : Subcommand → Bool
  | generate => true
  | inspect | render => false

/-- The setting of a subcommand with a name. -/
def setting? (c : Subcommand) (name : String) : Option Setting := c.settings.find? fun s => s.name == name

/-- The setting of a subcommand with a letter. -/
def shortSetting? (c : Subcommand) (letter : Char) : Option Setting :=
  c.settings.find? fun s => s.letter? == some letter

@[simp] theorem ofName?_name (c : Subcommand) : ofName? c.name = some c := by cases c <;> rfl

theorem setting?_name {c : Subcommand} {s : Setting} (h : s ∈ c.settings) : c.setting? s.name = some s := by
  cases c <;> cases s <;> simp_all [settings, setting?, Setting.name]

end Subcommand

/-! ## Words -/

/-- How a word reads. -/
inductive Word
  /-- Two dashes alone: every later word is taken as it stands. -/
  | separator
  /-- Two dashes, a name, and the value that an equals sign may attach. -/
  | long (name : String) (value : Option String)
  /-- One dash, a letter, and what follows it. -/
  | short (letter : Char) (rest : List Char)
  /-- Anything else, a single dash and the empty word among them. -/
  | plain (text : String)
  deriving DecidableEq, Repr

namespace Word

/-- What follows the first equals sign, if there is one. -/
def attached? (cs : List Char) : Option String :=
  match cs.dropWhile (· != '=') with
  | _ :: value => some (String.ofList value)
  | [] => none

/-- How a word reads. -/
def ofString (s : String) : Word :=
  match s.toList with
  | ['-', '-'] => .separator
  | '-' :: '-' :: cs => .long (String.ofList (cs.takeWhile (· != '='))) (attached? cs)
  | '-' :: letter :: rest => .short letter rest
  | _ => .plain s

/-- The value behind a short name: all that follows it, without one equals sign in front. -/
def shortValue? : (rest : List Char) → Option String
  | [] => none
  | '=' :: value => some (String.ofList value)
  | value => some (String.ofList value)

theorem ofString_of_head?_ne {s : String} (h : s.toList.head? ≠ some '-') : ofString s = .plain s := by
  unfold ofString
  cases hs : s.toList with
  | nil => rfl
  | cons c cs =>
    have hc : c ≠ '-' := by simpa [hs] using h
    split <;> simp_all

end Word

end TestScaffold.CommandLine
