import TestScaffold.Text.Decoding

/-!
# File systems

Files, directories and links, as a value. An entry is known by the names that lead to it from the top; a file may have
several entries, which then share its contents. Looking a path up goes through its pieces one by one, from the top or
from the working directory, and links are followed on the way, so what is missing or in the way is reported as the
system does.

* `Path.join`, `Path.pieces`: paths are kept as they are written, since messages show them so.
* `FileSystem.lookup`: what stands at a path.
* `FileSystem.create` and `FileSystem.writeAt`: a file is emptied or made first, and then filled piece by piece.
* `FileSystem.node?_put`, `FileSystem.file_setFile`: what a change leaves alone.
-/

namespace TestScaffold

namespace Path

/-- Whether a path starts at the top of the file system. -/
def isAbsolute (path : String) : Bool := path.toList.head? == some '/'

/-- The path `path` taken from `base` on. An absolute path stands for itself; between the two parts stands exactly
one separator more than `base` has at its end, unless `base` is empty. -/
def join (base path : String) : String :=
  if isAbsolute path then path
  else if base.isEmpty || base.toList.getLast? == some '/' then base ++ path
  else base ++ "/" ++ path

/-- The pieces of a path between its separators; two separators in a row have an empty piece between them. -/
def pieces (path : String) : List String := (path.toList.splitOn '/').map String.ofList

/-- The names a path goes through. Empty pieces and single dots lead nowhere. -/
def steps (path : String) : List String := (pieces path).filter fun s => s != "" && s != "."

end Path

/-- Why the system refuses an operation on a path. -/
inductive FileError
  | notFound
  | notADirectory
  | isADirectory
  | nameTooLong
  | tooManyLinks
  /-- The path holds a character that ends paths. -/
  | nulInPath
  /-- The contents of the file are no text. -/
  | notText
  /-- Any other refusal, in the system's words. -/
  | other (message : String)
  deriving DecidableEq, Repr

/-- The refusal in words. -/
def FileError.message : FileError → String
  | notFound => "No such file or directory (os error 2)"
  | notADirectory => "Not a directory (os error 20)"
  | isADirectory => "Is a directory (os error 21)"
  | nameTooLong => "File name too long (os error 36)"
  | tooManyLinks => "Too many levels of symbolic links (os error 40)"
  | nulInPath => "file name contained an unexpected NUL byte"
  | notText => "stream did not contain valid UTF-8"
  | other message => message

/-! ## Files -/

/-- What a file holds. -/
inductive Contents
  /-- The UTF-8 form of a text. -/
  | text (value : String)
  | bytes (values : List UInt8)
  /-- A number of zero bytes. -/
  | zeros (count : Nat)
  deriving DecidableEq, Repr

namespace Contents

/-- The number of bytes. -/
def size : Contents → Nat
  | text value => value.utf8ByteSize
  | bytes values => values.length
  | zeros count => count

/-- The contents read as text. -/
def decode : Contents → Except Text.Utf8Fault String
  | text value => .ok value
  | bytes values => Text.decode values
  | zeros count => .ok (String.ofList (List.replicate count '\x00'))

/-- The contents byte by byte. -/
def toBytes : Contents → List UInt8
  | text value => Text.encode value
  | bytes values => values
  | zeros count => List.replicate count 0

/-- The contents with `values` from the byte at `offset` on. Bytes missing in front of them become zero. -/
def overwrite (c : Contents) (offset : Nat) (values : List UInt8) : Contents :=
  let old := c.toBytes
  .bytes (old.take offset ++ List.replicate (offset - old.length) 0 ++ values ++ old.drop (offset + values.length))

end Contents

/-- A file, and why it cannot be read if it cannot. -/
structure File where
  contents : Contents
  refusal : Option FileError := none
  deriving DecidableEq, Repr

/-- What is found at a path. -/
inductive Entry
  | file (contents : Contents)
  | directory
  /-- A file that cannot be read, but whose size is known. -/
  | unreadable (size : Nat) (cause : FileError)
  deriving DecidableEq, Repr

/-- The size of an entry in bytes. Directories count as small. -/
def Entry.size : Entry → Nat
  | file contents => contents.size
  | directory => 0
  | unreadable size _ => size

/-- The text of an entry, if it has one. -/
def Entry.text? : Entry → Option String
  | file contents => contents.decode.toOption
  | directory | unreadable _ _ => none

/-- A file as it is found. -/
def File.entry (f : File) : Entry :=
  match f.refusal with
  | none => .file f.contents
  | some cause => .unreadable f.contents.size cause

/-- What can be learned about paths: what is found there, or why nothing is. -/
abbrev Lookup := String → Except FileError Entry

/-! ## File systems -/

/-- What a list of names leads to. -/
inductive FileNode
  /-- The file with a number. -/
  | file (number : Nat)
  | directory
  /-- A link to a path, taken from the directory that the link is in. -/
  | link (target : String)
  deriving DecidableEq, Repr

/-- The number of a file. -/
def FileNode.number? : FileNode → Option Nat
  | file number => some number
  | directory | link _ => none

/-- Directories, links and files by the names that lead to them from the top, and the files by their numbers. -/
structure FileSystem where
  /-- The working directory. -/
  working : List String := ["scratch"]
  nodes : List (List String × FileNode) := [(["scratch"], .directory)]
  files : List (Nat × File) := []
  deriving DecidableEq, Repr

namespace FileSystem

/-- What a list of names leads to; no name leads to the top. -/
def node? (fs : FileSystem) : (names : List String) → Option FileNode
  | [] => some .directory
  | names => fs.nodes.lookup names

/-- The file with a number. -/
def file (fs : FileSystem) (number : Nat) : File := (fs.files.lookup number).getD { contents := .bytes [] }

/-- A number that no entry has. -/
def fresh (fs : FileSystem) : Nat := (fs.nodes.filterMap fun e => e.2.number?).foldr max 0 + 1

/-- The file system with an entry made or replaced. -/
def put (fs : FileSystem) (names : List String) (node : FileNode) : FileSystem :=
  { fs with nodes := (names, node) :: fs.nodes.filter fun e => e.1 != names }

/-- The file system with the file with a number replaced. -/
def setFile (fs : FileSystem) (number : Nat) (f : File) : FileSystem :=
  { fs with files := (number, f) :: fs.files.filter fun e => e.1 != number }

/-- What is found at a place that a walk has come to. -/
def entryAt (fs : FileSystem) (place : List String) : Except FileError Entry :=
  match fs.node? place with
  | some (.file number) => .ok (fs.file number).entry
  | some .directory => .ok .directory
  | some (.link _) | none => .error .notFound

/-! ## Walks along paths -/

/-- The longest name an entry may have, in bytes. -/
def maxName : Nat := 255

/-- The longest path that can be looked up, in bytes. -/
def maxPath : Nat := 4095

/-- The number of links that a walk follows. -/
def maxLinks : Nat := 40

/-- Fails away from a directory. -/
def checkDirectory (fs : FileSystem) (place : List String) : Except FileError Unit :=
  match fs.node? place with
  | some .directory => .ok ()
  | some _ => .error .notADirectory
  | none => .error .notFound

/-- The place that a piece of a path leads to from a directory, whether something stands there or not. -/
def step (place : List String) (piece : String) : Except FileError (List String) :=
  if piece == "" || piece == "." then .ok place
  else if piece == ".." then .ok place.dropLast
  else if piece.utf8ByteSize > maxName then .error .nameTooLong
  else .ok (place ++ [piece])

/-- Whether a path that ends in `piece` and `rest` can lead to nothing but a directory: it ends in a separator or in
dots. -/
def endsInDirectory (piece : String) (rest : List String) : Bool :=
  rest.all (· == "") && (!rest.isEmpty || piece == "" || piece == "." || piece == "..")

/-- Walks along the pieces of a path from a place, and goes on with `follow` from a link. A walk that is to make a file
is refused where its path could lead to nothing but a directory. -/
def walkWith (fs : FileSystem) (making : Bool)
    (follow : (place pieces : List String) → Except FileError (List String)) :
    (place pieces : List String) → Except FileError (List String)
  | place, [] => .ok place
  | place, piece :: rest => do
    fs.checkDirectory place
    if making && endsInDirectory piece rest then throw .isADirectory
    let next ← step place piece
    match fs.node? next with
    | some (.link target) => follow (if Path.isAbsolute target then [] else place) (Path.pieces target ++ rest)
    | _ => walkWith fs making follow next rest

/-- Walks along the pieces of a path, and follows no more than `links` links. -/
def walk (fs : FileSystem) (making : Bool) : (links : Nat) → (place pieces : List String) →
    Except FileError (List String)
  | 0 => fs.walkWith making fun _ _ => .error .tooManyLinks
  | links + 1 => fs.walkWith making (fs.walk making links)

/-- Where the walk along a path starts. Some paths cannot be walked at all. -/
def start (fs : FileSystem) (path : String) : Except FileError (List String) :=
  if path.toList.contains '\x00' then .error .nulInPath
  else if path.isEmpty then .error .notFound
  else if path.utf8ByteSize > maxPath then .error .nameTooLong
  else .ok (if Path.isAbsolute path then [] else fs.working)

/-- Where a path leads, whether something stands there or not. -/
def locate (fs : FileSystem) (making : Bool) (path : String) : Except FileError (List String) := do
  fs.walk making maxLinks (← fs.start path) (Path.pieces path)

/-- What is found at a path. -/
def lookup (fs : FileSystem) : Lookup := fun path => do
  fs.entryAt (← fs.locate false path)

/-! ## Writing -/

/-- The file system with an empty file at `path`, made there or emptied, and the number of the file. -/
def create (fs : FileSystem) (path : String) : Except FileError (FileSystem × Nat) := do
  let place ← fs.locate true path
  match fs.node? place with
  | some (.file number) => return (fs.setFile number { fs.file number with contents := .bytes [] }, number)
  | none =>
    let number := fs.fresh
    return ((fs.put place (.file number)).setFile number { contents := .bytes [] }, number)
  | some _ => throw .isADirectory

/-- The file system after bytes have been written into a file. -/
def writeAt (fs : FileSystem) (number offset : Nat) (values : List UInt8) : FileSystem :=
  fs.setFile number { fs.file number with contents := (fs.file number).contents.overwrite offset values }

/-- The file system with the file at `path` made or replaced. -/
def write (fs : FileSystem) (path text : String) : Except FileError FileSystem := do
  let (fs, number) ← fs.create path
  return fs.writeAt number 0 (Text.encode text)

/-! ## Making and listing directories -/

/-- A walk from the directory at `front` along the names of a path, which creates every directory it comes to, unless
something stands there: the file system after it, and where it ends. Two dots lead one directory up. -/
def makeWay (fs : FileSystem) (front : List String) : (steps : List String) → FileSystem × List String
  | [] => (fs, front)
  | ".." :: steps => fs.makeWay front.dropLast steps
  | name :: steps =>
    let place := front ++ [name]
    let fs := if (fs.node? place).isSome then fs else fs.put place .directory
    fs.makeWay place steps

/-- The file system with a directory at the end of `steps` and all directories on the way. -/
def makeDirectory (fs : FileSystem) (steps : List String) : FileSystem := (fs.makeWay fs.working steps).1

/-- The file system with a file at the end of `steps` and all directories on the way. -/
def makeFile (fs : FileSystem) (steps : List String) (contents : Contents) : FileSystem :=
  let (fs, place) := fs.makeWay fs.working steps.dropLast
  (fs.put (place ++ steps.getLast?.toList) (.file fs.fresh)).setFile fs.fresh { contents }

/-- The entries of a directory with their texts, in the order of their names. -/
def list (fs : FileSystem) (names : List String) : List (String × Option String) :=
  let below := fs.nodes.filterMap fun (place, _) =>
    match place.getLast? with
    | some name =>
      if place.dropLast == names then some (name, (fs.entryAt place).toOption.bind Entry.text?) else none
    | none => none
  below.mergeSort fun a b => !(b.1 < a.1)

/-- The entries of the directory at a path, if a directory stands there. -/
def list? (fs : FileSystem) (path : String) : Option (List (String × Option String)) := do
  let place ← (fs.locate false path).toOption
  if fs.node? place = some .directory then some (fs.list place) else none

/-! ## What a change leaves alone -/

theorem lookup_cons_filter_ne {α β : Type} [DecidableEq α] [BEq α] [LawfulBEq α] (es : List (α × β)) (k : α) (v : β) (j : α) :
    ((k, v) :: es.filter fun e => e.1 != k).lookup j = if j = k then some v else es.lookup j := by
  rw [List.lookup_cons]
  by_cases hj : j = k
  · simp [hj]
  · rw [beq_false_of_ne hj, if_neg hj]
    induction es with
    | nil => rfl
    | cons e es ih =>
      obtain ⟨i, w⟩ := e
      rw [List.filter_cons, List.lookup_cons]
      by_cases hi : i = k
      · rw [hi, bne_self_eq_false, if_neg Bool.false_ne_true, beq_false_of_ne hj]
        exact ih
      · rw [bne_iff_ne.mpr hi, if_pos rfl, List.lookup_cons]
        cases j == i
        · exact ih
        · rfl

theorem node?_put (fs : FileSystem) {names : List String} (h : names ≠ []) (node : FileNode) (others : List String) :
    (fs.put names node).node? others = if others = names then some node else fs.node? others := by
  cases others with
  | nil => rw [node?, node?, if_neg (Ne.symm h)]
  | cons name rest => exact lookup_cons_filter_ne fs.nodes names node (name :: rest)

theorem file_setFile (fs : FileSystem) (number : Nat) (f : File) (other : Nat) :
    (fs.setFile number f).file other = if other = number then f else fs.file other := by
  rw [file, setFile, lookup_cons_filter_ne]
  split <;> rfl

@[simp] theorem node?_setFile (fs : FileSystem) (number : Nat) (f : File) (names : List String) :
    (fs.setFile number f).node? names = fs.node? names := by
  cases names <;> rfl

end FileSystem

end TestScaffold
