import Std.Data.HashSet
import TestScaffold.Declaration.Tree
import TestScaffold.TestUnit.Layout

/-!
# Test units

Which types of a declaration tree get a test unit, and the text of the unit: a class with one failing stub per public
method. The unit lives in a namespace below the type's own, and its class is named after the type. Overloads share a
method name, so stubs are numbered where their names would clash. Frameworks differ in their library, their attributes and
in the statement that fails.

* `classLikeTypes`: the classes, structs and records reached from the root through namespaces only.
* `enclosingNamespace?`: the dotted name of the namespaces around a node, found along its parent links.
* `Descriptor.ofNode?`: what a test unit has to know; a type outside any namespace has no descriptor.
* `Framework.ofName?` inverts `Framework.name` (`ofName?_name`).
* `stubNames`: the names of the stubs, one per method and in order (`length_stubNames`).
* `TestUnit.render`: the text of a unit.
-/

namespace TestScaffold

/-! ## Descriptors -/

/-- What a test unit has to know about a type. -/
structure Descriptor where
  name : String
  /-- The names of all enclosing namespaces joined with dots, outermost first. -/
  namespaceName : String
  /-- The names of the public methods in source order; overloads repeat. -/
  methods : List String
  deriving DecidableEq, Repr

namespace DeclarationTree

/-- The class-like types at or below a node that are reached through namespaces, down to `bound` levels. -/
def classLikeFrom (t : DeclarationTree) : (bound : Nat) → (id : Nat) → List Nat
  | 0, _ => []
  | bound + 1, id =>
    match (t.get? id).map Node.kind with
    | some .namespaceBlock => (t.children id).flatMap (classLikeFrom t bound)
    | some kind => if kind.isClassLike then [id] else []
    | none => []

/-- The class-like types that are not nested inside other types, in source order. -/
def classLikeTypes (t : DeclarationTree) : List Nat := (t.children 0).flatMap (t.classLikeFrom t.size)

/-- The names of a type's own public methods, in source order. -/
def publicMethods (t : DeclarationTree) (id : Nat) : List String :=
  (t.children id).filterMap fun child =>
    (t.get? child).bind fun n => if n.kind == .method && n.isPublic then some n.name else none

/-- The name of the namespace with an index, if a namespace has it. -/
def namespaceName? (t : DeclarationTree) (id : Nat) : Option String :=
  (t.get? id).bind fun n => if n.kind == .namespaceBlock then some n.name else none

/-- The dotted name of the namespaces around a node, outermost first, if there are any. -/
def enclosingNamespace? (t : DeclarationTree) (id : Nat) : Option String :=
  match (t.ancestors id).filterMap t.namespaceName? with
  | [] => none
  | names => some (".".intercalate names.reverse)

/-- The name of a node; empty for an index the tree does not have. -/
def nameOf (t : DeclarationTree) (id : Nat) : String := (t.get? id).elim "" Node.name

end DeclarationTree

/-- What a test unit has to know about a node, if a namespace encloses it. -/
def Descriptor.ofNode? (t : DeclarationTree) (id : Nat) : Option Descriptor :=
  (t.enclosingNamespace? id).map fun namespaceName => ⟨t.nameOf id, namespaceName, t.publicMethods id⟩

/-! ## Frameworks -/

/-- A test framework that units are written for. -/
inductive Framework
  | nunit
  | mstest
  | xunit
  deriving DecidableEq, Repr, Inhabited

namespace Framework

/-- Every framework, the usual one first. -/
def all : List Framework := [nunit, mstest, xunit]

/-- The name by which a framework is chosen. -/
def name : Framework → String
  | nunit => "nunit"
  | mstest => "mstest"
  | xunit => "xunit"

/-- The framework called `s`; letter case matters. -/
def ofName? (s : String) : Option Framework := all.find? fun f => f.name == s

/-- The namespace that holds the framework's attributes and assertions. -/
def library : Framework → String
  | nunit => "NUnit.Framework"
  | mstest => "Microsoft.VisualStudio.TestTools.UnitTesting"
  | xunit => "Xunit"

/-- The attribute of a test class, where the framework asks for one. -/
def classAttribute? : Framework → Option String
  | nunit => some "TestFixture"
  | mstest => some "TestClass"
  | xunit => none

/-- The attribute of a test method. -/
def methodAttribute : Framework → String
  | nunit => "Test"
  | mstest => "TestMethod"
  | xunit => "Fact"

/-- The statement that fails with `message`. -/
def failure (f : Framework) (message : String) : String :=
  match f with
  | nunit | mstest => s!"Assert.Fail(\"{message}\");"
  | xunit => s!"Assert.True(false, \"{message}\");"

@[simp] theorem ofName?_name (f : Framework) : ofName? f.name = some f := by cases f <;> rfl

end Framework

end TestScaffold

namespace TestScaffold.Naming

/-! ## Names -/

/-- The namespace of the test unit for a type declared in `namespaceName`. -/
def testNamespace (namespaceName : String) : String := namespaceName ++ ".Tests"

/-- The name of the test class for the type `typeName`. -/
def testTypeName (typeName : String) : String := typeName ++ "Test"

/-- What every stub fails with. -/
def failureMarker : String := "autogenerated"

/-- The `n`-th name for a stub of `method`, counted from one. The first one bears no number. -/
def stubName (method : String) (n : Nat) : String :=
  let base := method ++ "Test"
  if n ≤ 1 then base else base ++ toString n

/-- The first stub name of `method` from the `n`-th on that is not taken. With one more candidate than there are
taken names, the last one looked at is free. -/
def firstFree (taken : Std.HashSet String) (method : String) : (candidates n : Nat) → String
  | 0, n => stubName method n
  | candidates + 1, n =>
    if taken.contains (stubName method n) then firstFree taken method candidates (n + 1)
    else stubName method n

/-- Stub names for `methods` that differ from one another and from the names in `taken`. -/
def stubNamesFrom (taken : Std.HashSet String) : (methods : List String) → List String
  | [] => []
  | method :: methods =>
    let name := firstFree taken method taken.size 1
    name :: stubNamesFrom (taken.insert name) methods

/-- The names of the stubs for `methods`, one per method and in order. -/
def stubNames (methods : List String) : List String := stubNamesFrom {} methods

theorem length_stubNamesFrom (taken : Std.HashSet String) (methods : List String) :
    (stubNamesFrom taken methods).length = methods.length := by
  induction methods generalizing taken with
  | nil => rfl
  | cons method methods ih => simp [stubNamesFrom, ih]

@[simp] theorem length_stubNames (methods : List String) : (stubNames methods).length = methods.length :=
  length_stubNamesFrom _ _

end TestScaffold.Naming

namespace TestScaffold

/-! ## Units -/

/-- A test unit ready to be stored. -/
structure TestUnit where
  /-- The name of the type that the unit tests. -/
  typeName : String
  text : String
  deriving DecidableEq, Repr

namespace TestUnit

/-- The extension of the files that hold units. -/
def extension : String := "cs"

/-- A stub called `name`. -/
def stub (f : Framework) (name : String) : List Layout :=
  [.attributeLine f.methodAttribute,
    .block s!"public void {name}()" [.line (f.failure Naming.failureMarker)]]

/-- The test class for a type, with the attribute that the framework asks for. -/
def testClass (f : Framework) (d : Descriptor) : List Layout :=
  let stubs := (Naming.stubNames d.methods).map (stub f)
  f.classAttribute?.toList.map .attributeLine
    ++ [.block s!"public class {Naming.testTypeName d.name}" (Layout.separated stubs)]

/-- The whole unit for a type. -/
def layout (f : Framework) (d : Descriptor) : List Layout :=
  [.usingLine "System", .usingLine f.library, .usingLine d.namespaceName, .blank,
    .block s!"namespace {Naming.testNamespace d.namespaceName}" (testClass f d)]

/-- The unit for a type, written for a framework. -/
def render (f : Framework) (d : Descriptor) : TestUnit := ⟨d.name, Layout.render (layout f d)⟩

end TestUnit

end TestScaffold
