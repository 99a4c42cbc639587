import TestScaffold.Text.Place
import TestScaffold.Vocabulary

/-!
# Declarations

What a text declares, as nested values: a namespace holds namespaces and types, a type holds types and members.

* `TypeKind.isClassLike` picks the types whose methods carry code worth a test.
* `DeclarationKind.label` is the word an outline shows.
* `Declaration.size` counts a declaration together with everything declared inside it.
-/

namespace TestScaffold

/-! ## Kinds -/

/-- The flavour of a type declaration. -/
inductive TypeKind
  | classType
  | structType
  | recordType
  | interfaceType
  | enumType
  deriving DecidableEq, Repr

/-- What a declaration declares. -/
inductive DeclarationKind
  /-- The whole text: the root of every declaration tree. -/
  | unit
  | namespaceBlock
  | type (kind : TypeKind)
  | method
  | constructor
  | property
  | field
  /-- An operator, destructor, event or delegate. -/
  | other
  deriving DecidableEq, Repr

namespace TypeKind

/-- The word that introduces the type. -/
def label : TypeKind → String
  | classType => "class"
  | structType => "struct"
  | recordType => "record"
  | interfaceType => "interface"
  | enumType => "enum"

/-- Whether the methods of the type carry implementations: classes, structs and records. -/
def isClassLike : TypeKind → Bool
  | classType | structType | recordType => true
  | interfaceType | enumType => false

end TypeKind

namespace DeclarationKind

/-- The word an outline shows for the kind. -/
def label : DeclarationKind → String
  | unit => "unit"
  | namespaceBlock => "namespace"
  | type kind => kind.label
  | method => "method"
  | constructor => "constructor"
  | property => "property"
  | field => "field"
  | other => "other"

/-- Whether the declaration is a class, struct or record. -/
def isClassLike : DeclarationKind → Bool
  | type kind => kind.isClassLike
  | _ => false

end DeclarationKind

/-! ## Nested declarations -/

/-- A declaration with everything declared inside it, in source order. The name of a namespace is dotted if it was
written so, and the name of a whole text is empty. -/
structure Declaration where
  kind : DeclarationKind
  name : String
  modifiers : List Keyword
  span : Span
  children : List Declaration

namespace Declaration

mutual

/-- The number of declarations, this one included. -/
def size : Declaration → Nat
  | ⟨_, _, _, _, children⟩ => sizeAll children + 1

/-- The number of declarations in a list, nested ones included. -/
def sizeAll : List Declaration → Nat
  | [] => 0
  | d :: ds => d.size + sizeAll ds

end

end Declaration

end TestScaffold
