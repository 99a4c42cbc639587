import TestScaffold.Proofs.Reading.Balanced
import TestScaffold.Declaration.Reader

/-!
# Texts as they are written

A text made of namespaces and types with bodies in braces, and of the members of these types, before it is spelled
in tokens. What stands between the delimiters of a parameter list, a body or an accessor block is kept as it is, as
any balanced row of tokens.

* `Written.Member`, `Written.Item`: what may stand inside a type, and outside of types.
* `Item.tokens`: how an item is spelled.
* `Item.declaration`: what an item declares.
* `Item.depth`: how deep the bodies of an item nest.
-/

namespace TestScaffold.Written

/-- A keyword that may stand in front of a declaration. -/
abbrev Modifier := { k : Keyword // k.isModifier = true }

/-- What stands between two delimiters of a group. -/
abbrev Content := { ks : List TokenKind // Nesting.Balanced (fun _ => true) ks }

/-- What stands between `=` and the semicolon that ends a field. -/
abbrev Value := { ks : List TokenKind // Nesting.Balanced (· != .punctuation .semicolon) ks }

/-- What may stand in the body of a type. Enumerations are left out, since their bodies hold no declarations. -/
inductive Member
  | method (modifiers : List Modifier) (returns name : String) (parameters body : Content)
  | constructor (modifiers : List Modifier) (parameters body : Content)
  | property (modifiers : List Modifier) (type name : String) (accessors : Content)
  | field (modifiers : List Modifier) (type name : String) (value : Option Value)
  | type (modifiers : List Modifier) (kind : TypeKind) (hasBody : kind ≠ .enumType) (name : String)
      (members : List Member)

/-- What may stand at the top of a text and in the body of a namespace. -/
inductive Item
  | type (modifiers : List Modifier) (kind : TypeKind) (hasBody : kind ≠ .enumType) (name : String)
      (members : List Member)
  /-- A namespace whose dotted name begins with `name` and goes on with `more`. -/
  | namespaceBlock (name : String) (more : List String) (items : List Item)

/-! ## Spelling -/

/-- The keyword that introduces a type. -/
def typeKeyword : TypeKind → Keyword
  | .classType => .classKw
  | .structType => .structKw
  | .recordType => .recordKw
  | .interfaceType => .interfaceKw
  | .enumType => .enumKw

/-- Modifiers in a row. -/
def modifierTokens (modifiers : List Modifier) : List TokenKind := modifiers.map fun m => .keyword m.1

/-- Tokens in parentheses. -/
def inParens (ks : List TokenKind) : List TokenKind :=
  .punctuation .leftParen :: (ks ++ [.punctuation .rightParen])

/-- Tokens in braces. -/
def inBraces (ks : List TokenKind) : List TokenKind :=
  .punctuation .leftBrace :: (ks ++ [.punctuation .rightBrace])

/-- The names behind the first one of a dotted name, each with its dot. -/
def dottedTokens (more : List String) : List TokenKind :=
  more.flatMap fun name => [.punctuation .dot, .identifier name]

/-- A type whose body holds `body`. -/
def typeTokens (modifiers : List Modifier) (kind : TypeKind) (name : String) (body : List TokenKind) :
    List TokenKind :=
  modifierTokens modifiers ++ .keyword (typeKeyword kind) :: .identifier name :: inBraces body

/-- What stands behind the name of a field. -/
def valueTokens : Option Value → List TokenKind
  | none => [.punctuation .semicolon]
  | some value => .punctuation .equals :: (value.1 ++ [.punctuation .semicolon])

mutual

/-- A member of the type called `owner`, in tokens. -/
def Member.tokens (owner : String) : Member → List TokenKind
  | .method modifiers returns name parameters body =>
    modifierTokens modifiers
      ++ .identifier returns :: .identifier name :: (inParens parameters.1 ++ inBraces body.1)
  | .constructor modifiers parameters body =>
    modifierTokens modifiers ++ .identifier owner :: (inParens parameters.1 ++ inBraces body.1)
  | .property modifiers type name accessors =>
    modifierTokens modifiers ++ .identifier type :: .identifier name :: inBraces accessors.1
  | .field modifiers type name value =>
    modifierTokens modifiers ++ .identifier type :: .identifier name :: valueTokens value
  | .type modifiers kind _ name members => typeTokens modifiers kind name (memberTokens name members)

/-- Members one after the other, in tokens. -/
def memberTokens (owner : String) : List Member → List TokenKind
  | [] => []
  | m :: ms => m.tokens owner ++ memberTokens owner ms

end

mutual

/-- An item in tokens. -/
def Item.tokens : Item → List TokenKind
  | .type modifiers kind _ name members => typeTokens modifiers kind name (memberTokens name members)
  | .namespaceBlock name more items =>
    .keyword .namespaceKw :: .identifier name :: (dottedTokens more ++ inBraces (itemTokens items))

/-- Items one after the other, in tokens. -/
def itemTokens : List Item → List TokenKind
  | [] => []
  | x :: xs => x.tokens ++ itemTokens xs

end

/-! ## Meaning -/

/-- The keywords of modifiers in a row. -/
def modifierKeywords (modifiers : List Modifier) : List Keyword := modifiers.map fun m => m.1

mutual

/-- What a member of the type called `owner` declares. -/
def Member.declaration (owner : String) : Member → Declaration
  | .method modifiers _ name _ _ => ⟨.method, name, modifierKeywords modifiers, .zero, []⟩
  | .constructor modifiers _ _ => ⟨.constructor, owner, modifierKeywords modifiers, .zero, []⟩
  | .property modifiers _ name _ => ⟨.property, name, modifierKeywords modifiers, .zero, []⟩
  | .field modifiers _ name _ => ⟨.field, name, modifierKeywords modifiers, .zero, []⟩
  | .type modifiers kind _ name members =>
    ⟨.type kind, name, modifierKeywords modifiers, .zero, memberDeclarations name members⟩

/-- What members declare, in their order. -/
def memberDeclarations (owner : String) : List Member → List Declaration
  | [] => []
  | m :: ms => m.declaration owner :: memberDeclarations owner ms

end

mutual

/-- What an item declares. -/
def Item.declaration : Item → Declaration
  | .type modifiers kind _ name members =>
    ⟨.type kind, name, modifierKeywords modifiers, .zero, memberDeclarations name members⟩
  | .namespaceBlock name more items =>
    ⟨.namespaceBlock, ".".intercalate (name :: more), [], .zero, itemDeclarations items⟩

/-- What items declare, in their order. -/
def itemDeclarations : List Item → List Declaration
  | [] => []
  | x :: xs => x.declaration :: itemDeclarations xs

end

/-- What a whole text declares. -/
def textDeclaration (items : List Item) : Declaration := ⟨.unit, "", [], .zero, itemDeclarations items⟩

mutual

/-- How deep the bodies of a member nest. -/
def Member.depth : Member → Nat
  | .type _ _ _ _ members => memberDepth members + 1
  | _ => 0

/-- How deep the bodies of some members nest. -/
def memberDepth : List Member → Nat
  | [] => 0
  | m :: ms => max m.depth (memberDepth ms)

end

mutual

/-- How deep the bodies of an item nest. -/
def Item.depth : Item → Nat
  | .type _ _ _ _ members => memberDepth members + 1
  | .namespaceBlock _ _ items => itemDepth items + 1

/-- How deep the bodies of some items nest. -/
def itemDepth : List Item → Nat
  | [] => 0
  | x :: xs => max x.depth (itemDepth xs)

end

end TestScaffold.Written
