import BinaryNames.Declaration.Tree
import BinaryNames.Error
import BinaryNames.Java.Outline
import BinaryNames.Path
import Std.Data.HashMap

/-!
# Declarations of a Java Source

The parts of an outline are attached to a declaration tree in the order in which they stand.  A
named type is qualified by its enclosing types or its package, and a class body without a name by a
number that counts such bodies in the innermost enclosing type.  Headers are not searched.
-/

namespace BinaryNames.Java

/-- The tree so far, and how many bodies without a name each type has had. -/
structure Growth where
  tree : DeclarationTree
  anonymousCounts : Std.HashMap Nat Nat := {}

/-- Where the declarations of a part belong. -/
structure Scope where
  /-- The innermost type around the part. -/
  enclosing : Option Nat := none
  /-- Whether the part stands in code rather than directly in the body of a type. -/
  inCode : Bool := false
  /-- The declaration that new ones are attached to. -/
  parent : Nat := 0

namespace Growth

def push (g : Growth) (scope : Scope) (d : Declaration) : Growth :=
  { g with tree := g.tree.push scope.parent d }

/-- The position of the declaration pushed last. -/
def lastId (g : Growth) : Nat := g.tree.lastId

/-- The qualified name of the enclosing type, if there is a type and it has one. -/
def enclosingName? (g : Growth) (scope : Scope) : Option String :=
  (scope.enclosing.bind g.tree.node?).bind (·.qualifiedName)

/-- The qualified name of a named type. -/
def qualifiedName (g : Growth) (package : String) (scope : Scope) (name : String) : String :=
  match g.enclosingName? scope with
  | some outer => outer ++ "$" ++ name
  | none => if package = "" then name else package ++ "." ++ name

/-- Counts one more body without a name in the enclosing type. -/
def countAnonymous (g : Growth) (scope : Scope) : Growth :=
  match scope.enclosing with
  | none => g
  | some id =>
    let count := g.anonymousCounts.getD id 0 + 1
    { g with anonymousCounts := g.anonymousCounts.insert id count }

/-- The qualified name of the body counted last in the enclosing type. -/
def anonymousName? (g : Growth) (scope : Scope) : Option String :=
  match scope.enclosing with
  | none => none
  | some id =>
    (g.enclosingName? scope).map (fun outer ↦
      outer ++ "$" ++ Nat.repr (g.anonymousCounts.getD id 0))

def pushType (g : Growth) (package : String) (scope : Scope) (span : Span) (name : String) :
    Growth :=
  g.push scope
    { kind := .type, span, qualifiedName := some (g.qualifiedName package scope name),
      simpleName := some name, isLocal := scope.inCode }

def pushAnonymous (g : Growth) (scope : Scope) (body : Span) : Growth :=
  let counted := g.countAnonymous scope
  counted.push scope
    { kind := .type, span := body, qualifiedName := counted.anonymousName? scope,
      isAnonymous := true }

end Growth

namespace Scope

/-- Inside the body of the type at `id`. -/
def body (id : Nat) : Scope := ⟨some id, false, id⟩

/-- Inside the code of the declaration at `id`. -/
def code (scope : Scope) (id : Nat) : Scope := ⟨scope.enclosing, true, id⟩

/-- Whether a block here initializes instances of a type. -/
def isBody (scope : Scope) : Bool := !scope.inCode && scope.enclosing.isSome

end Scope

mutual

/-- Attaches what a part declares. -/
def growPart (package : String) (scope : Scope) (g : Growth) : Part → Growth
  | .type span name _ members =>
    let g := g.pushType package scope span name
    growParts package (.body g.lastId) g members
  | .method span name _ body =>
    let g := g.push scope { kind := .method, span, simpleName := some name }
    growParts package (scope.code g.lastId) g body
  | .field span name parts =>
    let g := g.push scope { kind := .field, span, simpleName := some name }
    growParts package (scope.code g.lastId) g parts
  | .staticInitializer span parts =>
    let g := g.push scope { kind := .initializer, span }
    growParts package (scope.code g.lastId) g parts
  | .block span parts =>
    if scope.isBody then
      let g := g.push scope { kind := .initializer, span }
      growParts package (scope.code g.lastId) g parts
    else growParts package scope g parts
  | .host arguments body members =>
    let g := growParts package scope g arguments
    let g := g.pushAnonymous scope body
    growParts package (.body g.lastId) g members
  | .other parts => growParts package scope g parts

/-- Attaches what the parts declare, in order. -/
def growParts (package : String) (scope : Scope) (g : Growth) : List Part → Growth
  | [] => g
  | part :: rest => growParts package scope (growPart package scope g part) rest

end

/-- The package of a source: the declared one, else the one that its place suggests, else none. -/
def Outline.packageName (outline : Outline) (suggested : Option String) : String :=
  (outline.package.or suggested).getD ""

/-- The declarations of an outlined source of `size` bytes. -/
def Outline.declarations (outline : Outline) (size : Nat) (suggested : Option String) :
    DeclarationTree :=
  let start : Growth := { tree := .empty (offsetOfSize size) }
  (growParts (outline.packageName suggested) {} start outline.parts).tree

/-- The largest source that is read, in bytes. -/
def maxSourceSize : Nat := 16777216

/-- The extension of a path as text; none counts as empty. -/
def extensionText (file : Path) : String :=
  (file.extension?.bind Utf8.decode?).getD ""

def isJavaFile (file : Path) : Bool := extensionText file = "java"

/-- Refuses a file that is not a Java source. -/
def checkLanguage (file : Path) : Except Error Unit :=
  if isJavaFile file then .ok () else .error (.unsupportedLanguage (extensionText file))

/-- The declarations of a source file, whose place may suggest a package. -/
def declarations (file : Path) (source : String) (suggested : Option String) :
    Except Error DeclarationTree :=
  let size := source.utf8ByteSize
  if size > maxSourceSize then .error (.fileTooLarge file size maxSourceSize)
  else do
    checkLanguage file
    return (Outline.ofSource source).declarations size suggested

end BinaryNames.Java
