import BinaryNames.Toml.Document
import BinaryNames.Workspace.Basic

/-!
# Workspace Configuration

A workspace is described by a TOML document with the tables `projects` and `libraries`.  Paths in it
are relative to the directory of the document, the source roots of a project to the project.  Keys
that mean nothing here are ignored, and a description may also be the array of its fields in order.
-/

namespace BinaryNames

/-- A project as described. -/
structure ProjectDescription where
  name : String
  root : String
  sourceRoots : List String
deriving DecidableEq, Repr

/-- A library as described. -/
structure LibraryDescription where
  archive : Option String
  id : String
  types : List String
deriving DecidableEq, Repr

structure WorkspaceDescription where
  projects : List ProjectDescription
  libraries : List LibraryDescription
deriving DecidableEq, Repr

namespace Toml.Value

def text? : Value → Option String
  | text s => some s
  | _ => none

def items? : Value → Option (List Value)
  | array _ items => some items
  | _ => none

def texts? (v : Value) : Option (List String) := v.items?.bind (·.mapM text?)

/-- The values of named fields: those of a table by their keys, those of an array by their order. -/
def fields? (names : List String) : Value → Option (List (Option Value))
  | table _ entries => some (names.map (Entries.find? entries))
  | array _ items => some ((List.range names.length).map (items[·]?))
  | _ => none

end Toml.Value

open Toml (Value)

/-- A field that may be left out. -/
def optionalField {α : Type} (fallback : α) (read? : Value → Option α) :
    Option Value → Option α
  | none => some fallback
  | some v => read? v

def ProjectDescription.ofValue? (v : Value) : Option ProjectDescription := do
  match ← v.fields? ["name", "root", "source_roots"] with
  | [name, root, sourceRoots] =>
    return ⟨← name.bind Value.text?, ← optionalField "." Value.text? root,
      ← optionalField [] Value.texts? sourceRoots⟩
  | _ => none

def LibraryDescription.ofValue? (v : Value) : Option LibraryDescription := do
  match ← v.fields? ["archive", "id", "types"] with
  | [archive, id, types] =>
    return ⟨← optionalField none (fun v ↦ v.text?.map some) archive, ← id.bind Value.text?,
      ← optionalField [] Value.texts? types⟩
  | _ => none

namespace WorkspaceDescription

def ofEntries? (entries : Toml.Entries) : Option WorkspaceDescription := do
  let projects ← optionalField [] Value.items? (entries.find? "projects")
  let libraries ← optionalField [] Value.items? (entries.find? "libraries")
  return ⟨← projects.mapM ProjectDescription.ofValue?, ← libraries.mapM LibraryDescription.ofValue?⟩

def ofToml? (text : String) : Option WorkspaceDescription := (Toml.parse? text).bind ofEntries?

end WorkspaceDescription

/-- The source roots of a project that lists none. -/
def defaultSourceRoots : List String := ["src/main/java", "src/test/java"]

/-- The project with its paths seen from `base`. -/
def ProjectDescription.resolve (base : Path) (d : ProjectDescription) : Project :=
  let root := (base.join (.ofString d.root)).normalize
  let roots := if d.sourceRoots.isEmpty then defaultSourceRoots else d.sourceRoots
  ⟨d.name, root, roots.map fun r ↦ (root.join (.ofString r)).normalize⟩

/-- The library with its archive seen from `base`. -/
def LibraryDescription.resolve (base : Path) (d : LibraryDescription) : Library :=
  ⟨d.id, d.archive.map fun a ↦ (base.join (.ofString a)).normalize, d.types⟩

def WorkspaceDescription.resolve (base : Path) (d : WorkspaceDescription) : Workspace :=
  ⟨d.projects.map (·.resolve base), d.libraries.map (·.resolve base)⟩

/-- The workspace that a document in the directory `base` describes. -/
def Workspace.ofToml (text : String) (base : Path) : Except Error Workspace :=
  match WorkspaceDescription.ofToml? text with
  | some d => .ok (d.resolve base)
  | none => .error (.invalidToml "not a workspace description")

end BinaryNames
