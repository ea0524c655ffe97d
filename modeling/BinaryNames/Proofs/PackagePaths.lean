import BinaryNames.Proofs.DeepestRoot
import Mathlib

/-!
# Packages and the Paths They Spell

A package spells a path by its segments, and the directories of a file spell a package.  The two
undo each other as long as a segment is a directory name without dots: the parts of a type's name
are, and so are the directories of a file if no dot occurs in them.
-/

namespace BinaryNames.Package

/-- The components of a Java file in the directories with some names. -/
def fileSteps (dirs : List String) (simple : String) : List Component :=
  steps dirs ++ [.name (Utf8.encode (simple ++ ".java"))]

section Spelled

variable {dirs : List String} {simple : String} (hdirs : ∀ d ∈ dirs, IsSegment d)
  (hsimple : Path.IsFileName (Utf8.encode (simple ++ ".java")))
include hdirs hsimple

theorem isInner_fileSteps : ∀ c ∈ fileSteps dirs simple, Path.IsInner c := by
  rw [fileSteps, steps, List.forall_mem_append, List.forall_mem_map, List.forall_mem_singleton]
  exact ⟨fun d hd ↦ .name (hdirs d hd).isFileName, .name hsimple⟩

theorem sourcePath_eq_fileSteps :
    sourcePath (String.intercalate "." dirs) simple =
      ⟨joinWith Path.slash ((fileSteps dirs simple).map Component.bytes)⟩ := by
  rw [sourcePath_intercalate hdirs hsimple]
  simp [fileSteps, steps, Function.comp_def, Component.bytes]

/-- Under a root, the path of a type adds the directories of its package and the file. -/
theorem components_join_sourcePath (root : Path) :
    (root.join (sourcePath (String.intercalate "." dirs) simple)).components =
      root.components ++ fileSteps dirs simple := by
  rw [sourcePath_eq_fileSteps hdirs hsimple]
  exact Path.components_join_relative root (isInner_fileSteps hdirs hsimple)

end Spelled

section Read

variable {file root : Path} {roots : List Path} {dirs : List String} {simple : String}
  (hfile : file.components = root.components ++ fileSteps dirs simple)
include hfile

/-- The directories between the deepest root and a file are read as its package. -/
theorem ofFile?_of_isDeepest_fileSteps (h : IsDeepest roots file root) :
    ofFile? file roots = some (String.intercalate "." dirs) := by
  obtain ⟨chosen, hchosen, hcomponents⟩ := exists_deepestRoot h
  rw [← hcomponents] at hfile
  exact ofFile?_of_components hchosen hfile

theorem isFileName_of_mem_fileSteps {b : List UInt8} (hb : .name b ∈ fileSteps dirs simple) :
    Path.IsFileName b := by
  apply Path.isFileName_of_mem_components (p := file)
  rw [hfile]
  exact List.mem_append_right _ hb

end Read

/-- The file in which a type is expected under a root is of the type's package, if no deeper root is
around it.  Conversely, a file whose directories below its deepest root have no dots in their names
is expected where it is, by the package that it has and its own name. -/
theorem package_and_path_inverse (roots : List Path) (root : Path) :
    (∀ name t, TypeName.ofBinaryName name = .ok t →
      IsDeepest roots (root.join (sourcePath t.package t.simpleName)) root →
        ofFile? (root.join (sourcePath t.package t.simpleName)) roots = some t.package) ∧
    ∀ (file : Path) (dirs : List String) (x : String), IsDeepest roots file root →
      file.components = root.components ++ fileSteps dirs x → (∀ d ∈ dirs, '.' ∉ d.toList) →
        ∃ package, ofFile? file roots = some package ∧
          sourcePath package x =
            ⟨joinWith Path.slash (dirs.map Utf8.encode ++ [Utf8.encode (x ++ ".java")])⟩ ∧
          (root.join (sourcePath package x)).components = file.components := by
  constructor
  · intro name t hname hdeepest
    obtain ⟨dirs, hpackage, hdirs, hsimple⟩ := TypeName.exists_of_ofBinaryName hname
    have hfile := components_join_sourcePath (isSegment_of_mem hdirs) (isFileName_java hsimple) root
    rw [← hpackage] at hfile
    rw [ofFile?_of_isDeepest_fileSteps hfile hdeepest, hpackage]
  · intro file dirs x hdeepest hfile hdots
    have hdirs : ∀ d ∈ dirs, IsSegment d := by
      refine fun d hd ↦ ⟨isFileName_of_mem_fileSteps hfile ?_, hdots d hd⟩
      exact List.mem_append_left _ (List.mem_map_of_mem hd)
    have hx : Path.IsFileName (Utf8.encode (x ++ ".java")) :=
      isFileName_of_mem_fileSteps hfile (List.mem_append_right _ List.mem_cons_self)
    refine ⟨_, ofFile?_of_isDeepest_fileSteps hfile hdeepest, sourcePath_intercalate hdirs hx, ?_⟩
    rw [components_join_sourcePath hdirs hx root, hfile]

/-- A root inside another one, a name with a suffix, and a file with needless slashes in directories
that are no identifiers. -/
theorem package_and_path_inverse_nested :
    let roots := [Path.ofString "/w/s", .ofString "/w", .ofString "/w/sa"]
    let root := Path.ofString "/w/s"
    let file := Path.ofString "/w//s/./a b/é/X.java"
    TypeName.ofBinaryName "a.b.C$1" = .ok ⟨"a.b", "C"⟩ ∧
      IsDeepest roots (root.join (sourcePath "a.b" "C")) root ∧
      ofFile? (root.join (sourcePath "a.b" "C")) roots = some "a.b" ∧
      IsDeepest roots file root ∧ file.components = root.components ++ fileSteps ["a b", "é"] "X" ∧
      ∃ package, ofFile? file roots = some package ∧
        (root.join (sourcePath package "X")).components = file.components := by
  intro roots root file
  have hname : TypeName.ofBinaryName "a.b.C$1" = .ok ⟨"a.b", "C"⟩ :=
    TypeName.ofBinaryName_eq_ok_iff.2 (by decide +kernel)
  have hexpected : IsDeepest roots (root.join (sourcePath "a.b" "C")) root :=
    ⟨by decide +kernel, by decide +kernel, by decide +kernel⟩
  have hdeepest : IsDeepest roots file root :=
    ⟨by decide +kernel, by decide +kernel, by decide +kernel⟩
  have hfile : file.components = root.components ++ fileSteps ["a b", "é"] "X" := by decide +kernel
  obtain ⟨hpackage, hpath⟩ := package_and_path_inverse roots root
  obtain ⟨package, hread, -, hback⟩ := hpath file ["a b", "é"] "X" hdeepest hfile (by decide)
  have hspelled := hpackage "a.b.C$1" ⟨"a.b", "C"⟩ hname hexpected
  exact ⟨hname, hexpected, hspelled, hdeepest, hfile, package, hread, hback⟩

end BinaryNames.Package
