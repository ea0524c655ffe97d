import BinaryNames.Proofs.LineAgreement
import BinaryNames.Proofs.SourceRoots
import BinaryNames.Proofs.TypeSearch
import BinaryNames.Proofs.Uri.File
import Mathlib

/-!
# From a File to Names and Back

A name that is read off a line of a file, or listed for the file, leads back to the file.  On the
way there the place of the file under its source root spells the package of its types; on the way
back the package in the name spells the directory that is searched.  A file that is a source root of
its own has names too, but they lead to a directory that is not there.
-/

namespace BinaryNames

/-! ## Paths with the same components -/

section SameComponents

variable {f g : Path} (h : f.components = g.components)
include h

theorem Package.ofFile?_congr (roots : List Path) : ofFile? f roots = ofFile? g roots := by
  have hunder : f.isUnder = g.isUnder := by
    funext root
    rw [Path.isUnder, h, Path.isUnder]
  simp only [ofFile?, deepestRoot, hunder, directoryNames, h]

theorem Java.isJavaFile_congr : isJavaFile f = isJavaFile g := by
  have hname : f.fileName? = g.fileName? := by rw [Path.fileName?, h, Path.fileName?]
  simp only [isJavaFile, extensionText, Path.extension?, hname]

theorem FileUri.ofPath_congr : ofPath f = ofPath g := by
  simp only [ofPath, h]

end SameComponents

theorem Java.exists_name_of_isJavaFile {f : Path} (h : isJavaFile f = true) :
    ∃ x, f.components.getLast? = some (.name x) := by
  have hextension : f.extension? ≠ none := by
    intro hnone
    simp [isJavaFile, extensionText, hnone] at h
  have hname : f.fileName? ≠ none := fun hnone ↦ hextension (by simp [Path.extension?, hnone])
  obtain ⟨x, hx⟩ := Option.ne_none_iff_exists'.1 hname
  obtain ⟨c, hlast, hc⟩ := Option.bind_eq_some_iff.1 hx
  cases c with
  | name b => exact ⟨b, hlast⟩
  | root => cases hc
  | current => cases hc
  | parent => cases hc

theorem Package.exists_steps {components : List Component}
    (h : ∀ c ∈ components, ∃ d : String, c = .name (Utf8.encode d) ∧
      TypeName.isIdentifier d.toList = true) :
    ∃ dirs, components = steps dirs ∧ ∀ d ∈ dirs, TypeName.isIdentifier d.toList = true := by
  induction components with
  | nil => exact ⟨[], rfl, by simp⟩
  | cons c rest ih =>
    rw [List.forall_mem_cons] at h
    obtain ⟨⟨d, rfl, hd⟩, hrest⟩ := h
    obtain ⟨dirs, rfl, hdirs⟩ := ih hrest
    exact ⟨d :: dirs, rfl, List.forall_mem_cons.2 ⟨hd, hdirs⟩⟩

namespace Query

/-- A Java source at a place in a workspace that spells its package: the file lies below `root`, the
deepest source root of its project that contains it, the directories between the two are
identifiers, and a package that the source declares is the one that they spell. -/
structure Filed (s : Snapshot) (w : Workspace) (file : Path) (project : Project) (root : Path)
    (source : String) : Prop where
  owned : w.projectFor file = .ok project
  deepest : Package.deepestRoot file project.sourceRoots = some root
  -- a file that is itself the source root is searched for below itself
  below : file.components ≠ root.components
  identifiers : ∀ c ∈ (file.components.drop root.components.length).dropLast,
    ∃ d : String, c = .name (Utf8.encode d) ∧ TypeName.isIdentifier d.toList = true
  java : Java.isJavaFile file = true
  readable : s.readText file = .ok source
  size_le : source.utf8ByteSize ≤ Java.maxSourceSize
  package : ∀ p, (Java.Outline.ofSource source).package = some p →
    Package.ofFile? file project.sourceRoots = some p

/-- No other file in the directory of `file` declares `t`. -/
def Alone (s : Snapshot) (file : Path) (t : TypeName) : Prop :=
  ∀ y ∈ s.names (TypeSearch.directoryOf file), file.fileName? ≠ some y →
    TypeSearch.fileDeclares s t ((TypeSearch.directoryOf file).join ⟨y⟩) = false

/-- The name leads back to the file: a search for it finds the file, and a line of the file is its
location if no source root that is searched before `root` has a file that declares `t`. -/
structure LeadsBack (s : Snapshot) (w : Workspace) (file : Path) (project : Project) (root : Path)
    (source : String) (t : TypeName) (name : String) : Prop where
  found : ∃ handles, TypeSearch.find s w false name = .ok handles ∧
    .source file.normalize project.name t.qualified ∈ handles
  located : (∀ r ∈ (w.projects.flatMap (·.sourceRoots)).takeWhile (· ≠ root),
      TypeSearch.filesUnder s t r = []) →
    ∀ line : Nat, 1 ≤ line → line ≤ (Lines.ofText source).count →
      ∃ span, (Lines.ofText source).span? line = some span ∧
        locationOf s w false name line = .ok (.source (FileUri.ofPath file) span)

/-- The place of a file, as names: those of the source root, of the directories and of the file. -/
structure Placed (file root : Path) (names : List (List UInt8)) (dirs : List String)
    (x : List UInt8) : Prop where
  root_eq : root = .fromRoot names
  components_eq : file.components =
    .root :: (names ++ dirs.map Utf8.encode ++ [x]).map .name
  identifiers : ∀ d ∈ dirs, TypeName.isIdentifier d.toList = true

namespace Placed

variable {file root : Path} {names : List (List UInt8)} {dirs : List String} {x : List UInt8}
  (h : Placed file root names dirs x)
include h

theorem isFileName : ∀ b ∈ names ++ dirs.map Utf8.encode ++ [x], Path.IsFileName b := by
  intro b hb
  refine Path.isFileName_of_mem_components (p := file) ?_
  rw [h.components_eq]
  exact List.mem_cons_of_mem _ (List.mem_map_of_mem hb)

theorem isFileName_root : ∀ b ∈ names, Path.IsFileName b := fun b hb ↦
  h.isFileName b (List.mem_append_left _ (List.mem_append_left _ hb))

theorem normalize_eq : file.normalize = .fromRoot (names ++ dirs.map Utf8.encode ++ [x]) :=
  Path.normalize_of_components h.components_eq

theorem components_normalize : file.normalize.components = file.components := by
  rw [h.normalize_eq, Path.components_fromRoot h.isFileName, h.components_eq]

theorem normalize_normalize : file.normalize.normalize = file.normalize := by
  rw [Path.normalize, h.components_normalize, ← Path.normalize]

theorem fileName?_eq : file.fileName? = some x := by
  rw [Path.fileName?, h.components_eq, List.map_append, List.map_singleton, ← List.cons_append,
    List.getLast?_concat]
  rfl

theorem directoryOf_eq :
    TypeSearch.directoryOf file = .fromRoot (names ++ dirs.map Utf8.encode) :=
  TypeSearch.directoryOf_of_components h.components_eq

theorem ofFile?_eq {roots : List Path} (hdeepest : Package.deepestRoot file roots = some root) :
    Package.ofFile? file roots = some (String.intercalate "." dirs) := by
  have hsplit : file.components = root.components ++ (Package.steps dirs ++ [.name x]) := by
    rw [h.components_eq, h.root_eq, Path.components_fromRoot h.isFileName_root]
    simp [Package.steps]
  exact Package.ofFile?_of_components hdeepest hsplit

theorem ofFile?_normalize {roots : List Path}
    (hdeepest : Package.deepestRoot file roots = some root) :
    Package.ofFile? file.normalize roots = some (String.intercalate "." dirs) := by
  rw [Package.ofFile?_congr h.components_normalize, h.ofFile?_eq hdeepest]

/-- A type of the package of the file is expected in the directory of the file. -/
theorem expectedFile_eq {simple : String} (hsimple : TypeName.isIdentifier simple.toList = true) :
    TypeSearch.expectedFile ⟨String.intercalate "." dirs, simple⟩ root =
      .fromRoot (names ++ dirs.map Utf8.encode ++ [Utf8.encode (simple ++ ".java")]) := by
  rw [h.root_eq, Package.expectedFile_fromRoot h.identifiers hsimple h.isFileName_root]

theorem isFileName_expected {simple : String}
    (hsimple : TypeName.isIdentifier simple.toList = true) :
    ∀ b ∈ names ++ dirs.map Utf8.encode ++ [Utf8.encode (simple ++ ".java")],
      Path.IsFileName b := by
  have hnames := h.isFileName
  rw [List.forall_mem_append, List.forall_mem_singleton] at hnames ⊢
  exact ⟨hnames.1, Package.isFileName_java hsimple⟩

theorem projectFor?_normalize (w : Workspace) :
    w.projectFor? file.normalize = w.projectFor? file := by
  rw [Workspace.projectFor?, h.normalize_normalize, Workspace.projectFor?]

/-- A name of what lies in a top-level type of the file speaks of that type. -/
theorem ofBinaryName_binaryName {tree : DeclarationTree}
    (hnamed : Java.WellNamed (String.intercalate "." dirs) tree) {id : Nat} {simple : String}
    (hin : tree.InTopLevel id simple) (hsimple : TypeName.isIdentifier simple.toList = true) :
    TypeName.ofBinaryName (tree.binaryName ⟨id, tree.chain id⟩) =
      .ok ⟨String.intercalate "." dirs, simple⟩ := by
  obtain ⟨rest, hrest, hname⟩ := hnamed.exists_binaryName hin
  have hsegments : ∀ s ∈ dirs.map String.toList, TypeName.isIdentifier s = true := by
    intro s hs
    obtain ⟨d, hd, rfl⟩ := List.mem_map.1 hs
    exact h.identifiers d hd
  rw [hname, Package.intercalate_dot]
  exact TypeName.ofBinaryName_qualified hsegments hsimple hrest

end Placed

theorem declarationsIn_of_isAbsolute {s : Snapshot} {w : Workspace} {file : Path}
    {source : String} {tree : DeclarationTree} (habsolute : file.isAbsolute = true)
    (hread : s.readText file.normalize = .ok source)
    (htree : Java.declarations file.normalize source (suggestedPackage? w file.normalize) =
      .ok tree) :
    declarationsIn s w file = .ok (summaries tree (Lines.ofText source)) := by
  rw [declarationsIn, Snapshot.absolute?, if_neg (Path.bytes_ne_nil_of_isAbsolute habsolute),
    Snapshot.absolute, Path.join, if_pos habsolute]
  simp only [bind, Except.bind, hread, htree]
  rfl

namespace Filed

variable {s : Snapshot} {w : Workspace} {file : Path} {project : Project} {root : Path}
  {source : String} (h : Filed s w file project root source)
include h

theorem exists_placed {text : String} {base : Path} (hw : Workspace.ofToml text base = .ok w)
    (hbase : base.isAbsolute = true) : ∃ names dirs x, Placed file root names dirs x := by
  have hmem := (Workspace.mem_of_projectFor h.owned).1
  obtain ⟨names, hroot, hnames⟩ :=
    Workspace.sourceRoot_eq_fromRoot hw hbase hmem (Package.mem_of_deepestRoot h.deepest)
  obtain ⟨x, hx⟩ := Java.exists_name_of_isJavaFile h.java
  obtain ⟨dirs, hdirs, hidentifiers⟩ := Package.exists_steps h.identifiers
  have hunder : root.components <+: file.components :=
    List.isPrefixOf_iff_prefix.1 (List.mem_filter.1 (mem_of_lastMaxBy h.deepest)).2
  obtain ⟨tail, htail⟩ := hunder
  have hne : tail ≠ [] := by
    rintro rfl
    rw [List.append_nil] at htail
    exact h.below htail.symm
  have hlast : tail.getLast? = some (.name x) := by
    rwa [← htail, List.getLast?_append_of_ne_nil _ hne] at hx
  rw [← htail, List.drop_left] at hdirs
  refine ⟨names, dirs, x, hroot, ?_, hidentifiers⟩
  obtain ⟨front, rfl⟩ := List.getLast?_eq_some_iff.1 hlast
  rw [List.dropLast_concat] at hdirs
  rw [← htail, hdirs, hroot, Path.components_fromRoot hnames]
  simp [Package.steps]

/-- The tree of the file, with the package that its place spells. -/
theorem exists_tree {names : List (List UInt8)} {dirs : List String} {x : List UInt8}
    (hplaced : Placed file root names dirs x) :
    ∃ tree, Java.WellNamed (String.intercalate "." dirs) tree ∧
      ∀ f, f.components = file.components →
        Java.declarations f source (some (String.intercalate "." dirs)) = .ok tree := by
  have hpackage : (Java.Outline.ofSource source).packageName (some (String.intercalate "." dirs)) =
      String.intercalate "." dirs := by
    rw [Java.Outline.packageName]
    cases hdeclared : (Java.Outline.ofSource source).package with
    | none => rfl
    | some p =>
      have hplace := h.package p hdeclared
      rw [hplaced.ofFile?_eq h.deepest] at hplace
      exact (Option.some.inj hplace).symm
  have hnamed := Java.wellNamed_declarations (Java.Outline.ofSource source) source.utf8ByteSize
    (some (String.intercalate "." dirs))
  rw [hpackage] at hnamed
  refine ⟨_, hnamed, fun f hf ↦ Java.declarations_eq_ok_iff.2 ⟨h.size_le, ?_, rfl⟩⟩
  rw [Java.isJavaFile_congr hf]
  exact h.java

section Back

variable {names : List (List UInt8)} {dirs : List String} {x : List UInt8}
  (hplaced : Placed file root names dirs x) {tree : DeclarationTree}
  (hnamed : Java.WellNamed (String.intercalate "." dirs) tree)
include hplaced

theorem readText_normalize : s.readText file.normalize = .ok source := by
  rw [hplaced.normalize_eq, ← s.readText_of_components hplaced.components_eq]
  exact h.readable

variable (htree : ∀ f, f.components = file.components →
  Java.declarations f source (some (String.intercalate "." dirs)) = .ok tree)

include hnamed htree

theorem fileDeclares_normalize {id : Nat} {simple : String} (hin : tree.InTopLevel id simple) :
    TypeSearch.fileDeclares s ⟨String.intercalate "." dirs, simple⟩ file.normalize = true := by
  rw [TypeSearch.fileDeclares, h.readText_normalize hplaced]
  simp only [htree _ hplaced.components_normalize]
  exact hnamed.any_topLevelTypes hin

/-- The source root has the file, and no other, for each of its types that it alone declares. -/
theorem filesUnder_root {id : Nat} {simple : String} (hin : tree.InTopLevel id simple)
    (hsimple : TypeName.isIdentifier simple.toList = true)
    (halone : Alone s file ⟨String.intercalate "." dirs, simple⟩) :
    (TypeSearch.filesUnder s ⟨String.intercalate "." dirs, simple⟩ root).head? =
      some file.normalize := by
  have hjava : Java.isJavaFile file.normalize = true :=
    (Java.isJavaFile_congr hplaced.components_normalize).trans h.java
  have hread := h.readText_normalize hplaced
  have hdeclares := h.fileDeclares_normalize hplaced hnamed htree hin
  rw [hplaced.normalize_eq] at hjava hread hdeclares ⊢
  obtain ⟨hmem, hall⟩ := TypeSearch.filesUnder_of_alone hplaced.isFileName
    (hplaced.isFileName_expected hsimple) (hplaced.expectedFile_eq hsimple) hread hjava hdeclares
    fun y hy hne ↦ by
      have hnot := halone y
      rw [hplaced.directoryOf_eq, hplaced.fileName?_eq] at hnot
      exact hnot hy fun heq ↦ hne (Option.some.inj heq).symm
  obtain ⟨first, others, hcons⟩ := List.exists_cons_of_ne_nil (List.ne_nil_of_mem hmem)
  rw [hcons, List.head?_cons, hall first (hcons ▸ List.mem_cons_self)]

omit hnamed in
/-- A name on a line of the file is that of the declaration found there. -/
theorem exists_found_of_nameAt {rule : FileUri.DriveRule} (hrule : rule.Keeps file) {line : Int}
    {name : String} (hname : nameAt s w (FileUri.ofPath file) line rule = .ok name) :
    ∃ span id, (Lines.ofText source).span line = .ok span ∧
      tree.find? span.offset span.stop = some ⟨id, tree.chain id⟩ ∧
      name = tree.binaryName ⟨id, tree.chain id⟩ := by
  have hproject : w.projectFor file.normalize = .ok project := by
    rw [Workspace.projectFor, hplaced.projectFor?_normalize,
      (Workspace.mem_of_projectFor h.owned).2]
  rw [nameAt, FileUri.path?_ofPath hplaced.components_eq hrule, ← hplaced.normalize_eq] at hname
  simp only [bind, Except.bind, hproject, hplaced.ofFile?_normalize h.deepest,
    h.readText_normalize hplaced, nameOnLine?, htree _ hplaced.components_normalize] at hname
  cases hspan : (Lines.ofText source).span line with
  | error e =>
    rw [hspan] at hname
    cases hname
  | ok span =>
    rw [hspan] at hname
    dsimp only at hname
    cases hfind : tree.find? span.offset span.stop with
    | none =>
      rw [hfind] at hname
      cases hname
    | some found =>
      rw [hfind] at hname
      obtain ⟨id, -, rfl⟩ := Option.map_eq_some_iff.1 hfind
      exact ⟨span, id, rfl, hfind, (Except.ok.inj hname).symm⟩

omit hnamed in
/-- The types of the file are listed with its tree. -/
theorem declarationsIn_eq :
    declarationsIn s w file = .ok (summaries tree (Lines.ofText source)) := by
  have hsuggested : suggestedPackage? w file.normalize = some (String.intercalate "." dirs) := by
    rw [suggestedPackage?, hplaced.projectFor?_normalize,
      (Workspace.mem_of_projectFor h.owned).2, Option.bind_some,
      hplaced.ofFile?_normalize h.deepest]
  have habsolute := Path.isAbsolute_of_components hplaced.components_eq
  refine declarationsIn_of_isAbsolute habsolute (h.readText_normalize hplaced) ?_
  rw [hsuggested, htree _ hplaced.components_normalize]

/-- The name of what lies in a top-level type that the file alone declares leads back. -/
theorem leadsBack {id : Nat} {simple : String} (hin : tree.InTopLevel id simple)
    (hsimple : TypeName.isIdentifier simple.toList = true)
    (halone : Alone s file ⟨String.intercalate "." dirs, simple⟩) :
    LeadsBack s w file project root source ⟨String.intercalate "." dirs, simple⟩
      (tree.binaryName ⟨id, tree.chain id⟩) := by
  have hname := hplaced.ofBinaryName_binaryName hnamed hin hsimple
  have hhead := h.filesUnder_root hplaced hnamed htree hin hsimple halone
  have hproject := (Workspace.mem_of_projectFor h.owned).1
  have hroot := Package.mem_of_deepestRoot h.deepest
  constructor
  · have hmem := TypeSearch.mem_sourceHandles hproject hroot (List.mem_of_head? hhead)
    obtain ⟨first, others, hcons⟩ := List.exists_cons_of_ne_nil (List.ne_nil_of_mem hmem)
    obtain ⟨rest, hfind, hrest⟩ :=
      TypeSearch.find_of_sourceHandles hname (by rw [hcons, List.head?_cons])
    exact ⟨_, hfind, hrest ▸ List.mem_append_left _ hmem⟩
  · intro hbefore line hpos hcount
    have hroots := List.mem_flatMap.2 ⟨project, hproject, hroot⟩
    obtain ⟨owner, hfirst⟩ := TypeSearch.head?_sourceHandles
      (TypeSearch.head?_flatMap_filesUnder hroots hbefore hhead)
    obtain ⟨rest, hfind, -⟩ := TypeSearch.find_of_sourceHandles hname hfirst
    obtain ⟨i, rfl⟩ : ∃ i, line = i + 1 := ⟨line - 1, by omega⟩
    have hi : i < (Lines.ofText source).spans.size := hcount
    obtain ⟨span, hspan⟩ : ∃ span, (Lines.ofText source).span? (i + 1 : Nat) = some span :=
      ⟨_, (Lines.span?_succ _ i).trans (Array.getElem?_eq_getElem hi)⟩
    have hline : (Lines.ofText source).span (i + 1 : Nat) = .ok span := by
      rw [Lines.span, hspan]
    have huri : FileUri.ofPath? file.normalize = .ok (FileUri.ofPath file) := by
      rw [FileUri.ofPath?, hplaced.normalize_eq, if_pos (Path.isAbsolute_fromRoot _),
        ← hplaced.normalize_eq, FileUri.ofPath_congr hplaced.components_normalize]
    refine ⟨span, hspan, ?_⟩
    rw [locationOf, hfind]
    simp only [bind, Except.bind, locationIn, h.readText_normalize hplaced, hline, huri]
    rfl

end Back

end Filed

/-- Every name that is read off a line of a file in its package directory, or listed for the file,
leads back to the file, if it is of something in a top-level type that the file alone declares.  The
line is asked for by the URI of the file, so the URI has to be read as the file. -/
theorem names_lead_back {text : String} {base : Path} {s : Snapshot} {w : Workspace} {file : Path}
    {project : Project} {root : Path} {source : String}
    (hw : Workspace.ofToml text base = .ok w) (hbase : base.isAbsolute = true)
    (hfiled : Filed s w file project root source) :
    file.normalize.components = file.components ∧
      ∃ package tree, Package.ofFile? file project.sourceRoots = some package ∧
        Java.declarations file source (some package) = .ok tree ∧
        (∀ rule line name, FileUri.DriveRule.Keeps rule file →
          nameAt s w (FileUri.ofPath file) line rule = .ok name →
          ∃ span id, (Lines.ofText source).span line = .ok span ∧
            tree.find? span.offset span.stop = some ⟨id, tree.chain id⟩ ∧
            ∀ simple, tree.InTopLevel id simple → TypeName.isIdentifier simple.toList = true →
              Alone s file ⟨package, simple⟩ →
                LeadsBack s w file project root source ⟨package, simple⟩ name) ∧
        ∃ entries, declarationsIn s w file = .ok entries ∧
          ∀ entry ∈ entries, ∃ id node, tree.node? id = some node ∧ node.kind = .type ∧
            entry = TypeSummary.ofNode tree (Lines.ofText source) id node ∧
            ∀ simple, tree.InTopLevel id simple → TypeName.isIdentifier simple.toList = true →
              Alone s file ⟨package, simple⟩ →
                LeadsBack s w file project root source ⟨package, simple⟩ entry.binaryName := by
  obtain ⟨names, dirs, x, hplaced⟩ := hfiled.exists_placed hw hbase
  obtain ⟨tree, hnamed, htree⟩ := hfiled.exists_tree hplaced
  refine ⟨hplaced.components_normalize, String.intercalate "." dirs, tree,
    hplaced.ofFile?_eq hfiled.deepest, htree file rfl, ?_, _,
    hfiled.declarationsIn_eq hplaced htree, ?_⟩
  · intro rule line name hrule hname
    obtain ⟨span, id, hspan, hfind, rfl⟩ :=
      hfiled.exists_found_of_nameAt hplaced htree hrule hname
    exact ⟨span, id, hspan, hfind, fun simple ↦ hfiled.leadsBack hplaced hnamed htree⟩
  · intro entry hentry
    obtain ⟨id, node, hnode, hk, rfl⟩ := mem_summaries_iff.1 hentry
    exact ⟨id, node, hnode, hk, rfl, fun simple ↦ hfiled.leadsBack hplaced hnamed htree⟩

/-- `class A` and, on the second line, the `class B` in it. -/
def nestedSource : String := "class A\x7b\nclass B\x7b\x7d\x7d"

def nestedOutline : Java.Outline :=
  ⟨none, [.type ⟨0, 19⟩ "A" [] [.type ⟨9, 9⟩ "B" [] []]]⟩

/-- A directory with `nestedSource` in a file that is not named for its type, next to an empty one
that is. -/
def nestedSnapshot : Snapshot :=
  ((⟨.empty, .ofString "/"⟩ : Snapshot).writeFile (.ofString "/w/s/a/A.java") "".toUTF8).writeFile
    (.ofString "/w/s/a/F.java") nestedSource.toUTF8

def nestedProject : Project := ⟨"p", .ofString "/w", [.ofString "/w/s"]⟩

theorem ofSource_nestedSource : Java.Outline.ofSource nestedSource = nestedOutline := by
  have htokens : Java.Token.ofSource? nestedSource = some
      [.word ⟨0, 5⟩ "class", .word ⟨6, 1⟩ "A", .group ⟨7, 12⟩ .curly
        [.word ⟨9, 5⟩ "class", .word ⟨15, 1⟩ "B", .group ⟨16, 2⟩ .curly []]] := by rfl
  unfold Java.Outline.ofSource
  rw [htokens]
  cbv

theorem filed_nestedSource : Filed nestedSnapshot ⟨[nestedProject], []⟩ (.ofString "/w/s/a/F.java")
    nestedProject (.ofString "/w/s") nestedSource where
  owned := by cbv
  deepest := by decide
  below := by decide
  identifiers := by
    have hbetween : ((Path.ofString "/w/s/a/F.java").components.drop
        (Path.ofString "/w/s").components.length).dropLast = [.name (Utf8.encode "a")] := by decide
    rw [hbetween]
    simpa using ⟨"a", rfl, by decide⟩
  java := by decide
  readable := by cbv
  size_le := by decide
  package := by
    rw [ofSource_nestedSource]
    rintro p hp
    cases hp

theorem alone_nestedSource :
    Alone nestedSnapshot (.ofString "/w/s/a/F.java") ⟨"a", "A"⟩ := by
  have hnames : nestedSnapshot.names (TypeSearch.directoryOf (.ofString "/w/s/a/F.java")) =
      [Utf8.encode "A.java", Utf8.encode "F.java"] := by cbv
  have hself : (Path.ofString "/w/s/a/F.java").fileName? = some (Utf8.encode "F.java") := by decide
  have hempty : TypeSearch.fileDeclares nestedSnapshot ⟨"a", "A"⟩
      ((TypeSearch.directoryOf (.ofString "/w/s/a/F.java")).join ⟨Utf8.encode "A.java"⟩) =
        false := by cbv
  intro y hy hne
  rw [hnames] at hy
  rw [hself] at hne
  rcases List.mem_cons.1 hy with rfl | hy
  · exact hempty
  · exact absurd (congrArg some (List.mem_singleton.1 hy).symm) hne

theorem declarations_nestedSource :
    Java.declarations (.ofString "/w/s/a/F.java") nestedSource (some "a") =
      .ok (nestedOutline.declarations 19 (some "a")) :=
  Java.declarations_eq_ok_iff.2 ⟨by decide, by decide, by rw [ofSource_nestedSource]; rfl⟩

theorem ofFile?_nestedSource :
    Package.ofFile? (.ofString "/w/s/a/F.java") nestedProject.sourceRoots = some "a" := by cbv

theorem find?_nestedSource :
    (Lines.ofText nestedSource).span 2 = .ok ⟨9, 10⟩ ∧
      (nestedOutline.declarations 19 (some "a")).find? 9 19 = some ⟨2, [2, 1]⟩ := by
  constructor <;> cbv

/-- The name on the second line. -/
theorem nameAt_nestedSource :
    nameAt nestedSnapshot ⟨[nestedProject], []⟩ (FileUri.ofPath (.ofString "/w/s/a/F.java")) 2 =
      .ok "a.A$B" := by
  have hpath : FileUri.path? (FileUri.ofPath (.ofString "/w/s/a/F.java")) =
      .ok (some (.ofString "/w/s/a/F.java")) := by cbv
  obtain ⟨hspan, hfind⟩ := find?_nestedSource
  have hstop : (⟨9, 10⟩ : Span).stop = 19 := rfl
  have hname : (nestedOutline.declarations 19 (some "a")).binaryName ⟨2, [2, 1]⟩ = "a.A$B" := by cbv
  rw [nameAt, hpath]
  simp only [bind, Except.bind, filed_nestedSource.owned, ofFile?_nestedSource,
    filed_nestedSource.readable, hspan, nameOnLine?, declarations_nestedSource, hstop, hfind,
    Option.map_some, hname]
  rfl

theorem ofToml_nestedProject :
    Workspace.ofToml "projects=[[\"p\",\".\",[\"s\"]]]" (.ofString "/w") =
      .ok ⟨[nestedProject], []⟩ := by
  have hdescription : WorkspaceDescription.ofToml? "projects=[[\"p\",\".\",[\"s\"]]]" =
      some ⟨[⟨"p", ".", ["s"]⟩], []⟩ := by decide +kernel
  rw [Workspace.ofToml, hdescription]
  cbv

theorem names_lead_back_nestedSource :
    Workspace.ofToml "projects=[[\"p\",\".\",[\"s\"]]]" (.ofString "/w") =
        .ok ⟨[nestedProject], []⟩ ∧
      nameAt nestedSnapshot ⟨[nestedProject], []⟩ (FileUri.ofPath (.ofString "/w/s/a/F.java")) 2 =
        .ok "a.A$B" ∧
      (∃ handles, TypeSearch.find nestedSnapshot ⟨[nestedProject], []⟩ false "a.A$B" = .ok handles ∧
        .source (.ofString "/w/s/a/F.java") "p" "a.A" ∈ handles) ∧
      ∃ span, locationOf nestedSnapshot ⟨[nestedProject], []⟩ false "a.A$B" 1 =
        .ok (.source (FileUri.ofPath (.ofString "/w/s/a/F.java")) span) := by
  obtain ⟨-, package, tree, hpackage, htree, hnames, -⟩ :=
    names_lead_back ofToml_nestedProject (by decide) filed_nestedSource
  obtain rfl := Option.some.inj (ofFile?_nestedSource.symm.trans hpackage)
  obtain rfl := Except.ok.inj (declarations_nestedSource.symm.trans htree)
  obtain ⟨span, id, hspan, hfind, hback⟩ :=
    hnames .keepBar 2 _ (FileUri.keeps_keepBar _) nameAt_nestedSource
  obtain rfl := Except.ok.inj (find?_nestedSource.1.symm.trans hspan)
  have hsame := Option.some.inj (find?_nestedSource.2.symm.trans hfind)
  obtain ⟨rfl, -⟩ := DeclarationTree.Found.mk.inj hsame
  have hlast : ((nestedOutline.declarations 19 (some "a")).chain 2).getLast? = some 1 := by cbv
  have htop : (nestedOutline.declarations 19 (some "a")).declaration? 1 = some
      { kind := .type, span := ⟨0, 19⟩, qualifiedName := some "a.A", simpleName := some "A" } := by
    cbv
  obtain ⟨hfound, hlocated⟩ :=
    hback "A" ⟨1, _, hlast, htop, rfl, rfl, rfl⟩ (by decide) alone_nestedSource
  have hnormal : (Path.ofString "/w/s/a/F.java").normalize = .ofString "/w/s/a/F.java" := by decide
  rw [hnormal] at hfound
  obtain ⟨lineSpan, -, hlocation⟩ := hlocated (by decide) 1 (by decide) (by decide)
  exact ⟨ofToml_nestedProject, nameAt_nestedSource, hfound, lineSpan, hlocation⟩

/-! ## A file with one class -/

theorem ofSource_classA : Java.Outline.ofSource "class A\x7b\x7d" =
    ⟨none, [.type ⟨0, 9⟩ "A" [] []]⟩ := by
  have htokens : Java.Token.ofSource? "class A\x7b\x7d" = some
      [.word ⟨0, 5⟩ "class", .word ⟨6, 1⟩ "A", .group ⟨7, 2⟩ .curly []] := by rfl
  unfold Java.Outline.ofSource
  rw [htokens]
  cbv

theorem declarations_classA {file : Path} (hjava : Java.isJavaFile file = true) :
    Java.declarations file "class A\x7b\x7d" (some "") =
      .ok ((⟨none, [.type ⟨0, 9⟩ "A" [] []]⟩ : Java.Outline).declarations 9 (some "")) :=
  Java.declarations_eq_ok_iff.2 ⟨by decide, hjava, by rw [ofSource_classA]; rfl⟩

/-- The class is found where it is expected. -/
theorem filesUnder_classA {s : Snapshot} {root file : Path}
    (hexpected : TypeSearch.expectedFile ⟨"", "A"⟩ root = file)
    (hjava : Java.isJavaFile file = true) (hread : s.readText file = .ok "class A\x7b\x7d") :
    TypeSearch.filesUnder s ⟨"", "A"⟩ root = [file] := by
  obtain ⟨content, hentry⟩ := Snapshot.exists_entry_of_readText hread
  have hfile : s.isFile file = true := by rw [Snapshot.isFile, hentry]
  have hdeclares : TypeSearch.fileDeclares s ⟨"", "A"⟩ file = true := by
    rw [TypeSearch.fileDeclares, hread]
    simp only [declarations_classA hjava]
    cbv
  rw [TypeSearch.filesUnder, hexpected, hfile, hdeclares]
  rfl

/-! ## A source root that is a file -/

/-- `class A` in a file that is the only source root of its project. -/
def rootSnapshot : Snapshot :=
  (⟨.empty, .ofString "/"⟩ : Snapshot).writeFile (.ofString "/w/A.java") "class A\x7b\x7d".toUTF8

def rootProject : Project := ⟨"p", .ofString "/w", [.ofString "/w/A.java"]⟩

theorem ofToml_rootProject :
    Workspace.ofToml "projects=[[\"p\",\".\",[\"A.java\"]]]" (.ofString "/w") =
      .ok ⟨[rootProject], []⟩ := by
  have hdescription : WorkspaceDescription.ofToml? "projects=[[\"p\",\".\",[\"A.java\"]]]" =
      some ⟨[⟨"p", ".", ["A.java"]⟩], []⟩ := by decide +kernel
  rw [Workspace.ofToml, hdescription]
  cbv

theorem readText_rootSnapshot :
    rootSnapshot.readText (.ofString "/w/A.java") = .ok "class A\x7b\x7d" := by cbv

theorem projectFor_rootSnapshot :
    Workspace.projectFor ⟨[rootProject], []⟩ (.ofString "/w/A.java") = .ok rootProject := by cbv

theorem alone_rootSnapshot : Alone rootSnapshot (.ofString "/w/A.java") ⟨"", "A"⟩ := by
  have hnames : rootSnapshot.names (TypeSearch.directoryOf (.ofString "/w/A.java")) =
      [Utf8.encode "A.java"] := by cbv
  have hself : (Path.ofString "/w/A.java").fileName? = some (Utf8.encode "A.java") := by decide
  intro y hy hne
  rw [hnames] at hy
  rw [hself] at hne
  exact absurd (congrArg some (List.mem_singleton.1 hy).symm) hne

theorem nameAt_rootSnapshot :
    nameAt rootSnapshot ⟨[rootProject], []⟩ (FileUri.ofPath (.ofString "/w/A.java")) 1 =
      .ok "A" := by
  have hpath : FileUri.path? (FileUri.ofPath (.ofString "/w/A.java")) =
      .ok (some (.ofString "/w/A.java")) := by cbv
  have hpackage : Package.ofFile? (.ofString "/w/A.java") rootProject.sourceRoots = some "" := by
    cbv
  have hspan : (Lines.ofText "class A\x7b\x7d").span 1 = .ok ⟨0, 9⟩ := by cbv
  have hjava : Java.isJavaFile (.ofString "/w/A.java") = true := by decide
  rw [nameAt, hpath]
  simp only [bind, Except.bind, projectFor_rootSnapshot, hpackage, readText_rootSnapshot, hspan,
    nameOnLine?, declarations_classA hjava]
  cbv

theorem declarationsIn_rootSnapshot :
    declarationsIn rootSnapshot ⟨[rootProject], []⟩ (.ofString "/w/A.java") =
      .ok [⟨"A", 1, 1, false, false⟩] := by
  have hnormal : (Path.ofString "/w/A.java").normalize = .ofString "/w/A.java" := by decide
  have hsuggested : suggestedPackage? ⟨[rootProject], []⟩ (.ofString "/w/A.java") = some "" := by
    cbv
  rw [declarationsIn_of_isAbsolute (by decide) (by rw [hnormal]; exact readText_rootSnapshot)
    (by rw [hnormal, hsuggested]; exact declarations_classA (by decide))]
  cbv

theorem find_rootSnapshot :
    TypeSearch.find rootSnapshot ⟨[rootProject], []⟩ false "A" = .ok [] := by
  have hname : TypeName.ofBinaryName "A" = .ok ⟨"", "A"⟩ :=
    TypeName.ofBinaryName_eq_ok_iff.2 (by decide +kernel)
  have hexpected : TypeSearch.expectedFile ⟨"", "A"⟩ (.ofString "/w/A.java") =
      .ofString "/w/A.java/A.java" := by cbv
  have hfile : rootSnapshot.isFile (.ofString "/w/A.java/A.java") = false := by cbv
  have hothers : TypeSearch.otherFiles rootSnapshot (.ofString "/w/A.java/A.java") = [] := by cbv
  have hnone : TypeSearch.filesUnder rootSnapshot ⟨"", "A"⟩ (.ofString "/w/A.java") = [] := by
    rw [TypeSearch.filesUnder, hexpected, hfile, hothers]
    rfl
  have hhandles : TypeSearch.sourceHandles rootSnapshot ⟨"", "A"⟩ [rootProject] = [] := by
    simp [TypeSearch.sourceHandles, TypeSearch.filesIn, rootProject, hnone]
  rw [TypeSearch.find_eq_result hname, hhandles]
  rfl

/-- The names of a file that is its own deepest source root do not lead back to it, although nothing
else is wrong with its place: it is searched for in a directory of its own name. -/
theorem names_lost_at_root :
    Workspace.ofToml "projects=[[\"p\",\".\",[\"A.java\"]]]" (.ofString "/w") =
        .ok ⟨[rootProject], []⟩ ∧
      Workspace.projectFor ⟨[rootProject], []⟩ (.ofString "/w/A.java") = .ok rootProject ∧
      Package.deepestRoot (.ofString "/w/A.java") rootProject.sourceRoots =
        some (.ofString "/w/A.java") ∧
      Java.isJavaFile (.ofString "/w/A.java") = true ∧
      rootSnapshot.readText (.ofString "/w/A.java") = .ok "class A\x7b\x7d" ∧
      (Java.Outline.ofSource "class A\x7b\x7d").package = none ∧
      Alone rootSnapshot (.ofString "/w/A.java") ⟨"", "A"⟩ ∧
      nameAt rootSnapshot ⟨[rootProject], []⟩ (FileUri.ofPath (.ofString "/w/A.java")) 1 =
        .ok "A" ∧
      declarationsIn rootSnapshot ⟨[rootProject], []⟩ (.ofString "/w/A.java") =
        .ok [⟨"A", 1, 1, false, false⟩] ∧
      TypeSearch.find rootSnapshot ⟨[rootProject], []⟩ false "A" = .ok [] ∧
      locationOf rootSnapshot ⟨[rootProject], []⟩ false "A" 1 = .error (.typeNotFound "A") := by
  refine ⟨ofToml_rootProject, projectFor_rootSnapshot, by decide, by decide,
    readText_rootSnapshot, by rw [ofSource_classA], alone_rootSnapshot, nameAt_rootSnapshot,
    declarationsIn_rootSnapshot, find_rootSnapshot, ?_⟩
  rw [locationOf, find_rootSnapshot]
  rfl

end Query

end BinaryNames
