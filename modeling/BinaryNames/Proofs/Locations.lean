import BinaryNames.Proofs.Ownership
import BinaryNames.Proofs.UnreadableLibraries
import Mathlib

/-!
# What a Location Says

A location in a source is a line of a Java file, and the file stands in the directory of the package
under a source root and has the type at its top level.  A location in a library is in the first
library that declares the type, and is given only if no such file has it.
-/

namespace BinaryNames

/-! ## Types and their files -/

/-- The top-level type that a name speaks of, as it is written: the name without the blanks around
it, up to the first `$`. -/
def TypeName.outerClass (name : String) : String := outerName (.ofList (trimBlanks name.toList))

theorem TypeName.qualified_eq_outerClass {name : String} {t : TypeName}
    (h : ofBinaryName name = .ok t) : t.qualified = outerClass name := by
  obtain ⟨segments, last, hall, hjoin, rfl⟩ := exists_segments_of_ofBinaryName h
  have hne : ∀ s ∈ segments, s ≠ [] := fun s hs ↦
    ne_nil_of_isIdentifier (hall s (List.mem_append_left _ hs))
  rw [← String.toList_inj, toList_qualified hne, String.toList_ofList, hjoin, outerClass, outerName,
    String.toList_ofList, String.toList_ofList, outerPart_eq]

namespace Package

/-- The steps through the directories of a package, one for each part of its name. -/
def directories (package : String) : List Component :=
  ((splitOn '.' package.toList).filter (· ≠ [])).map fun d ↦ .name (Utf8.encode (.ofList d))

/-- A Java file that stands directly in the directory of a package under a source root. -/
structure Holds (package : String) (root file : Path) : Prop where
  java : Java.isJavaFile file = true
  place : ∃ x, file.components = root.components ++ directories package ++ [.name x]

theorem directories_intercalate {dirs : List String}
    (h : ∀ d ∈ dirs, TypeName.isIdentifier d.toList = true) :
    directories (String.intercalate "." dirs) = (dirs.map Utf8.encode).map .name := by
  rw [directories, segments_intercalate_dot (isSegment_of_mem h)]
  simp

end Package

namespace Java

/-- The file has a top-level type with the qualified name `own`, if a source without a package
declaration is taken to be of `package`. -/
def DeclaresTopLevel (file : Path) (source package own : String) : Prop :=
  ∃ tree id node, declarations file source (some package) = .ok tree ∧
    id ∈ tree.topLevelTypes ∧ tree.node? id = some node ∧ node.qualifiedName = some own

theorem DeclaresTopLevel.congr {f g : Path} {source package own : String}
    (h : DeclaresTopLevel f source package own) (hcomponents : f.components = g.components) :
    DeclaresTopLevel g source package own := by
  obtain ⟨tree, id, node, htree, hid⟩ := h
  refine ⟨tree, id, node, ?_, hid⟩
  rwa [declarations_eq_ok_iff, ← isJavaFile_congr hcomponents, ← declarations_eq_ok_iff]

end Java

namespace TypeSearch

variable {s : Snapshot} {t : TypeName}

theorem fileDeclares_iff {file : Path} : fileDeclares s t file = true ↔
    ∃ source, s.readText file = .ok source ∧
      Java.DeclaresTopLevel file source t.package t.qualified := by
  unfold fileDeclares
  cases hread : s.readText file with
  | error e => simp
  | ok source =>
    cases htree : Java.declarations file source (some t.package) with
    | error e => simp [Java.DeclaresTopLevel, htree]
    | ok tree => simp [Java.DeclaresTopLevel, htree, Option.any_eq_true]

theorem affirms_iff {topLevel : String} {l : Library} :
    affirms s topLevel l = true ↔ libraryDeclares s l topLevel = .ok true := by
  unfold affirms
  cases libraryDeclares s l topLevel <;> simp [Except.toOption]

/-- A file of the package directory that has the type is not overlooked. -/
theorem filesUnder_ne_nil_of_holds {name : String} (hname : TypeName.ofBinaryName name = .ok t)
    {names : List (List UInt8)} (hnames : ∀ b ∈ names, Path.IsFileName b) {file : Path}
    (hholds : Package.Holds t.package (.fromRoot names) file) {source : String}
    (hread : s.readText file = .ok source)
    (hdeclares : Java.DeclaresTopLevel file source t.package t.qualified) :
    filesUnder s t (.fromRoot names) ≠ [] := by
  obtain ⟨dirs, hpackage, hdirs, hsimple⟩ := TypeName.exists_of_ofBinaryName hname
  obtain ⟨x, hx⟩ := hholds.place
  have hplaced : Query.Placed file (.fromRoot names) names dirs x := by
    refine ⟨rfl, ?_, hdirs⟩
    rw [hx, hpackage, Package.directories_intercalate hdirs, Path.components_fromRoot hnames]
    simp
  have hroot := hplaced.expectedFile_eq hsimple
  have hsame := hplaced.components_normalize
  rw [← hpackage] at hroot
  rw [hplaced.normalize_eq] at hsame
  rw [s.readText_of_components hplaced.components_eq] at hread
  have hexpected := hplaced.isFileName_expected hsimple
  refine filesUnder_ne_nil hplaced.isFileName hexpected hroot hread ?_ ?_
  · rw [Java.isJavaFile_congr hsame]
    exact hholds.java
  · exact fileDeclares_iff.2 ⟨source, hread, hdeclares.congr hsame.symm⟩

end TypeSearch

/-! ## Locations -/

namespace Query

/-- The file with the URI `uri` has the type that `name` speaks of at its top level, in the
directory of the package, and `span` is the line.  If the file declares its package, the type is in
its list. -/
structure InSource (s : Snapshot) (w : Workspace) (t : TypeName) (name : String) (line : Int)
    (uri : String) (span : Span) (file : Path) (source : String) : Prop where
  encoded : FileUri.ofPath? file = .ok uri
  denotes : ∀ rule : FileUri.DriveRule, rule.Keeps file → FileUri.path? uri rule = .ok (some file)
  place : ∃ project ∈ w.projects, ∃ root ∈ project.sourceRoots, Package.Holds t.package root file
  readable : s.readText file = .ok source
  declares : Java.DeclaresTopLevel file source t.package (TypeName.outerClass name)
  isLine : Lines.IsLine source.toUTF8.data line span
  listed : (Java.Outline.ofSource source).package ≠ none →
    ∃ entries, declarationsIn s w file = .ok entries ∧
      ∃ entry ∈ entries, entry.binaryName = TypeName.outerClass name ∧
        entry.isLocal = false ∧ entry.isAnonymous = false

/-- The library is the first that declares the type that `name` speaks of, and no file in the
directory of the package has the type at its top level. -/
structure InLibrary (s : Snapshot) (w : Workspace) (t : TypeName) (name id : String) : Prop where
  first : ∃ before l after, w.libraries = before ++ l :: after ∧ l.id = id ∧
    TypeSearch.libraryDeclares s l (TypeName.outerClass name) = .ok true ∧
    ∀ l' ∈ before, TypeSearch.libraryDeclares s l' (TypeName.outerClass name) ≠ .ok true
  no_source : ∀ project ∈ w.projects, ∀ root ∈ project.sourceRoots, ∀ file source,
    Package.Holds t.package root file → s.readText file = .ok source →
      ¬Java.DeclaresTopLevel file source t.package (TypeName.outerClass name)

section Sound

variable {text : String} {base : Path} {s : Snapshot} {w : Workspace} {name : String}
  {t : TypeName} (hw : Workspace.ofToml text base = .ok w) (hbase : base.isAbsolute = true)
  (hname : TypeName.ofBinaryName name = .ok t)

/-- A type at the top level of a file that declares its package is in the list of the file. -/
theorem exists_summary_of_declaresTopLevel {names : List (List UInt8)}
    (hnames : ∀ b ∈ names, Path.IsFileName b) {source package own : String}
    (hread : s.readText (.fromRoot names) = .ok source)
    (hdeclares : Java.DeclaresTopLevel (.fromRoot names) source package own)
    (hpackage : (Java.Outline.ofSource source).package ≠ none) :
    ∃ entries, declarationsIn s w (.fromRoot names) = .ok entries ∧
      ∃ entry ∈ entries, entry.binaryName = own ∧ entry.isLocal = false ∧
        entry.isAnonymous = false := by
  obtain ⟨tree, id, node, htree, hid, hnode, hown⟩ := hdeclares
  have hnormal := Path.normalize_of_components (Path.components_fromRoot hnames)
  have hnamed : Java.WellNamed _ tree :=
    (Java.declarations_eq_ok_iff.1 htree).2.2 ▸ Java.wellNamed_declarations ..
  have hqualified : tree.qualifiedName? id = some own := by
    rw [DeclarationTree.qualifiedName?, DeclarationTree.declaration?_eq_of_node? hnode]
    exact hown
  obtain ⟨d, -, hd, hk, hanonymous, hlocal, -⟩ :=
    hnamed.qualified_of_mem_topLevelTypes hid hqualified
  obtain rfl := Option.some.inj ((DeclarationTree.declaration?_eq_of_node? hnode).symm.trans hd)
  refine ⟨summaries tree (Lines.ofText source), ?_, TypeSummary.ofNode tree _ id node,
    mem_summaries_iff.2 ⟨id, node, hnode, hk, rfl⟩,
    hnamed.binaryName_of_mem_topLevelTypes hid hqualified, hlocal, hanonymous⟩
  refine declarationsIn_of_isAbsolute (Path.isAbsolute_fromRoot names) ?_ ?_
  · rw [hnormal]
    exact hread
  · rw [hnormal, Java.declarations_eq_ok_iff,
      Java.Outline.declarations_of_package hpackage _ _ (some package)]
    exact Java.declarations_eq_ok_iff.1 htree

include hw hbase

theorem LocatedIn.inSource {file : Path} {project : Project} {root : Path} {line : Int}
    {source uri : String} {span : Span} (h : LocatedIn s w name file project root)
    (hread : s.readText file = .ok source)
    (hspan : (Lines.ofText source).span line = .ok span) (huri : FileUri.ofPath? file = .ok uri) :
    ∃ t, TypeName.ofBinaryName name = .ok t ∧ InSource s w t name line uri span file source := by
  obtain ⟨t, hname, hfile⟩ := h.found
  obtain ⟨dirs, hpackage, hdirs, hsimple⟩ := TypeName.exists_of_ofBinaryName hname
  obtain ⟨names, rfl, hnames⟩ :=
    Workspace.sourceRoot_eq_fromRoot hw hbase h.project_mem h.root_mem
  obtain ⟨x, hall, rfl⟩ :=
    TypeSearch.exists_name_of_mem_filesUnder hpackage hdirs hsimple hnames hfile
  obtain ⟨source', hread', hdeclares⟩ :=
    TypeSearch.fileDeclares_iff.1 (TypeSearch.fileDeclares_of_mem_filesUnder hfile)
  obtain rfl := Except.ok.inj (hread.symm.trans hread')
  rw [TypeName.qualified_eq_outerClass hname] at hdeclares
  have hencoded := huri
  rw [FileUri.ofPath?_of_isAbsolute (Path.isAbsolute_fromRoot _)] at huri
  obtain rfl := Except.ok.inj huri
  have hdeclares' := hdeclares
  obtain ⟨tree, -, -, htree, -⟩ := hdeclares'
  have hplace : Package.Holds t.package (.fromRoot names)
      (.fromRoot (names ++ dirs.map Utf8.encode ++ [x])) := by
    refine ⟨(Java.declarations_eq_ok_iff.1 htree).2.1, x, ?_⟩
    rw [hpackage, Package.directories_intercalate hdirs, Path.components_fromRoot hall,
      Path.components_fromRoot hnames]
    simp
  exact ⟨t, hname, {
    encoded := hencoded
    denotes := fun _ ↦ FileUri.path?_ofPath (Path.components_fromRoot hall)
    place := ⟨project, h.project_mem, _, h.root_mem, hplace⟩
    readable := hread
    declares := hdeclares
    isLine := Lines.isLine_of_span (laid_of_declarations htree).1 hspan
    listed := exists_summary_of_declaresTopLevel hall hread hdeclares }⟩

include hname

theorem inLibrary_of_binaryHandles {id topLevel : String} {rest : List TypeHandle}
    (hhandles : TypeSearch.sourceHandles s t w.projects ++
      TypeSearch.binaryHandles t (TypeSearch.libraryAnswers s t w.libraries) =
        .binary id topLevel :: rest) : InLibrary s w t name id := by
  have houter := TypeName.qualified_eq_outerClass hname
  -- a source that was found would come first
  have hnone : ∀ project ∈ w.projects, ∀ root ∈ project.sourceRoots,
      TypeSearch.filesUnder s t root = [] := by
    intro project hproject root hroot
    rw [List.eq_nil_iff_forall_not_mem]
    intro file hfile
    have hmem := TypeSearch.mem_sourceHandles hproject hroot hfile
    obtain ⟨first, others, hcons⟩ := List.exists_cons_of_ne_nil (List.ne_nil_of_mem hmem)
    rw [hcons, List.cons_append] at hhandles
    have hfirst : .binary id topLevel ∈ TypeSearch.sourceHandles s t w.projects := by
      rw [hcons, (List.cons.inj hhandles).1]
      exact List.mem_cons_self
    obtain ⟨_, -, hfiles⟩ := List.mem_flatMap.1 hfirst
    obtain ⟨_, -, heq⟩ := List.mem_map.1 hfiles
    cases heq
  have hsources : TypeSearch.sourceHandles s t w.projects = [] := by
    rw [TypeSearch.sourceHandles_eq_flatMap, List.flatMap_eq_nil_iff]
    intro project hproject
    rw [List.flatMap_eq_nil_iff]
    intro root hroot
    rw [hnone project hproject root hroot, List.map_nil]
  rw [hsources, List.nil_append, TypeSearch.binaryHandles_libraryAnswers] at hhandles
  obtain ⟨l, others, hfilter, hl, -⟩ := List.map_eq_cons_iff.1 hhandles
  obtain ⟨before, after, hlibraries, hbefore, haffirms, -⟩ := List.filter_eq_cons_iff.1 hfilter
  refine ⟨⟨before, l, after, hlibraries, (TypeHandle.binary.inj hl).1, ?_, ?_⟩, ?_⟩
  · rw [← houter]
    exact TypeSearch.affirms_iff.1 haffirms
  · intro l' hl'
    rw [← houter]
    exact fun h ↦ hbefore l' hl' (TypeSearch.affirms_iff.2 h)
  · intro project hproject root hroot file source hholds hread hdeclares
    obtain ⟨names, rfl, hnames⟩ := Workspace.sourceRoot_eq_fromRoot hw hbase hproject hroot
    rw [← houter] at hdeclares
    exact TypeSearch.filesUnder_ne_nil_of_holds hname hnames hholds hread hdeclares
      (hnone project hproject _ hroot)

end Sound

/-- A location in a source is a line of a file that has the type, and a location in a library is in
the first library that has it while no source does. -/
theorem locationOf_sound {text : String} {base : Path} {s : Snapshot} {w : Workspace}
    {cancelled : Bool} {name : String} {line : Int} {location : Location}
    (hw : Workspace.ofToml text base = .ok w) (hbase : base.isAbsolute = true)
    (hlocation : locationOf s w cancelled name line = .ok location) :
    ∃ t, TypeName.ofBinaryName name = .ok t ∧
      match location with
      | .source uri span => ∃ file source, InSource s w t name line uri span file source
      | .archive id member => member = name ∧ InLibrary s w t name id := by
  cases location with
  | source uri span =>
    obtain ⟨file, project, root, source, hlocated, hread, hspan, huri⟩ := exists_locatedIn hlocation
    obtain ⟨t, hname, hsource⟩ := hlocated.inSource hw hbase hread hspan huri
    exact ⟨t, hname, file, source, hsource⟩
  | archive id member =>
    obtain ⟨t, first, rest, hname, hhandles, hfirst⟩ := exists_first_of_locationOf hlocation
    cases first with
    | binary libraryId topLevel =>
      obtain ⟨rfl, rfl⟩ := Location.archive.inj (Except.ok.inj hfirst)
      exact ⟨t, hname, rfl, inLibrary_of_binaryHandles hw hbase hname hhandles⟩
    | source file projectName topLevel =>
      obtain ⟨-, span, uri, -, -, -, heq⟩ := eq_of_locationIn hfirst
      cases heq

/-! ## A source and a library -/

def packagedSource : String := "package p;\r\nclass A\x7b\x7d"

def packagedOutline : Java.Outline := ⟨some "p", [.type ⟨12, 9⟩ "A" [] []]⟩

/-- `class A` of the package `p` in its directory under `/w/s`. -/
def packagedSnapshot : Snapshot :=
  (⟨.empty, .ofString "/"⟩ : Snapshot).writeFile (.ofString "/w/s/p/A.java") packagedSource.toUTF8

/-- A project with the source root `/w/s`, and a library with `B` of the package `p`. -/
def packagedWorkspace : Workspace :=
  ⟨[⟨"q", .ofString "/w", [.ofString "/w/s"]⟩], [⟨"l", none, ["p.B$C"]⟩]⟩

theorem ofBinaryName_packagedSource : TypeName.ofBinaryName " p.A$B " = .ok ⟨"p", "A"⟩ :=
  TypeName.ofBinaryName_eq_ok_iff.2 (by decide +kernel)

theorem ofBinaryName_packagedLibrary : TypeName.ofBinaryName "p.B" = .ok ⟨"p", "B"⟩ :=
  TypeName.ofBinaryName_eq_ok_iff.2 (by decide +kernel)

theorem ofToml_packagedWorkspace :
    Workspace.ofToml "projects=[[\"q\",\".\",[\"s\"]]]\n[[libraries]]\nid=\"l\"\ntypes=[\"p.B$C\"]"
      (.ofString "/w") = .ok packagedWorkspace := by
  have hdescription : WorkspaceDescription.ofToml?
      "projects=[[\"q\",\".\",[\"s\"]]]\n[[libraries]]\nid=\"l\"\ntypes=[\"p.B$C\"]" =
        some ⟨[⟨"q", ".", ["s"]⟩], [⟨none, "l", ["p.B$C"]⟩]⟩ := by decide +kernel
  rw [Workspace.ofToml, hdescription]
  cbv

theorem readText_packaged :
    packagedSnapshot.readText (.ofString "/w/s/p/A.java") = .ok packagedSource := by cbv

theorem declarations_packaged :
    Java.declarations (.ofString "/w/s/p/A.java") packagedSource (some "p") =
      .ok (packagedOutline.declarations 21 (some "p")) := by
  have htokens : Java.Token.ofSource? packagedSource = some
      [.word ⟨0, 7⟩ "package", .word ⟨8, 1⟩ "p", .mark ⟨9, 1⟩ ";",
        .word ⟨12, 5⟩ "class", .word ⟨18, 1⟩ "A", .group ⟨19, 2⟩ .curly []] := by rfl
  have houtline : Java.Outline.ofSource packagedSource = packagedOutline := by
    unfold Java.Outline.ofSource
    rw [htokens]
    cbv
  exact Java.declarations_eq_ok_iff.2 ⟨by decide, by decide, by rw [houtline]; rfl⟩

theorem fileDeclares_packaged :
    TypeSearch.fileDeclares packagedSnapshot ⟨"p", "A"⟩ (.ofString "/w/s/p/A.java") = true ∧
      TypeSearch.fileDeclares packagedSnapshot ⟨"p", "B"⟩ (.ofString "/w/s/p/A.java") = false := by
  rw [TypeSearch.fileDeclares, TypeSearch.fileDeclares, readText_packaged]
  simp only [declarations_packaged]
  constructor <;> cbv

theorem filesUnder_packaged :
    TypeSearch.filesUnder packagedSnapshot ⟨"p", "A"⟩ (.ofString "/w/s") =
        [.ofString "/w/s/p/A.java"] ∧
      TypeSearch.filesUnder packagedSnapshot ⟨"p", "B"⟩ (.ofString "/w/s") = [] := by
  have hexpected : TypeSearch.expectedFile ⟨"p", "A"⟩ (.ofString "/w/s") =
      .ofString "/w/s/p/A.java" := by cbv
  have hfile : packagedSnapshot.isFile (.ofString "/w/s/p/A.java") = true := by cbv
  have hnofile : packagedSnapshot.isFile
      (TypeSearch.expectedFile ⟨"p", "B"⟩ (.ofString "/w/s")) = false := by cbv
  have hothers : TypeSearch.otherFiles packagedSnapshot
      (TypeSearch.expectedFile ⟨"p", "B"⟩ (.ofString "/w/s")) = [.ofString "/w/s/p/A.java"] := by
    cbv
  constructor
  · rw [TypeSearch.filesUnder, hexpected, hfile, fileDeclares_packaged.1]
    rfl
  · rw [TypeSearch.filesUnder, hnofile, hothers]
    simp [fileDeclares_packaged.2]

theorem places_packaged (t : TypeName) :
    TypeSearch.places packagedSnapshot t packagedWorkspace =
      ((TypeSearch.filesUnder packagedSnapshot t (.ofString "/w/s")).map fun file ↦
          .source file "q" t.qualified) ++
        (packagedWorkspace.libraries.filter (TypeSearch.affirms packagedSnapshot t.qualified)).map
          fun l ↦ .binary l.id t.qualified := by
  simp [TypeSearch.places, packagedWorkspace]

theorem places_packagedSource :
    TypeSearch.places packagedSnapshot ⟨"p", "A"⟩ packagedWorkspace =
      [.source (.ofString "/w/s/p/A.java") "q" "p.A"] := by
  have houter : TypeName.outerName "p.B$C" = "p.B" := by decide +kernel
  have hqualified : TypeName.qualified ⟨"p", "A"⟩ = "p.A" := by rfl
  rw [places_packaged, filesUnder_packaged.1, hqualified]
  simp [packagedWorkspace, TypeSearch.affirms, TypeSearch.libraryDeclares, houter,
    Except.toOption]

theorem locationOf_packagedSource :
    locationOf packagedSnapshot packagedWorkspace false " p.A$B " 2 =
      .ok (.source "file:///w/s/p/A.java" ⟨12, 9⟩) := by
  have hname := ofBinaryName_packagedSource
  have hplaces := places_packagedSource
  have hspan : (Lines.ofText packagedSource).span 2 = .ok ⟨12, 9⟩ := by cbv
  have huri : FileUri.ofPath? (.ofString "/w/s/p/A.java") = .ok "file:///w/s/p/A.java" := by cbv
  rw [locationOf, TypeSearch.find_of_places_ne_nil hname (by simp [hplaces]), hplaces]
  simp only [bind, Except.bind, locationIn, readText_packaged, hspan, huri]
  rfl

theorem locationOf_packagedLibrary :
    locationOf packagedSnapshot packagedWorkspace false "p.B" 1 = .ok (.archive "l" "p.B") := by
  have hname := ofBinaryName_packagedLibrary
  have hplaces : TypeSearch.places packagedSnapshot ⟨"p", "B"⟩ packagedWorkspace =
      [.binary "l" "p.B"] := by
    rw [places_packaged, filesUnder_packaged.2]
    cbv
  rw [locationOf, TypeSearch.find_of_places_ne_nil hname (by simp [hplaces]), hplaces]
  rfl

/-- The source is found on its second line, and the library for the type that is in no source. -/
theorem locationOf_sound_packaged :
    Workspace.ofToml "projects=[[\"q\",\".\",[\"s\"]]]\n[[libraries]]\nid=\"l\"\ntypes=[\"p.B$C\"]"
        (.ofString "/w") = .ok packagedWorkspace ∧
      (Path.ofString "/w").isAbsolute = true ∧
      locationOf packagedSnapshot packagedWorkspace false " p.A$B " 2 =
        .ok (.source "file:///w/s/p/A.java" ⟨12, 9⟩) ∧
      (∃ file source, InSource packagedSnapshot packagedWorkspace ⟨"p", "A"⟩ " p.A$B " 2
        "file:///w/s/p/A.java" ⟨12, 9⟩ file source) ∧
      locationOf packagedSnapshot packagedWorkspace false "p.B" 1 = .ok (.archive "l" "p.B") ∧
      InLibrary packagedSnapshot packagedWorkspace ⟨"p", "B"⟩ "p.B" "l" := by
  have hbase : (Path.ofString "/w").isAbsolute = true := by decide
  obtain ⟨t, hname, hsource⟩ :=
    locationOf_sound ofToml_packagedWorkspace hbase locationOf_packagedSource
  obtain rfl := Except.ok.inj (ofBinaryName_packagedSource.symm.trans hname)
  obtain ⟨t, hname, -, hlibrary⟩ :=
    locationOf_sound ofToml_packagedWorkspace hbase locationOf_packagedLibrary
  obtain rfl := Except.ok.inj (ofBinaryName_packagedLibrary.symm.trans hname)
  exact ⟨ofToml_packagedWorkspace, hbase, locationOf_packagedSource, hsource,
    locationOf_packagedLibrary, hlibrary⟩

end Query

end BinaryNames
