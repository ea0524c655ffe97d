import BinaryNames.Proofs.Locations
import Mathlib

/-!
# URIs That Are Handed Back

The URI of an absolute path in normal form is read as that path, whatever bytes its names are made
of.  The one thing that can come between is a rule by which a first name such as `c|` is read as the
drive `c:`; a path that does not start so is kept under every rule.  Different paths have different
URIs in any case, because a URI is written without such a rule.  A name that is asked for at the URI
of a located file is then read off that file and no other.  What is located in a configured
workspace has a path in normal form, because its source roots have.
-/

namespace BinaryNames

namespace FileUri

variable {p q : Path}

/-- An absolute path in normal form comes back from its URI exactly if the rule keeps it. -/
theorem path?_ofPath_eq_self_iff {rule : DriveRule} (habsolute : p.isAbsolute = true)
    (hnormal : p.normalize = p) : path? (ofPath p) rule = .ok (some p) ↔ rule.Keeps p := by
  obtain ⟨names, hp, hnames⟩ := Path.exists_normalize_eq_fromRoot habsolute
  obtain rfl : p = .fromRoot names := hnormal.symm.trans hp
  exact ⟨keeps_of_path?_ofPath hnames, path?_ofPath (Path.components_fromRoot hnames)⟩

theorem isAbsolute_of_ofPath? {uri : String} (h : ofPath? p = .ok uri) :
    p.isAbsolute = true ∧ uri = ofPath p := by
  unfold ofPath? at h
  split at h
  · next habsolute => exact ⟨habsolute, (Except.ok.inj h).symm⟩
  · cases h

/-- Two absolute paths in normal form share a URI only if they are the same. -/
theorem eq_of_ofPath?_eq (hp : p.isAbsolute = true) (hp' : p.normalize = p)
    (hq : q.isAbsolute = true) (hq' : q.normalize = q) (h : ofPath? p = ofPath? q) : p = q := by
  rw [ofPath?_of_isAbsolute hp, ofPath?_of_isAbsolute hq, Except.ok.injEq] at h
  have hread : Except.ok (some p) = (.ok (some q) : Except Error (Option Path)) := by
    calc
      .ok (some p) = path? (ofPath p) :=
        ((path?_ofPath_eq_self_iff hp hp').2 (keeps_keepBar p)).symm
      _ = path? (ofPath q) := by rw [h]
      _ = .ok (some q) := (path?_ofPath_eq_self_iff hq hq').2 (keeps_keepBar q)
  exact Option.some.inj (Except.ok.inj hread)

end FileUri

namespace Query

/-- The name query on `uri` asks about `file`: the text of that file is all that it sees of a
snapshot, and where the file is under a source root of its owner, the name is read off this text. -/
structure AsksAbout (rule : FileUri.DriveRule) (w : Workspace) (uri : String) (file : Path) :
    Prop where
  denotes : FileUri.path? uri rule = .ok (some file)
  nothing_else : ∀ s s' : Snapshot, s.readText file = s'.readText file →
    ∀ line, nameAt s w uri line rule = nameAt s' w uri line rule
  unreadable : ∀ (s : Snapshot) owner package fault, w.projectFor? file = some owner →
    Package.ofFile? file owner.sourceRoots = some package → s.readText file = .error fault →
    ∀ line, nameAt s w uri line rule = .error (.locationNotResolvable file line)
  readable : ∀ (s : Snapshot) owner package source, w.projectFor? file = some owner →
    Package.ofFile? file owner.sourceRoots = some package → s.readText file = .ok source →
    ∀ line span, (Lines.ofText source).span line = .ok span →
      nameAt s w uri line rule = (nameOnLine? file source package span).elim
        (.error (.locationNotResolvable file line)) .ok

theorem asksAbout_of_path? {rule : FileUri.DriveRule} {w : Workspace} {uri : String} {file : Path}
    (h : FileUri.path? uri rule = .ok (some file)) : AsksAbout rule w uri file where
  denotes := h
  nothing_else s s' hread line := by
    rw [nameAt, nameAt, h]
    simp only [bind, Except.bind, hread]
  unreadable s owner package fault howner hpackage hread line := by
    rw [nameAt, h]
    simp only [bind, Except.bind, Workspace.projectFor, howner, hpackage, hread]
    rfl
  readable _ _ _ _ howner hpackage hread _ _ hspan := nameAt_of_root h howner hpackage hread hspan

section Located

variable {s : Snapshot} {w : Workspace} {cancelled : Bool} {name uri : String} {line : Int}
  {span : Span}

/-- A location in a source is a line of the file that the search finds first. -/
theorem exists_found_of_locationOf
    (h : locationOf s w cancelled name line = .ok (.source uri span)) :
    ∃ file project topLevel rest source,
      TypeSearch.find s w cancelled name = .ok (.source file project topLevel :: rest) ∧
      s.readText file = .ok source ∧ (Lines.ofText source).span line = .ok span ∧
      FileUri.ofPath? file = .ok uri := by
  obtain ⟨first, rest, hfind, hfirst⟩ := exists_find_of_locationOf h
  cases first with
  | binary id topLevel => cases hfirst
  | source file project topLevel =>
    obtain ⟨source, span', uri', hread, hspan, huri, heq⟩ := eq_of_locationIn hfirst
    obtain ⟨rfl, rfl⟩ := Location.source.inj heq
    exact ⟨file, project, topLevel, rest, source, hfind, hread, hspan, huri⟩

/-- What a search finds in a configured workspace has a path in normal form. -/
theorem normalize_of_find {text : String} {base : Path} (hw : Workspace.ofToml text base = .ok w)
    (hbase : base.isAbsolute = true) {file : Path} {project topLevel : String}
    {rest : List TypeHandle}
    (h : TypeSearch.find s w cancelled name = .ok (.source file project topLevel :: rest)) :
    file.normalize = file := by
  obtain ⟨t, hname, hhandles⟩ := TypeSearch.eq_of_find h
  obtain ⟨project', root, hlocated⟩ :=
    exists_locatedIn_of_mem hname (hhandles ▸ List.mem_cons_self)
  obtain ⟨names, hnames, rfl, -⟩ := hlocated.exists_names hw hbase
  exact Path.normalize_of_components (Path.components_fromRoot hnames)

end Located

/-- URIs can be handed back: that of an absolute path in normal form is read as the path, exactly
unless a rule for drive letters changes its first name.  No two of these paths share one, and the
URI of a location asks about the file that was found. -/
theorem uris_handed_back :
    (∀ (rule : FileUri.DriveRule) (p : Path), p.isAbsolute = true → p.normalize = p →
      ∃ uri, FileUri.ofPath? p = .ok uri ∧
        (FileUri.path? uri rule = .ok (some p) ↔ rule.Keeps p)) ∧
    (∀ p q : Path, p.isAbsolute = true → p.normalize = p → q.isAbsolute = true → q.normalize = q →
      FileUri.ofPath? p = FileUri.ofPath? q → p = q) ∧
    ∀ (s : Snapshot) (w : Workspace) cancelled name line uri span,
      locationOf s w cancelled name line = .ok (.source uri span) →
      ∃ file project topLevel rest source,
        TypeSearch.find s w cancelled name = .ok (.source file project topLevel :: rest) ∧
        s.readText file = .ok source ∧ (Lines.ofText source).span line = .ok span ∧
        FileUri.ofPath? file = .ok uri ∧
        (∀ rule : FileUri.DriveRule, file.normalize = file → rule.Keeps file →
          AsksAbout rule w uri file) ∧
        ∀ text base, Workspace.ofToml text base = .ok w → base.isAbsolute = true →
          file.normalize = file := by
  refine ⟨?_, fun p q ↦ FileUri.eq_of_ofPath?_eq, ?_⟩
  · intro rule p habsolute hnormal
    exact ⟨FileUri.ofPath p, FileUri.ofPath?_of_isAbsolute habsolute,
      FileUri.path?_ofPath_eq_self_iff habsolute hnormal⟩
  · intro s w cancelled name line uri span hlocation
    obtain ⟨file, project, topLevel, rest, source, hfind, hread, hspan, huri⟩ :=
      exists_found_of_locationOf hlocation
    refine ⟨file, project, topLevel, rest, source, hfind, hread, hspan, huri, ?_, ?_⟩
    · intro rule hnormal hkeeps
      obtain ⟨habsolute, rfl⟩ := FileUri.isAbsolute_of_ofPath? huri
      exact asksAbout_of_path? ((FileUri.path?_ofPath_eq_self_iff habsolute hnormal).2 hkeeps)
    · intro text base hw hbase
      exact normalize_of_find hw hbase hfind

/-- Names that could be taken for something else in a URI: a drive letter, escaped dots, blanks at
the ends, the start of a query and of a fragment, a backslash, and bytes that are no text. -/
def awkwardPath : Path :=
  .fromRoot [Utf8.encode "C:", Utf8.encode "%2e%2E", Utf8.encode " a b ", Utf8.encode "x?y#z",
    Utf8.encode "\\..", [0xFF, 0x09, 0x0A]]

/-- The path comes back under both rules, and so does the file of a location.  A path with a bar
after its drive letter comes back under one of them. -/
theorem uris_handed_back_awkward :
    awkwardPath.isAbsolute = true ∧ awkwardPath.normalize = awkwardPath ∧
      FileUri.DriveRule.writeColon.Keeps awkwardPath ∧
      FileUri.ofPath? awkwardPath =
        .ok "file:///C:/%252e%252E/%20a%20b%20/x%3Fy%23z/%5C../%FF%09%0A" ∧
      (∀ rule, FileUri.path? "file:///C:/%252e%252E/%20a%20b%20/x%3Fy%23z/%5C../%FF%09%0A" rule =
        .ok (some awkwardPath)) ∧
      (∀ rule, FileUri.path? "file:///c|/x" rule = .ok (some (.ofString "/c|/x")) ↔
        rule = .keepBar) ∧
      locationOf packagedSnapshot packagedWorkspace false " p.A$B " 2 =
        .ok (.source "file:///w/s/p/A.java" ⟨12, 9⟩) ∧
      ∀ rule, AsksAbout rule packagedWorkspace "file:///w/s/p/A.java"
        (.ofString "/w/s/p/A.java") := by
  have habsolute : awkwardPath.isAbsolute = true := by decide +kernel
  have hnormal : awkwardPath.normalize = awkwardPath := by decide +kernel
  have hkeeps (rule : FileUri.DriveRule) : rule.Keeps awkwardPath := Or.inr (by decide +kernel)
  have huri : FileUri.ofPath? awkwardPath =
      .ok "file:///C:/%252e%252E/%20a%20b%20/x%3Fy%23z/%5C../%FF%09%0A" := by cbv
  have hbarred : FileUri.ofPath? (.ofString "/c|/x") = .ok "file:///c|/x" := by cbv
  refine ⟨habsolute, hnormal, hkeeps _, huri, fun rule ↦ ?_, fun rule ↦ ?_,
    locationOf_packagedSource, fun rule ↦ ?_⟩
  · obtain ⟨uri, huri', hpath⟩ := uris_handed_back.1 rule awkwardPath habsolute hnormal
    obtain rfl := Except.ok.inj (huri.symm.trans huri')
    exact hpath.2 (hkeeps rule)
  · obtain ⟨uri, huri', hpath⟩ :=
      uris_handed_back.1 rule (.ofString "/c|/x") (by decide) (by decide +kernel)
    obtain rfl := Except.ok.inj (hbarred.symm.trans huri')
    have hdrive : ¬∀ c ∈ ((Path.ofString "/c|/x").components.drop 1).head?,
        FileUri.isBarredDrive c.bytes = false := by decide +kernel
    exact hpath.trans (or_iff_left hdrive)
  · obtain ⟨file, project, topLevel, rest, source, hfind, -, -, -, hasks, hnormal⟩ :=
      uris_handed_back.2.2 _ _ _ _ _ _ _ locationOf_packagedSource
    have hplaces := places_packagedSource
    have hfound := TypeSearch.find_of_places_ne_nil ofBinaryName_packagedSource
      (by rw [hplaces]; simp)
    rw [hplaces] at hfound
    have hfirst := (List.cons.inj (Except.ok.inj (hfound.symm.trans hfind))).1
    obtain rfl := (TypeHandle.source.inj hfirst).1
    exact hasks rule (hnormal _ _ ofToml_packagedWorkspace (by decide)) (Or.inr (by decide +kernel))

end Query

end BinaryNames
