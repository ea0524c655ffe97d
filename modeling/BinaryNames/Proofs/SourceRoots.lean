import BinaryNames.Proofs.Naming.TopLevel
import BinaryNames.Proofs.Path.Components
import BinaryNames.TypeSearch
import BinaryNames.Workspace.Config

/-!
# Source Roots and Packages

The source roots of a described workspace are paths from the root.  Where the directories between a
source root and a file are identifiers, they spell the package of the file, and the package spells
the same directories again: the file of a type is expected in the directory that its package comes
from.
-/

namespace BinaryNames

/-! ## Roots -/

theorem mem_or_eq_of_foldl_max {α : Type} {key : α → Nat} {l : List α} {a : α} (best : Option α)
    (h : l.foldl (fun best a ↦
      match best with
      | none => some a
      | some b => if key b ≤ key a then some a else some b) best = some a) :
    a ∈ l ∨ best = some a := by
  induction l generalizing best with
  | nil => exact Or.inr h
  | cons b rest ih =>
    rcases ih _ h with hmem | hbest
    · exact Or.inl (List.mem_cons_of_mem b hmem)
    · cases best with
      | none => exact Or.inl (Option.some.inj hbest ▸ List.mem_cons_self)
      | some c =>
        dsimp only at hbest
        split at hbest
        · exact Or.inl (Option.some.inj hbest ▸ List.mem_cons_self)
        · exact Or.inr hbest

theorem mem_of_lastMaxBy {α : Type} {key : α → Nat} {l : List α} {a : α}
    (h : lastMaxBy key l = some a) : a ∈ l :=
  (mem_or_eq_of_foldl_max none h).resolve_right (by simp)

theorem foldl_max_ne_none {α : Type} {key : α → Nat} (l : List α) (a : α) :
    l.foldl (fun best a ↦
      match best with
      | none => some a
      | some b => if key b ≤ key a then some a else some b) (some a) ≠ none := by
  induction l generalizing a with
  | nil => exact Option.some_ne_none a
  | cons b rest ih =>
    rw [List.foldl_cons]
    dsimp only
    split
    · exact ih b
    · exact ih a

theorem lastMaxBy_eq_none_iff {α : Type} {key : α → Nat} {l : List α} :
    lastMaxBy key l = none ↔ l = [] := by
  cases l with
  | nil => exact iff_of_true rfl rfl
  | cons a rest => exact iff_of_false (foldl_max_ne_none rest a) (List.cons_ne_nil a rest)

theorem Package.mem_of_deepestRoot {file root : Path} {roots : List Path}
    (h : Package.deepestRoot file roots = some root) : root ∈ roots :=
  List.mem_of_mem_filter (mem_of_lastMaxBy h)

theorem Workspace.mem_of_projectFor {w : Workspace} {file : Path} {p : Project}
    (h : w.projectFor file = .ok p) : p ∈ w.projects ∧ w.projectFor? file = some p := by
  unfold projectFor at h
  split at h
  · next q hq =>
    obtain rfl : q = p := Except.ok.inj h
    exact ⟨List.mem_of_mem_filter (mem_of_lastMaxBy hq), hq⟩
  · cases h

/-- Every source root of a workspace with an absolute base goes from the root through names. -/
theorem Workspace.sourceRoot_eq_fromRoot {text : String} {base : Path} {w : Workspace}
    (h : Workspace.ofToml text base = .ok w) (hbase : base.isAbsolute = true) {p : Project}
    (hp : p ∈ w.projects) {root : Path} (hroot : root ∈ p.sourceRoots) :
    ∃ names, root = .fromRoot names ∧ ∀ b ∈ names, Path.IsFileName b := by
  unfold Workspace.ofToml at h
  split at h
  · next d hd =>
    obtain rfl := Except.ok.inj h
    obtain ⟨description, -, rfl⟩ := List.mem_map.1 hp
    obtain ⟨r, -, rfl⟩ := List.mem_map.1 hroot
    apply Path.exists_normalize_eq_fromRoot
    apply Path.isAbsolute_join
    obtain ⟨names, hnames, -⟩ := Path.exists_normalize_eq_fromRoot
      (Path.isAbsolute_join hbase (.ofString description.root))
    rw [hnames]
    exact Path.isAbsolute_fromRoot names
  · cases h

/-! ## Packages -/

namespace Package

theorem toList_intercalate_dot (dirs : List String) :
    (String.intercalate "." dirs).toList = joinWith '.' (dirs.map String.toList) := by
  induction dirs with
  | nil => rfl
  | cons d rest ih =>
    cases rest with
    | nil => simp [joinWith]
    | cons q qs =>
      rw [String.intercalate_cons_of_ne_nil (by simp), List.map_cons,
        joinWith_cons '.' d.toList (by simp), ← ih]
      simp

theorem intercalate_dot (dirs : List String) :
    String.intercalate "." dirs = String.ofList (joinWith '.' (dirs.map String.toList)) := by
  rw [← toList_intercalate_dot, String.ofList_toList]

/-- The components of the directories with some names. -/
def steps (dirs : List String) : List Component := dirs.map fun d ↦ .name (Utf8.encode d)

theorem ofFile?_of_components {file root : Path} {roots : List Path} {dirs : List String}
    {x : List UInt8} (hroot : deepestRoot file roots = some root)
    (hfile : file.components = root.components ++ (steps dirs ++ [.name x])) :
    ofFile? file roots = some (String.intercalate "." dirs) := by
  have hbelow : file.components.drop root.components.length = steps dirs ++ [.name x] := by
    rw [hfile, List.drop_left]
  have hnames : (directoryNames file root).map Utf8.decodeLossy = dirs := by
    rw [directoryNames, hbelow]
    simp [Path.parentComponents?, steps, Component.name?, Function.comp_def,
      Utf8.decodeLossy_encode]
  rw [ofFile?, hroot, Option.map_some, hnames]

/-- A directory whose name one segment of a package can spell. -/
structure IsSegment (d : String) : Prop where
  isFileName : Path.IsFileName (Utf8.encode d)
  dot_notMem : '.' ∉ d.toList

theorem IsSegment.toList_ne_nil {d : String} (h : IsSegment d) : d.toList ≠ [] := by
  intro hnil
  exact h.isFileName.ne_nil (by rw [Utf8.encode, hnil, List.flatMap_nil])

theorem isSegment_of_isIdentifier {d : String} (h : TypeName.isIdentifier d.toList = true) :
    IsSegment d := by
  have hdot : '.' ∉ d.toList := TypeName.notMem_of_inRanges h (by decide)
  refine ⟨Path.isFileName_encode ?_ ?_ ?_ ?_, hdot⟩
  · rintro rfl
    exact TypeName.ne_nil_of_isIdentifier h rfl
  · exact TypeName.notMem_of_inRanges h (by decide)
  · rintro rfl
    exact hdot (by decide)
  · rintro rfl
    exact hdot (by decide)

section Segments

variable {dirs : List String} (hdirs : ∀ d ∈ dirs, IsSegment d)
include hdirs

theorem isFileName_of_isSegment : ∀ b ∈ dirs.map Utf8.encode, Path.IsFileName b :=
  List.forall_mem_map.2 fun d hd ↦ (hdirs d hd).isFileName

theorem segments_intercalate_dot :
    (splitOn '.' (String.intercalate "." dirs).toList).filter (· ≠ []) =
      dirs.map String.toList := by
  rw [toList_intercalate_dot]
  cases dirs with
  | nil => rfl
  | cons d rest =>
    have hdot : ∀ s ∈ (d :: rest).map String.toList, '.' ∉ s :=
      List.forall_mem_map.2 fun e he ↦ (hdirs e he).dot_notMem
    rw [splitOn_joinWith (by simp) hdot, List.filter_eq_self, List.forall_mem_map]
    intro e he
    simpa using (hdirs e he).toList_ne_nil

theorem foldl_join_directories (done : List (List UInt8)) (hdone : ∀ b ∈ done, Path.IsFileName b) :
    (dirs.map String.toList).foldl (fun p s ↦ Path.join p (.ofString (.ofList s)))
        ⟨joinWith Path.slash done⟩ =
      ⟨joinWith Path.slash (done ++ dirs.map Utf8.encode)⟩ := by
  induction dirs generalizing done with
  | nil => simp
  | cons d rest ih =>
    have hd := (hdirs d List.mem_cons_self).isFileName
    have hdone' : ∀ b ∈ done ++ [Utf8.encode d], Path.IsFileName b := by
      simpa [or_imp, forall_and] using ⟨hdone, hd⟩
    rw [List.map_cons, List.foldl_cons, String.ofList_toList, Path.ofString,
      Path.join_joinWith hdone hd,
      ih (fun e he ↦ hdirs e (List.mem_cons_of_mem d he)) _ hdone']
    simp

/-- The path of a type goes through the directories that spell its package. -/
theorem sourcePath_intercalate {simple : String}
    (hsimple : Path.IsFileName (Utf8.encode (simple ++ ".java"))) :
    sourcePath (String.intercalate "." dirs) simple =
      ⟨joinWith Path.slash (dirs.map Utf8.encode ++ [Utf8.encode (simple ++ ".java")])⟩ := by
  calc
    _ = ((dirs.map String.toList).foldl (fun p s ↦ Path.join p (.ofString (.ofList s)))
          ⟨joinWith Path.slash []⟩).join (.ofString (simple ++ ".java")) := by
      rw [sourcePath, segments_intercalate_dot hdirs]
      rfl
    _ = (⟨joinWith Path.slash (dirs.map Utf8.encode)⟩ : Path).join
          (.ofString (simple ++ ".java")) := by
      rw [foldl_join_directories hdirs [] (by simp), List.nil_append]
    _ = _ := Path.join_joinWith (isFileName_of_isSegment hdirs) hsimple

end Segments

section Expected

variable {dirs : List String} (hdirs : ∀ d ∈ dirs, TypeName.isIdentifier d.toList = true)
include hdirs

theorem isSegment_of_mem : ∀ d ∈ dirs, IsSegment d :=
  fun d hd ↦ isSegment_of_isIdentifier (hdirs d hd)

/-- The names that lead to a file in the directory of a package. -/
theorem isFileName_below {names : List (List UInt8)} (hnames : ∀ b ∈ names, Path.IsFileName b)
    {x : List UInt8} (hx : Path.IsFileName x) :
    ∀ b ∈ names ++ dirs.map Utf8.encode ++ [x], Path.IsFileName b := by
  rw [List.forall_mem_append, List.forall_mem_append, List.forall_mem_singleton]
  exact ⟨⟨hnames, isFileName_of_isSegment (isSegment_of_mem hdirs)⟩, hx⟩

variable {simple : String} (hsimple : TypeName.isIdentifier simple.toList = true)
include hsimple

omit hdirs in
theorem isFileName_java : Path.IsFileName (Utf8.encode (simple ++ ".java")) := by
  have hlength (other : String) (hlt : other.toList.length < 5) : simple ++ ".java" ≠ other := by
    rintro rfl
    rw [String.toList_append, List.length_append] at hlt
    have hjava : ".java".toList.length = 5 := rfl
    omega
  apply Path.isFileName_encode
  · exact hlength "" (by decide)
  · have hslash : '/' ∉ simple.toList := TypeName.notMem_of_inRanges hsimple (by decide)
    simpa using hslash
  · exact hlength "." (by decide)
  · exact hlength ".." (by decide)

/-- A type is expected in the directories that spell its package, in the file with its name. -/
theorem expectedFile_fromRoot {names : List (List UInt8)}
    (hnames : ∀ b ∈ names, Path.IsFileName b) :
    TypeSearch.expectedFile ⟨String.intercalate "." dirs, simple⟩ (.fromRoot names) =
      .fromRoot (names ++ dirs.map Utf8.encode ++ [Utf8.encode (simple ++ ".java")]) := by
  have hjava := isFileName_java hsimple
  have hmore : ∀ b ∈ dirs.map Utf8.encode ++ [Utf8.encode (simple ++ ".java")],
      Path.IsFileName b := by
    rw [List.forall_mem_append, List.forall_mem_singleton]
    exact ⟨isFileName_of_isSegment (isSegment_of_mem hdirs), hjava⟩
  rw [TypeSearch.expectedFile, sourcePath_intercalate (isSegment_of_mem hdirs) hjava,
    Path.join_fromRoot hnames (by simp) hmore, List.append_assoc]

end Expected

end Package

end BinaryNames
