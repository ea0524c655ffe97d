import BinaryNames.Proofs.Path.Components
import BinaryNames.Snapshot

/-!
# Entries of Snapshots

What a path leads to depends on its components alone, and a file that can be read is listed in its
directory.
-/

namespace BinaryNames

namespace FileEntry

/-- The last step of a path into a name is taken in the directory that the others lead to. -/
theorem exists_of_follow_name {above : List FileEntry} {here e : FileEntry}
    {steps : List Component} {x : List UInt8}
    (h : here.follow above (steps ++ [.name x]) = .ok e) :
    ∃ d, here.follow above steps = .ok d ∧ d.child? x = some e := by
  induction steps generalizing above here with
  | nil =>
    simp only [List.nil_append, follow] at h
    split at h
    · split at h
      · next inner hinner => exact ⟨here, rfl, hinner.trans (congrArg some (Except.ok.inj h))⟩
      · cases h
    · cases h
  | cons step steps ih =>
    rw [List.cons_append] at h
    cases hdirectory : here.isDirectory with
    | false => cases step <;> simp [follow, hdirectory] at h
    | true =>
      cases step with
      | name b =>
        simp only [follow, hdirectory, if_true] at h ⊢
        cases hchild : here.child? b with
        | none =>
          rw [hchild] at h
          cases h
        | some inner =>
          rw [hchild] at h
          exact ih h
      | parent =>
        simp only [follow, hdirectory, if_true] at h ⊢
        cases above with
        | nil => exact ih h
        | cons outer above => exact ih h
      | current =>
        simp only [follow, hdirectory, if_true] at h ⊢
        exact ih h
      | root =>
        simp only [follow, hdirectory, if_true] at h ⊢
        exact ih h

theorem exists_mem_names_of_child? {d e : FileEntry} {x : List UInt8} (h : d.child? x = some e) :
    ∃ name ∈ d.names, name.bytes = x := by
  cases d with
  | file content => cases h
  | directory entries =>
    obtain ⟨⟨name, inner⟩, hfind, -⟩ := Option.map_eq_some_iff.1 h
    have hname : name.bytes = x := by simpa using List.find?_some hfind
    exact ⟨name, List.mem_map.2 ⟨_, List.mem_of_find?_eq_some hfind, rfl⟩, hname⟩

end FileEntry

namespace Snapshot

variable (s : Snapshot)

theorem entry_of_isAbsolute {p : Path} (h : p.isAbsolute = true) :
    s.entry p = s.root.follow [] p.components := by
  rw [entry, if_neg (Path.bytes_ne_nil_of_isAbsolute h), absolute, Path.join, if_pos h]

/-- Paths from the root through the same names lead to the same entry. -/
theorem entry_of_components {p : Path} {names : List (List UInt8)}
    (h : p.components = .root :: names.map .name) : s.entry p = s.entry (.fromRoot names) := by
  have hnames : ∀ b ∈ names, Path.IsFileName b := by
    intro b hb
    refine Path.isFileName_of_mem_components (p := p) ?_
    simp [h, hb]
  rw [s.entry_of_isAbsolute (Path.isAbsolute_of_components h),
    s.entry_of_isAbsolute (Path.isAbsolute_fromRoot names), h, Path.components_fromRoot hnames]

theorem readText_of_components {p : Path} {names : List (List UInt8)}
    (h : p.components = .root :: names.map .name) :
    s.readText p = s.readText (.fromRoot names) := by
  rw [readText, readBytes, s.entry_of_components h, readText, readBytes]

variable {s}

theorem exists_entry_of_readText {p : Path} {text : String} (h : s.readText p = .ok text) :
    ∃ content, s.entry p = .ok (.file content) := by
  unfold readText readBytes at h
  split at h
  · next content hcontent =>
    split at hcontent
    · next content' hentry => exact ⟨content', hentry⟩
    all_goals cases hcontent
  · cases h

theorem exists_entry_of_isFile {p : Path} (h : s.isFile p = true) :
    ∃ content, s.entry p = .ok (.file content) := by
  unfold isFile at h
  split at h
  · next content hentry => exact ⟨content, hentry⟩
  · cases h

/-- What a path leads to is listed in the directory before it. -/
theorem mem_names_of_entry {names : List (List UInt8)} {x : List UInt8} {e : FileEntry}
    (hnames : ∀ b ∈ names ++ [x], Path.IsFileName b)
    (h : s.entry (.fromRoot (names ++ [x])) = .ok e) : x ∈ s.names (.fromRoot names) := by
  have hfront : ∀ b ∈ names, Path.IsFileName b := fun b hb ↦ hnames b (List.mem_append_left _ hb)
  rw [s.entry_of_isAbsolute (Path.isAbsolute_fromRoot _), Path.components_fromRoot hnames,
    List.map_append, List.map_singleton, ← List.cons_append] at h
  obtain ⟨d, hd, hchild⟩ := FileEntry.exists_of_follow_name h
  rw [Snapshot.names, s.entry_of_isAbsolute (Path.isAbsolute_fromRoot _),
    Path.components_fromRoot hfront, hd]
  exact List.mem_mergeSort.2 (List.mem_map.2 (FileEntry.exists_mem_names_of_child? hchild))

/-- Everything that is listed has a file name. -/
theorem isFileName_of_mem_names {path : Path} {x : List UInt8} (h : x ∈ s.names path) :
    Path.IsFileName x := by
  unfold names at h
  split at h
  · obtain ⟨name, -, rfl⟩ := List.mem_map.1 (List.mem_mergeSort.1 h)
    exact name.isFileName
  · cases h

end Snapshot

end BinaryNames
