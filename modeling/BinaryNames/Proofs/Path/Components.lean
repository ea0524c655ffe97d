import BinaryNames.Path
import BinaryNames.Proofs.Text.Codec

/-!
# Components of Paths

A path has components at its front and between its slashes.  Normalising leaves names after the
root, or after some steps up in a relative path, and nothing else.  An absolute path in normal form
is determined by its names, which come back as its components.  Joining goes on with further names.
-/

namespace BinaryNames

theorem Component.eq_of_name? {c : Component} {b : List UInt8} (h : c.name? = some b) :
    c = .name b := by
  cases c with
  | name x => rw [Option.some.inj h]
  | root => cases h
  | current => cases h
  | parent => cases h

namespace Path

/-- The path that goes from the root through some names. -/
def fromRoot (names : List (List UInt8)) : Path := ofComponents (.root :: names.map .name)

theorem bytes_fromRoot (names : List (List UInt8)) :
    (fromRoot names).bytes = slash :: joinWith slash names := by
  have hbytes : (names.map Component.name).map Component.bytes = names := by
    simp [Function.comp_def, Component.bytes]
  rw [fromRoot, ofComponents, hbytes]

theorem bytes_ne_nil_of_isAbsolute {p : Path} (h : p.isAbsolute = true) : p.bytes ≠ [] := by
  intro hnil
  simp [isAbsolute, hnil] at h

theorem isAbsolute_fromRoot (names : List (List UInt8)) : (fromRoot names).isAbsolute = true := by
  simp [isAbsolute, bytes_fromRoot]

theorem ofPiece?_eq_some_iff {piece b : List UInt8} :
    Component.ofPiece? piece = some (.name b) ↔
      piece = b ∧ b ≠ [] ∧ b ≠ [46] ∧ b ≠ [46, 46] := by
  unfold Component.ofPiece?
  grind

theorem IsFileName.ofPiece? {b : List UInt8} (h : IsFileName b) :
    Component.ofPiece? b = some (.name b) :=
  ofPiece?_eq_some_iff.2 ⟨rfl, h.ne_nil, h.ne_current, h.ne_parent⟩

theorem filterMap_ofPiece? {names : List (List UInt8)} (h : ∀ b ∈ names, IsFileName b) :
    names.filterMap Component.ofPiece? = names.map .name := by
  rw [← List.filterMap_eq_map]
  exact List.filterMap_congr fun b hb ↦ (h b hb).ofPiece?

/-- What stands at the front of a path: the root, or the `.` that a relative path may start with. -/
def leadingComponents (p : Path) : List Component :=
  if p.isAbsolute then [.root] else if p.pieces.head? = some [46] then [.current] else []

/-- What stands between the slashes of a path. -/
def innerComponents (p : Path) : List Component := p.pieces.filterMap Component.ofPiece?

theorem components_eq (p : Path) : p.components = p.leadingComponents ++ p.innerComponents := by
  unfold components leadingComponents
  split_ifs <;> rfl

theorem components_eq_of_isAbsolute {p : Path} (h : p.isAbsolute = true) :
    p.components = .root :: p.innerComponents := by
  rw [components_eq, leadingComponents, if_pos h, List.singleton_append]

/-- The components that can stand between slashes. -/
inductive IsInner : Component → Prop
  | parent : IsInner .parent
  | name {b : List UInt8} (h : IsFileName b) : IsInner (.name b)

theorem isInner_of_mem {p : Path} {c : Component} (h : c ∈ p.innerComponents) : IsInner c := by
  obtain ⟨piece, hpiece, hc⟩ := List.mem_filterMap.1 h
  have hslash := notMem_of_mem_splitOn hpiece
  unfold Component.ofPiece? at hc
  split_ifs at hc with hnil hcurrent hparent
  · exact Option.some.inj hc ▸ .parent
  · exact Option.some.inj hc ▸ .name ⟨hnil, hslash, hcurrent, hparent⟩

theorem root_notMem_innerComponents (p : Path) : .root ∉ p.innerComponents :=
  fun h ↦ nomatch isInner_of_mem h

theorem eq_of_mem_leadingComponents {p : Path} {c : Component} (h : c ∈ p.leadingComponents) :
    c = .root ∧ p.isAbsolute = true ∨ c = .current := by
  unfold leadingComponents at h
  split_ifs at h with habsolute
  · exact Or.inl ⟨List.mem_singleton.1 h, habsolute⟩
  · exact Or.inr (List.mem_singleton.1 h)
  · cases h

theorem components_fromRoot {names : List (List UInt8)} (h : ∀ b ∈ names, IsFileName b) :
    (fromRoot names).components = .root :: names.map .name := by
  have hpieces : (splitOn slash (joinWith slash names)).filterMap Component.ofPiece? =
      names.map .name := by
    cases names with
    | nil => rfl
    | cons b rest =>
      rw [splitOn_joinWith (by simp) fun b hb ↦ (h b hb).slash_notMem, filterMap_ofPiece? h]
  rw [components_eq_of_isAbsolute (isAbsolute_fromRoot names), innerComponents, pieces,
    bytes_fromRoot, splitOn, if_pos rfl]
  exact congrArg _ hpieces

theorem isFileName_of_mem_components {p : Path} {b : List UInt8}
    (h : Component.name b ∈ p.components) : IsFileName b := by
  rw [components_eq, List.mem_append] at h
  rcases h with h | h
  · rcases eq_of_mem_leadingComponents h with ⟨h, -⟩ | h <;> cases h
  · cases isInner_of_mem h with
    | name h => exact h

theorem isAbsolute_of_components {p : Path} {steps : List Component}
    (h : p.components = .root :: steps) : p.isAbsolute = true := by
  have hmem : .root ∈ p.components := h ▸ List.mem_cons_self
  rw [components_eq, List.mem_append] at hmem
  rcases hmem with hmem | hmem
  · rcases eq_of_mem_leadingComponents hmem with ⟨-, h⟩ | h
    · exact h
    · cases h
  · exact absurd hmem (root_notMem_innerComponents p)

/-! ## Normal form -/

/-- Components in normal form: names after the root, or after some steps up. -/
inductive Normal : (absolute : Bool) → List Component → Prop
  | absolute (names : List (List UInt8)) : Normal true (.root :: names.map .name)
  | relative (ups : Nat) (names : List (List UInt8)) :
      Normal false (.replicate ups .parent ++ names.map .name)

theorem Normal.exists_names {cs : List Component} (h : Normal true cs) :
    ∃ names : List (List UInt8), cs = .root :: names.map .name := by
  cases h with
  | absolute names => exact ⟨names, rfl⟩

theorem pushNormal_replicate (ups : Nat) :
    pushNormal (.replicate ups .parent) .parent = .replicate (ups + 1) .parent := by
  cases ups <;> rfl

theorem Normal.push {absolute : Bool} {cs : List Component} (h : Normal absolute cs)
    {c : Component} (hc : c ≠ .root) : Normal absolute (pushNormal cs.reverse c).reverse := by
  cases c with
  | root => exact absurd rfl hc
  | current => simpa [pushNormal] using h
  | name b =>
    cases h with
    | absolute names => simpa [pushNormal] using Normal.absolute (names ++ [b])
    | relative ups names => simpa [pushNormal] using Normal.relative ups (names ++ [b])
  | parent =>
    -- the last name goes; without one, the root stays and a relative path goes further up
    cases h with
    | absolute names =>
      rcases names.eq_nil_or_concat with rfl | ⟨front, last, rfl⟩
      · exact .absolute []
      · simpa [pushNormal] using Normal.absolute front
    | relative ups names =>
      rcases names.eq_nil_or_concat with rfl | ⟨front, last, rfl⟩
      · simpa [pushNormal_replicate] using Normal.relative (ups + 1) []
      · simpa [pushNormal] using Normal.relative ups front

theorem Normal.foldl_push {absolute : Bool} {cs steps : List Component} (h : Normal absolute cs)
    (hsteps : .root ∉ steps) : Normal absolute (steps.foldl pushNormal cs.reverse).reverse := by
  induction steps generalizing cs with
  | nil => simpa using h
  | cons c steps ih =>
    rw [List.mem_cons, not_or] at hsteps
    simpa using ih (h.push (Ne.symm hsteps.1)) hsteps.2

theorem foldl_leadingComponents (p : Path) :
    p.leadingComponents.foldl pushNormal [] = if p.isAbsolute then [.root] else [] := by
  unfold leadingComponents
  split_ifs <;> rfl

theorem normal_normalComponents (p : Path) :
    Normal p.isAbsolute (normalComponents p.components) := by
  have hroot := root_notMem_innerComponents p
  rw [normalComponents, components_eq, List.foldl_append, foldl_leadingComponents]
  cases p.isAbsolute with
  | true => exact (Normal.absolute []).foldl_push hroot
  | false => exact (Normal.relative 0 []).foldl_push hroot

theorem pushNormal_sublist (stack : List Component) (c : Component) :
    (pushNormal stack c).Sublist (c :: stack) := by
  cases c with
  | root => exact .refl _
  | name b => exact .refl _
  | current => exact List.sublist_cons_self _ _
  | parent =>
    cases stack with
    | nil => exact .refl _
    | cons top below =>
      cases top with
      | root => exact List.sublist_cons_self _ _
      | name b => exact (List.sublist_cons_self _ _).trans (List.sublist_cons_self _ _)
      | current => exact .refl _
      | parent => exact .refl _

theorem foldl_pushNormal_sublist (steps stack : List Component) :
    (steps.foldl pushNormal stack).reverse.Sublist (stack.reverse ++ steps) := by
  induction steps generalizing stack with
  | nil => simp
  | cons c steps ih =>
    have hfirst := (pushNormal_sublist stack c).reverse.append_right steps
    rw [List.reverse_cons, List.append_assoc, List.singleton_append] at hfirst
    exact (ih (pushNormal stack c)).trans hfirst

/-- Normalising only leaves out components. -/
theorem normalComponents_sublist (steps : List Component) :
    (normalComponents steps).Sublist steps :=
  foldl_pushNormal_sublist steps []

theorem isFileName_of_mem_normalComponents {p : Path} {b : List UInt8}
    (h : Component.name b ∈ normalComponents p.components) : IsFileName b :=
  isFileName_of_mem_components ((normalComponents_sublist _).mem h)

/-- The normal form of an absolute path goes from the root through names. -/
theorem exists_normalize_eq_fromRoot {p : Path} (h : p.isAbsolute = true) :
    ∃ names, p.normalize = fromRoot names ∧ ∀ b ∈ names, IsFileName b := by
  obtain ⟨names, hnames⟩ := (h ▸ normal_normalComponents p : Normal true _).exists_names
  refine ⟨names, by rw [normalize, hnames, fromRoot], fun b hb ↦ ?_⟩
  apply isFileName_of_mem_normalComponents (p := p)
  rw [hnames]
  exact List.mem_cons_of_mem _ (List.mem_map_of_mem hb)

theorem foldl_pushNormal_map_name (names : List (List UInt8)) (stack : List Component) :
    (names.map Component.name).foldl pushNormal stack =
      (names.map Component.name).reverse ++ stack := by
  induction names generalizing stack with
  | nil => rfl
  | cons b rest ih => simp [ih, pushNormal]

/-- A path that goes from the root through names is its own normal form, up to the slashes that it
is written with. -/
theorem normalize_of_components {p : Path} {names : List (List UInt8)}
    (h : p.components = .root :: names.map .name) : p.normalize = fromRoot names := by
  have hroot : pushNormal [] .root = [.root] := rfl
  rw [normalize, normalComponents, h, List.foldl_cons, hroot, foldl_pushNormal_map_name, fromRoot]
  simp

/-! ## Joining -/

theorem isAbsolute_join {base : Path} (h : base.isAbsolute = true) (other : Path) :
    (base.join other).isAbsolute = true := by
  have hne : base.bytes ≠ [] := by
    intro hnil
    simp [isAbsolute, hnil] at h
  obtain ⟨b, rest, hcons⟩ := List.exists_cons_of_ne_nil hne
  unfold isAbsolute at h
  rw [join, if_neg hne]
  split
  · assumption
  · split <;> simpa [isAbsolute, hcons] using h

theorem getLast?_joinWith_ne_slash {names : List (List UInt8)} (hne : names ≠ [])
    (h : ∀ b ∈ names, IsFileName b) : (joinWith slash names).getLast? ≠ some slash := by
  have hlast (b : List UInt8) (hb : IsFileName b) : b.getLast? ≠ some slash :=
    fun hslash ↦ hb.slash_notMem (List.mem_of_getLast? hslash)
  rcases names.eq_nil_or_concat with rfl | ⟨front, b, rfl⟩
  · exact absurd rfl hne
  have hb := h b (by simp)
  cases front with
  | nil => exact hlast b hb
  | cons a front =>
    have hb' : joinWith slash [b] = b := rfl
    rw [List.concat_eq_append, joinWith_append slash (by simp) (by simp), hb',
      List.getLast?_append_of_ne_nil _ (by simp), List.getLast?_cons_of_ne_nil hb.ne_nil]
    exact hlast b hb

theorem isAbsolute_joinWith {pieces : List (List UInt8)}
    (h : ∀ b ∈ pieces, b ≠ [] ∧ slash ∉ b) :
    (⟨joinWith slash pieces⟩ : Path).isAbsolute = false := by
  cases pieces with
  | nil => rfl
  | cons b rest =>
    obtain ⟨hne, hslash⟩ := h b List.mem_cons_self
    obtain ⟨a, tail, rfl⟩ := List.exists_cons_of_ne_nil hne
    have ha : a ≠ slash := fun ha ↦ hslash (ha ▸ List.mem_cons_self)
    cases rest <;> simpa [isAbsolute, joinWith] using ha

/-- Names go on where a path ends. -/
theorem join_fromRoot {names more : List (List UInt8)} (hnames : ∀ b ∈ names, IsFileName b)
    (hne : more ≠ []) (hmore : ∀ b ∈ more, IsFileName b) :
    (fromRoot names).join ⟨joinWith slash more⟩ = fromRoot (names ++ more) := by
  have hresult : fromRoot (names ++ more) = ⟨slash :: joinWith slash (names ++ more)⟩ :=
    congrArg Path.mk (bytes_fromRoot (names ++ more))
  have hrelative := isAbsolute_joinWith fun b hb ↦ ⟨(hmore b hb).ne_nil, (hmore b hb).slash_notMem⟩
  rw [join, hrelative, if_neg (by simp), bytes_fromRoot, if_neg (by simp), hresult]
  cases names with
  | nil => simp [joinWith]
  | cons b rest =>
    have hlast : (slash :: joinWith slash (b :: rest)).getLast? ≠ some slash := by
      rw [List.getLast?_cons_of_ne_nil (joinWith_ne_nil (by simp) fun b hb ↦ (hnames b hb).ne_nil)]
      exact getLast?_joinWith_ne_slash (by simp) hnames
    rw [if_neg hlast, List.cons_append, ← joinWith_append slash (by simp) hne]

/-- One more name on a relative path. -/
theorem join_joinWith {names : List (List UInt8)} (hnames : ∀ b ∈ names, IsFileName b)
    {x : List UInt8} (hx : IsFileName x) :
    (⟨joinWith slash names⟩ : Path).join ⟨x⟩ = ⟨joinWith slash (names ++ [x])⟩ := by
  have hone : ∀ b ∈ [x], b ≠ [] ∧ slash ∉ b := by simpa using ⟨hx.ne_nil, hx.slash_notMem⟩
  have hrelative : (⟨x⟩ : Path).isAbsolute = false := isAbsolute_joinWith hone
  rw [join, hrelative, if_neg (by simp)]
  cases names with
  | nil => rfl
  | cons b rest =>
    rw [if_neg (joinWith_ne_nil (by simp) fun b hb ↦ (hnames b hb).ne_nil),
      if_neg (getLast?_joinWith_ne_slash (by simp) hnames),
      joinWith_append slash (by simp) (by simp)]
    rfl

theorem isFileName_encode {text : String} (hempty : text ≠ "") (hslash : '/' ∉ text.toList)
    (hcurrent : text ≠ ".") (hparent : text ≠ "..") : IsFileName (Utf8.encode text) := by
  have hinjective {other : String} (h : Utf8.encode text = Utf8.encode other) : text = other := by
    rw [← Utf8.decodeLossy_encode text, h, Utf8.decodeLossy_encode]
  refine ⟨fun h ↦ hempty (hinjective h), fun hmem ↦ ?_, fun h ↦ hcurrent (hinjective h),
    fun h ↦ hparent (hinjective h)⟩
  obtain ⟨c, hc, hnat⟩ := Utf8.mem_encode_of_ascii hmem (by decide)
  have hchar : c = '/' := by
    rw [← Char.ofNat_toNat c, hnat]
    rfl
  exact hslash (hchar ▸ hc)

end Path

end BinaryNames
