import BinaryNames.Proofs.Java.Growth
import BinaryNames.Proofs.Java.Syntax
import Mathlib.Data.Set.Function

/-!
# Where Declarations Come From

Growth turns each place of an outline that declares something into one node of the declaration
tree.  A place lies in another exactly when its node does, and the nodes are numbered in the order
of the text.
-/

namespace BinaryNames.Java

/-- The tree has one node for each of the places so far, in their order and below each other as they
are. -/
structure Sited (sites : List Site) (t : DeclarationTree) : Prop extends t.Rooted where
  size_eq : t.size = sites.length + 1
  bare_eq : ∀ (i : Nat) (s : Site), sites[i]? = some s →
    (t.declaration? (i + 1)).map Declaration.bare = some s.declaration
  mem_chain_iff : ∀ (i j : Nat) (s s' : Site), sites[i]? = some s → sites[j]? = some s' →
    (i + 1 ∈ t.chain (j + 1) ↔ s.address <+: s'.address)

/-- The node at `id` is that of the nearest place above an address, or the root if there is none. -/
def Nearest (sites : List Site) (address : List Nat) : Nat → Prop
  | 0 => ∀ s ∈ sites, ¬s.address <+: address
  | i + 1 => ∃ s, sites[i]? = some s ∧ s.address <+: address ∧
      ∀ s' ∈ sites, s'.address <+: address → s'.address <+: s.address

/-- No place so far is at an address or below it. -/
def Fresh (sites : List Site) (address : List Nat) : Prop :=
  ∀ s ∈ sites, ¬address <+: s.address

section Places

variable {sites new : List Site} {address : List Nat} {id : Nat}

theorem Nearest.append (h : Nearest sites address id)
    (hnew : ∀ s ∈ new, ¬s.address <+: address) : Nearest (sites ++ new) address id := by
  cases id with
  | zero =>
    intro s hs
    rcases List.mem_append.1 hs with hs | hs
    · exact h s hs
    · exact hnew s hs
  | succ i =>
    obtain ⟨s, hi, habove, hall⟩ := h
    refine ⟨s, List.getElem?_append_left (List.getElem?_eq_some_iff.1 hi).1 ▸ hi, habove, ?_⟩
    intro s' hs' habove
    rcases List.mem_append.1 hs' with hs' | hs'
    · exact hall s' hs' habove
    · exact absurd habove (hnew s' hs')

/-- Where there is no place, the nearest one is that of the address above. -/
theorem nearest_concat_iff {i : Nat} (hnone : ∀ s ∈ sites, s.address ≠ address ++ [i]) :
    Nearest sites (address ++ [i]) id ↔ Nearest sites address id := by
  have hiff : ∀ s ∈ sites, (s.address <+: address ++ [i] ↔ s.address <+: address) := by
    intro s hs
    rw [List.prefix_concat_iff]
    exact or_iff_right (hnone s hs)
  cases id with
  | zero => exact forall₂_congr fun s hs ↦ not_congr (hiff s hs)
  | succ j =>
    refine exists_congr fun s ↦ and_congr_right fun hj ↦ ?_
    exact and_congr (hiff s (List.mem_of_getElem? hj))
      (forall₂_congr fun s' hs' ↦ imp_congr_left (hiff s' hs'))

theorem Nearest.concat (h : Nearest sites address id) {i : Nat}
    (hfresh : Fresh sites (address ++ [i])) : Nearest sites (address ++ [i]) id :=
  (nearest_concat_iff fun s hs heq ↦ hfresh s hs (heq ▸ List.prefix_rfl)).2 h

theorem Fresh.append {old : List Site} (h : Fresh old address) (hnew : Fresh new address) :
    Fresh (old ++ new) address :=
  List.forall_mem_append.2 ⟨h, hnew⟩

theorem Fresh.concat (h : Fresh sites address) (i : Nat) : Fresh sites (address ++ [i]) :=
  fun s hs hbelow ↦ h s hs ((List.prefix_append _ _).trans hbelow)

theorem fresh_concat_singleton (address : List Nat) (d : Declaration) (i : Nat) :
    Fresh [⟨address, d⟩] (address ++ [i]) := by
  intro s hs hbelow
  rw [List.mem_singleton.1 hs] at hbelow
  exact not_above_of_below_child hbelow List.prefix_rfl

/-- What is below one child leaves the other children fresh. -/
theorem fresh_concat_of_ne {i j : Nat} (hne : i ≠ j)
    (h : ∀ s ∈ new, address ++ [i] <+: s.address) : Fresh new (address ++ [j]) :=
  fun s hs hbelow ↦ hne (child_eq_of_below (h s hs) hbelow)

/-- The new place is the last. -/
theorem getElem?_concat_eq_some_iff {s s' : Site} {i : Nat} :
    (sites ++ [s])[i]? = some s' ↔ sites[i]? = some s' ∨ i = sites.length ∧ s' = s := by
  rw [List.getElem?_append]
  split
  · next hlt => simp [hlt.ne]
  · next hle =>
    have hnone : sites[i]? = none := List.getElem?_eq_none (Nat.le_of_not_lt hle)
    rw [hnone, List.getElem?_singleton]
    grind

end Places

theorem Sited.lt_size {sites : List Site} {t : DeclarationTree} (h : Sited sites t) {i : Nat}
    {s : Site} (hi : sites[i]? = some s) : i + 1 < t.size := by
  rw [h.size_eq]
  exact Nat.succ_lt_succ (List.getElem?_eq_some_iff.1 hi).1

/-- Every node but the root is that of a place. -/
theorem Sited.exists_site {sites : List Site} {t : DeclarationTree} (h : Sited sites t) {id : Nat}
    (hpos : 0 < id) (hid : id < t.size) : ∃ i s, id = i + 1 ∧ sites[i]? = some s := by
  obtain ⟨i, rfl⟩ := Nat.exists_eq_succ_of_ne_zero hpos.ne'
  rw [h.size_eq] at hid
  exact ⟨i, _, rfl, List.getElem?_eq_getElem (Nat.lt_of_succ_lt_succ hid)⟩

theorem Nearest.lt_size {sites : List Site} {address : List Nat} {id : Nat} {t : DeclarationTree}
    (h : Nearest sites address id) (ht : Sited sites t) : id < t.size := by
  cases id with
  | zero => exact t.nodes_pos
  | succ i =>
    obtain ⟨s, hi, -⟩ := h
    exact ht.lt_size hi

section Push

variable {sites : List Site} {t : DeclarationTree} {address : List Nat} {p : Nat}
  {d e : Declaration} (h : Sited sites t) (hnearest : Nearest sites address p)
  (hfresh : Fresh sites address)
include h hnearest

/-- Above an address are the places whose nodes are on the chain of the nearest one. -/
theorem Sited.mem_chain_nearest_iff {i : Nat} {s : Site} (hi : sites[i]? = some s) :
    i + 1 ∈ t.chain p ↔ s.address <+: address := by
  cases p with
  | zero =>
    rw [h.chain_root]
    simpa using hnearest s (List.mem_of_getElem? hi)
  | succ j =>
    obtain ⟨s', hj, habove, hall⟩ := hnearest
    rw [h.mem_chain_iff i j s s' hi hj]
    exact ⟨fun hs ↦ hs.trans habove, hall s (List.mem_of_getElem? hi)⟩

include hfresh

theorem Sited.push (hd : d.kind ≠ .unit) (hbare : d.bare = e) :
    Sited (sites ++ [⟨address, e⟩]) (t.push p d) where
  toRooted := h.toRooted.push p hd
  size_eq := by rw [DeclarationTree.size_push, h.size_eq, List.length_append, List.length_singleton]
  bare_eq := by
    intro i s hi
    rcases getElem?_concat_eq_some_iff.1 hi with hold | ⟨rfl, rfl⟩
    · rw [DeclarationTree.declaration?_push_of_lt t p d (h.lt_size hold)]
      exact h.bare_eq i s hold
    · rw [← h.size_eq, DeclarationTree.declaration?_push_size, Option.map_some, hbare]
  mem_chain_iff := by
    have hchain := DeclarationTree.chain_push_size t p hd
    rw [DeclarationTree.attachPoint_of_lt (hnearest.lt_size h)] at hchain
    intro i j s s' hi hj
    rcases getElem?_concat_eq_some_iff.1 hj with hj | ⟨rfl, rfl⟩
    · rw [DeclarationTree.chain_push_of_lt t p d (h.lt_size hj)]
      rcases getElem?_concat_eq_some_iff.1 hi with hi | ⟨rfl, rfl⟩
      · exact h.mem_chain_iff i j s s' hi hj
      · -- the new node comes after the old ones, so it is above none of them
        refine iff_of_false (fun hmem ↦ ?_) (hfresh s' (List.mem_of_getElem? hj))
        have := DeclarationTree.le_of_mem_chain hmem
        have := h.lt_size hj
        rw [h.size_eq] at this
        omega
    · rw [← h.size_eq, hchain, List.mem_cons]
      rcases getElem?_concat_eq_some_iff.1 hi with hi | ⟨rfl, rfl⟩
      · rw [or_iff_right (h.lt_size hi).ne]
        exact h.mem_chain_nearest_iff hnearest hi
      · exact iff_of_true (Or.inl h.size_eq.symm) List.prefix_rfl

omit hnearest hfresh in
theorem Sited.nearest_push : Nearest (sites ++ [⟨address, e⟩]) address t.size := by
  rw [h.size_eq]
  exact ⟨⟨address, e⟩, by simp, List.prefix_rfl, fun s' _ habove ↦ habove⟩

end Push

/-- What the walk knows when it comes to an address in a scope. -/
structure Arrived (sites : List Site) (g : Growth) (scope : Scope) (inBody : Bool)
    (address : List Nat) : Prop where
  sited : Sited sites g.tree
  nearest : Nearest sites address scope.parent
  isBody_eq : scope.isBody = inBody

section Walk

variable {package : String} {sites new : List Site} {g g₁ : Growth} {scope inner : Scope}
  {inBody : Bool} {address : List Nat}

/-- A declaration is pushed, and the walk goes on inside it. -/
theorem Arrived.push (h : Arrived sites g scope inBody address) (hfresh : Fresh sites address)
    {d e : Declaration} (hd : d.kind ≠ .unit) (hbare : d.bare = e)
    (htree : g₁.tree = g.tree.push scope.parent d) (hparent : inner.parent = g₁.lastId) :
    Arrived (sites ++ [⟨address, e⟩]) g₁ inner inner.isBody address where
  sited := by
    rw [htree]
    exact h.sited.push h.nearest hfresh hd hbare
  nearest := by
    rw [hparent, Growth.lastId, htree, DeclarationTree.lastId_push]
    exact h.sited.nearest_push
  isBody_eq := rfl

/-- After growth below an address, the walk is still there. -/
theorem Arrived.after (h : Arrived sites g scope inBody address)
    (hsited : Sited (sites ++ new) g₁.tree)
    (hnew : ∀ s ∈ new, ∃ i, address ++ [i] <+: s.address) :
    Arrived (sites ++ new) g₁ scope inBody address where
  sited := hsited
  nearest := by
    apply h.nearest.append
    intro s hs
    obtain ⟨i, hbelow⟩ := hnew s hs
    exact not_above_of_below_child hbelow
  isBody_eq := h.isBody_eq

theorem Arrived.concat (h : Arrived sites g scope inBody address) {i : Nat}
    (hfresh : Fresh sites (address ++ [i])) : Arrived sites g scope inBody (address ++ [i]) :=
  ⟨h.sited, h.nearest.concat hfresh, h.isBody_eq⟩

/-- A declaration with what it holds, where `hparts` says what growth makes of the parts inside. -/
theorem Arrived.sited_declared (h : Arrived sites g scope inBody address)
    (hfresh : Fresh sites address) (node : SyntaxNode) (inner : Scope) {d : Declaration}
    {parts : List Part} (hd : d.kind ≠ .unit) (hbare : node.declared? inBody = some d.bare)
    (hcontents : node.contents = parts.map .part)
    (hinner : node.holdsMembers inBody = inner.isBody)
    (htree : g₁.tree = g.tree.push scope.parent d) (hparent : inner.parent = g₁.lastId)
    (hparts : ∀ (start : Nat) {sites : List Site}, Arrived sites g₁ inner inner.isBody address →
      (∀ i, start ≤ i → Fresh sites (address ++ [i])) →
      Sited (sites ++ sitesFrom inner.isBody address start (parts.map .part))
        (growParts package inner g₁ parts).tree) :
    Sited (sites ++ node.sites inBody address) (growParts package inner g₁ parts).tree := by
  have hpushed := hparts node.headerLength (h.push hfresh hd rfl htree hparent)
    fun i _ ↦ (hfresh.concat i).append (fresh_concat_singleton address d.bare i)
  rw [SyntaxNode.sites_eq, hbare, hcontents, hinner]
  rwa [List.append_assoc] at hpushed

end Walk

mutual

theorem sited_growPart (package : String) {sites : List Site} {g : Growth} {scope : Scope}
    {inBody : Bool} {address : List Nat} (part : Part)
    (h : Arrived sites g scope inBody address) (hfresh : Fresh sites address) :
    Sited (sites ++ (SyntaxNode.part part).sites inBody address)
      (growPart package scope g part).tree := by
  cases part with
  | type span name header members =>
    rw [growPart]
    exact h.sited_declared hfresh _ _ (by simp) rfl (SyntaxNode.contents_type ..) rfl rfl rfl
      fun start _ ↦ sited_growParts package start members
  | method span name header body =>
    rw [growPart]
    exact h.sited_declared hfresh _ _ (by simp) rfl (SyntaxNode.contents_method ..) rfl rfl rfl
      fun start _ ↦ sited_growParts package start body
  | field span name parts =>
    rw [growPart]
    exact h.sited_declared hfresh _ _ (by simp) rfl rfl rfl rfl rfl
      fun start _ ↦ sited_growParts package start parts
  | staticInitializer span parts =>
    rw [growPart]
    exact h.sited_declared hfresh _ _ (by simp) rfl rfl rfl rfl rfl
      fun start _ ↦ sited_growParts package start parts
  | block span parts =>
    rw [growPart, h.isBody_eq]
    cases inBody with
    | true =>
      exact h.sited_declared hfresh _ _ (by simp) rfl rfl rfl rfl rfl
        fun start _ ↦ sited_growParts package start parts
    | false =>
      rw [SyntaxNode.sites_eq]
      exact sited_growParts package 0 parts h fun i _ ↦ hfresh.concat i
  | host arguments body members =>
    have hfirst := sited_growParts package 0 arguments h fun i _ ↦ hfresh.concat i
    have hbelow : ∀ s ∈ sitesFrom inBody address 0 (arguments.map .part),
        ∃ i, i < arguments.length ∧ address ++ [i] <+: s.address := by
      intro s hs
      obtain ⟨i, -, hlt, hs'⟩ := exists_child_of_mem_sitesFrom hs
      rw [Nat.zero_add, List.length_map] at hlt
      exact ⟨i, hlt, hs'⟩
    have harrived := h.after hfirst fun s hs ↦ (hbelow s hs).imp fun _ ↦ And.right
    have hfresh' : Fresh (sites ++ sitesFrom inBody address 0 (arguments.map .part))
        (address ++ [arguments.length]) := by
      refine (hfresh.concat _).append fun s hs hbody ↦ ?_
      obtain ⟨i, hlt, hi⟩ := hbelow s hs
      exact hlt.ne (child_eq_of_below hi hbody)
    rw [growPart, SyntaxNode.sites_host, ← List.append_assoc]
    exact (harrived.concat hfresh').sited_declared hfresh' (.classBody body members) (.body _)
      (by simp) rfl rfl rfl (Growth.tree_pushAnonymous _ scope body) rfl
      fun start _ ↦ sited_growParts package start members
  | other parts =>
    rw [growPart, SyntaxNode.sites_eq]
    exact sited_growParts package 0 parts h fun i _ ↦ hfresh.concat i

theorem sited_growParts (package : String) {sites : List Site} {g : Growth} {scope : Scope}
    {inBody : Bool} {address : List Nat} (start : Nat) (parts : List Part)
    (h : Arrived sites g scope inBody address)
    (hfresh : ∀ i, start ≤ i → Fresh sites (address ++ [i])) :
    Sited (sites ++ sitesFrom inBody address start (parts.map .part))
      (growParts package scope g parts).tree := by
  cases parts with
  | nil =>
    rw [growParts, List.map_nil, sitesFrom, List.append_nil]
    exact h.sited
  | cons part rest =>
    have hstart := hfresh start le_rfl
    have hfirst := sited_growPart package part (h.concat hstart) hstart
    have hbelow : ∀ s ∈ (SyntaxNode.part part).sites inBody (address ++ [start]),
        address ++ [start] <+: s.address := fun s hs ↦ SyntaxNode.prefix_of_mem_sites hs
    have harrived := h.after hfirst fun s hs ↦ ⟨start, hbelow s hs⟩
    rw [growParts, List.map_cons, sitesFrom, ← List.append_assoc]
    exact sited_growParts package (start + 1) rest harrived fun i hi ↦
      (hfresh i (by omega)).append (fresh_concat_of_ne (by omega) hbelow)

end

/-- The nodes of an outline's declarations are its places. -/
theorem sited_declarations (outline : Outline) (size : Nat) (suggested : Option String) :
    Sited outline.sites (outline.declarations size suggested) := by
  have hstart : Arrived [] (.start size) {} false [] :=
    ⟨⟨DeclarationTree.rooted_empty _, rfl, by simp, by simp⟩, by simp [Nearest], rfl⟩
  exact sited_growParts _ 0 outline.parts hstart fun i _ ↦ by simp [Fresh]

/-- The address of the place that a node comes from. -/
def Outline.addressOf (outline : Outline) (id : Nat) : List Nat :=
  ((outline.sites[id - 1]?).map Site.address).getD []

theorem Outline.addressOf_succ {outline : Outline} {i : Nat} {s : Site}
    (hi : outline.sites[i]? = some s) : outline.addressOf (i + 1) = s.address := by
  simp [addressOf, hi]

namespace Sited

variable {outline : Outline} {t : DeclarationTree} (h : Sited outline.sites t)
include h

/-- What a node declares is declared at its address. -/
theorem bare_declaration {id : Nat} (hpos : 0 < id) (hid : id < t.size) :
    (t.declaration? id).map Declaration.bare = outline.declaredAt? (outline.addressOf id) := by
  obtain ⟨i, s, rfl, hi⟩ := h.exists_site hpos hid
  rw [h.bare_eq i s hi, Outline.addressOf_succ hi,
    Outline.mem_sites_iff.1 (List.mem_of_getElem? hi)]

theorem addressOf_lt_addressOf {x y : Nat} (hpos : 0 < x) (hlt : x < y) (hy : y < t.size) :
    outline.addressOf x < outline.addressOf y := by
  obtain ⟨i, s, rfl, hi⟩ := h.exists_site hpos (hlt.trans hy)
  obtain ⟨j, s', rfl, hj⟩ := h.exists_site (hpos.trans hlt) hy
  rw [Outline.addressOf_succ hi, Outline.addressOf_succ hj]
  obtain ⟨hilt, rfl⟩ := List.getElem?_eq_some_iff.1 hi
  obtain ⟨hjlt, rfl⟩ := List.getElem?_eq_some_iff.1 hj
  exact List.pairwise_iff_getElem.1 outline.pairwise_sites i j hilt hjlt (by omega)

theorem addressOf_lt_iff {x y : Nat} (hx : 0 < x) (hxt : x < t.size) (hy : 0 < y)
    (hyt : y < t.size) : x < y ↔ outline.addressOf x < outline.addressOf y := by
  refine ⟨fun hlt ↦ h.addressOf_lt_addressOf hx hlt hyt, fun hlt ↦ ?_⟩
  rcases Nat.lt_trichotomy x y with hxy | rfl | hyx
  · exact hxy
  · exact absurd hlt (List.lt_irrefl _)
  · exact absurd hlt (List.lt_asymm (h.addressOf_lt_addressOf hy hyx hxt))

theorem mem_chain_iff_above {x y : Nat} (hx : 0 < x) (hxt : x < t.size) (hy : 0 < y)
    (hyt : y < t.size) : x ∈ t.chain y ↔ outline.addressOf x <+: outline.addressOf y := by
  obtain ⟨i, s, rfl, hi⟩ := h.exists_site hx hxt
  obtain ⟨j, s', rfl, hj⟩ := h.exists_site hy hyt
  rw [Outline.addressOf_succ hi, Outline.addressOf_succ hj]
  exact h.mem_chain_iff i j s s' hi hj

theorem addressOf_inj {x y : Nat} (hx : 0 < x) (hxt : x < t.size) (hy : 0 < y) (hyt : y < t.size)
    (heq : outline.addressOf x = outline.addressOf y) : x = y := by
  have hirrefl : ¬outline.addressOf x < outline.addressOf y := heq ▸ List.lt_irrefl _
  have hirrefl' : ¬outline.addressOf y < outline.addressOf x := heq ▸ List.lt_irrefl _
  rw [← h.addressOf_lt_iff hx hxt hy hyt] at hirrefl
  rw [← h.addressOf_lt_iff hy hyt hx hxt] at hirrefl'
  omega

theorem addressOf_bijOn : Set.BijOn outline.addressOf {id | 0 < id ∧ id < t.size}
    {address | (outline.declaredAt? address).isSome} := by
  refine ⟨?_, fun x ⟨hx, hxt⟩ y ⟨hy, hyt⟩ ↦ h.addressOf_inj hx hxt hy hyt, ?_⟩
  · rintro id ⟨hpos, hid⟩
    obtain ⟨node, hnode⟩ := DeclarationTree.exists_node?_of_lt hid
    rw [Set.mem_ofPred_eq, ← h.bare_declaration hpos hid]
    simp [DeclarationTree.declaration?_eq_of_node? hnode]
  · intro address haddress
    obtain ⟨d, hd⟩ := Option.isSome_iff_exists.1 haddress
    obtain ⟨i, hi⟩ := List.mem_iff_getElem?.1 (Outline.mem_sites_iff (s := ⟨address, d⟩) |>.2 hd)
    exact ⟨i + 1, ⟨Nat.zero_lt_succ i, h.lt_size hi⟩, Outline.addressOf_succ hi⟩

end Sited

/-- The declarations of an outline are its places that declare something, each once: a declaration
lies in another exactly when its place does, and they are numbered in the order of the text. -/
theorem declarations_correspond_to_places (outline : Outline) (size : Nat)
    (suggested : Option String) :
    let t := outline.declarations size suggested
    ∃ place : Nat → List Nat,
      Set.BijOn place {id | 0 < id ∧ id < t.size} {address | (outline.declaredAt? address).isSome} ∧
      (∀ id, 0 < id → id < t.size →
        (t.declaration? id).map Declaration.bare = outline.declaredAt? (place id)) ∧
      ∀ x y, 0 < x → x < t.size → 0 < y → y < t.size →
        (x ∈ (t.chain y).tail ↔ place x <+: place y ∧ place x ≠ place y) ∧
          (x < y ↔ place x < place y) := by
  intro t
  have h := sited_declarations outline size suggested
  refine ⟨outline.addressOf, h.addressOf_bijOn, fun id ↦ h.bare_declaration, ?_⟩
  intro x y hx hxt hy hyt
  refine ⟨?_, h.addressOf_lt_iff hx hxt hy hyt⟩
  have hne : x ≠ y ↔ outline.addressOf x ≠ outline.addressOf y :=
    not_congr ⟨congrArg _, h.addressOf_inj hx hxt hy hyt⟩
  rw [h.mem_tail_chain_iff, h.mem_chain_iff_above hx hxt hy hyt, hne]

end BinaryNames.Java
