import BinaryNames.Proofs.Naming.TopLevel

/-!
# The Suggested Package

The place of a source may suggest a package, and a source without a package declaration is taken to
be of it.  All that the suggestion does is to put the package in front of the qualified names: with
`inPackage` for this, every step of growth with the package is the step without it, moved into the
package.  Binary names follow, because the segments after the outermost type do not depend on what
stands before them.
-/

namespace BinaryNames

/-- A name in a package. -/
def packaged (package name : String) : String := package ++ "." ++ name

/-- The declaration with the package in front of its qualified name, if it has one. -/
def Declaration.inPackage (package : String) (d : Declaration) : Declaration :=
  { d with qualifiedName := d.qualifiedName.map (packaged package) }

def DeclarationNode.inPackage (package : String) (node : DeclarationNode) : DeclarationNode :=
  { node with qualifiedName := node.qualifiedName.map (packaged package) }

namespace DeclarationTree

/-- The same tree with the package in front of every qualified name. -/
def inPackage (t : DeclarationTree) (package : String) : DeclarationTree where
  nodes := t.nodes.map (·.inPackage package)
  nodes_pos := by
    rw [Array.size_map]
    exact t.nodes_pos
  child_after := by
    intro id node hnode c hc
    rw [Array.getElem?_map, Option.map_eq_some_iff] at hnode
    obtain ⟨old, hold, rfl⟩ := hnode
    rw [Array.size_map]
    exact t.child_after id old hold c hc
  parent_before := by
    intro id node hnode p hp
    rw [Array.getElem?_map, Option.map_eq_some_iff] at hnode
    obtain ⟨old, hold, rfl⟩ := hnode
    exact t.parent_before id old hold p hp

/-- A tree is known by its nodes. -/
theorem ext_node? {t t' : DeclarationTree} (h : ∀ id, t.node? id = t'.node? id) : t = t' := by
  have hnodes : t.nodes = t'.nodes := Array.ext_getElem? h
  cases t
  cases t'
  cases hnodes
  rfl

section InPackage

variable (t : DeclarationTree) (package : String)

theorem size_inPackage : (t.inPackage package).size = t.size := Array.size_map

theorem lastId_inPackage : (t.inPackage package).lastId = t.lastId := by
  rw [lastId, size_inPackage, lastId]

theorem node?_inPackage (id : Nat) :
    (t.inPackage package).node? id = (t.node? id).map (·.inPackage package) := Array.getElem?_map

theorem attachPoint_inPackage (parent : Nat) :
    (t.inPackage package).attachPoint parent = t.attachPoint parent := by
  rw [attachPoint, size_inPackage, attachPoint]

/-- A declaration in the package is pushed onto the tree in the package as it would be without. -/
theorem push_inPackage (parent : Nat) (d : Declaration) :
    (t.inPackage package).push parent (d.inPackage package) =
      (t.push parent d).inPackage package := by
  have hsize := size_inPackage t package
  apply ext_node?
  intro id
  rw [node?_inPackage]
  rcases Nat.lt_trichotomy id t.size with hlt | rfl | hgt
  · rw [node?_push_of_lt _ parent _ (hlt.trans_eq hsize.symm), node?_push_of_lt t parent d hlt,
      node?_inPackage, attachPoint_inPackage, hsize, Option.map_map, Option.map_map]
    congr 1
    funext node
    dsimp only [Function.comp_apply]
    split <;> rfl
  · have hnew := node?_push_size (t.inPackage package) parent (d.inPackage package)
    rw [hsize, attachPoint_inPackage] at hnew
    rw [hnew, node?_push_size]
    rfl
  · have hnone (u : DeclarationTree) (e : Declaration) (hu : u.size = t.size) :
        (u.push parent e).node? id = none := by
      rw [← Option.not_isSome_iff_eq_none, node?_isSome_iff, size_push]
      omega
    rw [hnone _ _ hsize, hnone _ _ rfl]
    rfl

/-- The root has no qualified name. -/
theorem inPackage_empty (size : Nat) (package : String) :
    (empty size).inPackage package = empty size := by
  apply ext_node?
  intro id
  rw [node?_inPackage]
  cases id <;> rfl

/-! ### What the package leaves alone -/

theorem declaration?_inPackage (id : Nat) :
    (t.inPackage package).declaration? id = (t.declaration? id).map (·.inPackage package) := by
  rw [declaration?, node?_inPackage, declaration?, Option.map_map, Option.map_map]
  rfl

theorem qualifiedName?_inPackage (id : Nat) :
    (t.inPackage package).qualifiedName? id = (t.qualifiedName? id).map (packaged package) := by
  rw [qualifiedName?, declaration?_inPackage, qualifiedName?]
  cases t.declaration? id <;> rfl

theorem parent?_inPackage : (t.inPackage package).parent? = t.parent? := by
  funext id
  rw [parent?, node?_inPackage, parent?]
  cases t.node? id <;> rfl

theorem isType_inPackage : (t.inPackage package).isType = t.isType := by
  funext id
  rw [isType_eq, declaration?_inPackage, isType_eq]
  cases t.declaration? id <;> rfl

theorem isAnonymousType_inPackage : (t.inPackage package).isAnonymousType = t.isAnonymousType := by
  funext id
  rw [isAnonymousType, declaration?_inPackage, isAnonymousType]
  cases t.declaration? id <;> rfl

theorem isNumbered_inPackage : (t.inPackage package).isNumbered = t.isNumbered := by
  funext id
  rw [isNumbered_eq, declaration?_inPackage, isNumbered_eq]
  cases t.declaration? id <;> rfl

theorem chain_inPackage (id : Nat) : (t.inPackage package).chain id = t.chain id := by
  induction id using Nat.strong_induction_on with
  | _ id ih =>
    cases hd : t.declaration? id with
    | none =>
      have hsize : t.size ≤ id := by
        by_contra hlt
        obtain ⟨node, hnode⟩ := exists_node?_of_lt (Nat.lt_of_not_le hlt)
        rw [declaration?_eq_of_node? hnode] at hd
        cases hd
      rw [chain_of_size_le hsize, chain_of_size_le ((size_inPackage t package).trans_le hsize)]
    | some d =>
      have hd' : (t.inPackage package).declaration? id = some (d.inPackage package) := by
        rw [declaration?_inPackage, hd, Option.map_some]
      have hparent : (t.inPackage package).parent? id = t.parent? id := by
        rw [parent?_inPackage]
      by_cases hk : d.kind = .unit
      · rw [chain_of_unit hd hk, chain_of_unit hd' hk]
      · cases hp : t.parent? id with
        | none => rw [chain_of_no_parent hd hk hp, chain_of_no_parent hd' hk (hparent.trans hp)]
        | some p =>
          rw [chain_of_parent hd hk hp, chain_of_parent hd' hk (hparent.trans hp),
            ih p (parent?_lt hp)]

theorem enclosing?_inPackage : (t.inPackage package).enclosing? = t.enclosing? := by
  funext id
  rw [enclosing?, chain_inPackage, isType_inPackage, enclosing?]

theorem typesInward_inPackage (id : Nat) :
    (t.inPackage package).typesInward id = t.typesInward id := by
  rw [typesInward, chain_inPackage, isType_inPackage, typesInward]

theorem anonymousRank_inPackage (id : Nat) :
    (t.inPackage package).anonymousRank id = t.anonymousRank id := by
  simp only [anonymousRank, isAnonymousType_inPackage, enclosing?_inPackage]

theorem localRank_inPackage (id : Nat) :
    (t.inPackage package).localRank id = t.localRank id := by
  simp only [localRank, isNumbered_inPackage, parent?_inPackage]

theorem segment_inPackage (id : Nat) :
    (t.inPackage package).segment id = t.segment id := by
  simp only [DeclarationTree.segment, declaration?_inPackage, anonymousRank_inPackage,
    localRank_inPackage]
  cases t.declaration? id <;> rfl

theorem foldl_segment_append (start name : String) (inner : List Nat) :
    inner.foldl (fun name i ↦ name ++ "$" ++ t.segment i) (start ++ name) =
      start ++ inner.foldl (fun name i ↦ name ++ "$" ++ t.segment i) name := by
  induction inner generalizing name with
  | nil => rfl
  | cons i inner ih =>
    have hassoc : start ++ name ++ "$" ++ t.segment i = start ++ (name ++ "$" ++ t.segment i) := by
      simp only [String.append_assoc]
    rw [List.foldl_cons, List.foldl_cons, hassoc, ih]

end InPackage

theorem InNamedType.inPackage {t : DeclarationTree} {id : Nat} (h : t.InNamedType id)
    (package : String) : (t.inPackage package).InNamedType id := by
  obtain ⟨top, d, hlast, hd, hk, hanonymous⟩ := h
  refine ⟨top, d.inPackage package, ?_, ?_, hk, hanonymous⟩
  · rw [chain_inPackage]
    exact hlast
  · rw [declaration?_inPackage, hd, Option.map_some]

end DeclarationTree

namespace Java

open DeclarationTree

/-! ## Growth in a package -/

namespace Growth

def inPackage (g : Growth) (package : String) : Growth :=
  { g with tree := g.tree.inPackage package }

section InPackage

variable (g : Growth) (package : String) (scope : Scope)

theorem lastId_inPackage : (g.inPackage package).lastId = g.lastId :=
  g.tree.lastId_inPackage package

theorem enclosingName?_inPackage : (g.inPackage package).enclosingName? scope =
    (g.enclosingName? scope).map (packaged package) := by
  unfold enclosingName?
  cases scope.enclosing with
  | none => rfl
  | some e =>
    rw [Option.bind_some, Option.bind_some, inPackage, node?_inPackage]
    cases g.tree.node? e <;> rfl

variable {package} in
/-- A type without a named type around it gets the package, and the others inherit it. -/
theorem qualifiedName_inPackage (hpackage : package ≠ "") (name : String) :
    (g.inPackage package).qualifiedName package scope name =
      packaged package (g.qualifiedName "" scope name) := by
  unfold qualifiedName
  rw [enclosingName?_inPackage]
  cases g.enclosingName? scope with
  | none => simp only [Option.map_none, if_neg hpackage, if_pos, packaged]
  | some outer => simp only [Option.map_some, packaged, String.append_assoc]

theorem push_inPackage (d : Declaration) : (g.inPackage package).push scope (d.inPackage package) =
    (g.push scope d).inPackage package := by
  unfold push inPackage
  rw [g.tree.push_inPackage package]

theorem countAnonymous_inPackage : (g.inPackage package).countAnonymous scope =
    (g.countAnonymous scope).inPackage package := by
  unfold countAnonymous
  cases scope.enclosing <;> rfl

theorem anonymousName?_inPackage : (g.inPackage package).anonymousName? scope =
    (g.anonymousName? scope).map (packaged package) := by
  unfold anonymousName?
  cases scope.enclosing with
  | none => rfl
  | some e =>
    dsimp only
    rw [enclosingName?_inPackage, Option.map_map, Option.map_map]
    congr 1
    funext outer
    simp only [Function.comp_apply, packaged, String.append_assoc]
    rfl

variable {package} in
theorem pushType_inPackage (hpackage : package ≠ "") (span : Span) (name : String) :
    (g.inPackage package).pushType package scope span name =
      (g.pushType "" scope span name).inPackage package := by
  unfold pushType
  rw [qualifiedName_inPackage g scope hpackage, ← push_inPackage]
  rfl

theorem pushAnonymous_inPackage (body : Span) : (g.inPackage package).pushAnonymous scope body =
    (g.pushAnonymous scope body).inPackage package := by
  unfold pushAnonymous
  dsimp only
  rw [countAnonymous_inPackage, anonymousName?_inPackage, ← push_inPackage]
  rfl

theorem push_code_inPackage {d : Declaration} (hd : d.qualifiedName = none) :
    (g.inPackage package).push scope d = (g.push scope d).inPackage package := by
  have hsame : d.inPackage package = d := by
    rw [Declaration.inPackage, hd, Option.map_none, ← hd]
  rw [← push_inPackage, hsame]

end InPackage

end Growth

mutual

theorem growPart_inPackage {package : String} (hpackage : package ≠ "") (scope : Scope) (g : Growth)
    (part : Part) : growPart package scope (g.inPackage package) part =
      (growPart "" scope g part).inPackage package := by
  cases part with
  | type span name header members =>
    rw [growPart, growPart, g.pushType_inPackage scope hpackage, Growth.lastId_inPackage]
    exact growParts_inPackage hpackage _ _ members
  | method span name header body =>
    rw [growPart, growPart, g.push_code_inPackage package scope rfl, Growth.lastId_inPackage]
    exact growParts_inPackage hpackage _ _ body
  | field span name parts =>
    rw [growPart, growPart, g.push_code_inPackage package scope rfl, Growth.lastId_inPackage]
    exact growParts_inPackage hpackage _ _ parts
  | staticInitializer span parts =>
    rw [growPart, growPart, g.push_code_inPackage package scope rfl, Growth.lastId_inPackage]
    exact growParts_inPackage hpackage _ _ parts
  | block span parts =>
    rw [growPart, growPart]
    split
    · dsimp only
      rw [g.push_code_inPackage package scope rfl, Growth.lastId_inPackage]
      exact growParts_inPackage hpackage _ _ parts
    · exact growParts_inPackage hpackage _ _ parts
  | host arguments body members =>
    rw [growPart, growPart, growParts_inPackage hpackage scope g arguments,
      Growth.pushAnonymous_inPackage, Growth.lastId_inPackage]
    exact growParts_inPackage hpackage _ _ members
  | other parts =>
    rw [growPart, growPart]
    exact growParts_inPackage hpackage _ _ parts

theorem growParts_inPackage {package : String} (hpackage : package ≠ "") (scope : Scope)
    (g : Growth) (parts : List Part) : growParts package scope (g.inPackage package) parts =
      (growParts "" scope g parts).inPackage package := by
  cases parts with
  | nil => rw [growParts, growParts]
  | cons part rest =>
    rw [growParts, growParts, growPart_inPackage hpackage scope g part]
    exact growParts_inPackage hpackage scope _ rest

end

/-- A source that declares no package has the tree that it would have without a suggestion, in the
suggested package. -/
theorem Outline.declarations_suggested {outline : Outline} (h : outline.package = none)
    {package : String} (hpackage : package ≠ "") (size : Nat) :
    outline.declarations size (some package) =
      (outline.declarations size none).inPackage package := by
  have hnames : outline.packageName (some package) = package ∧ outline.packageName none = "" := by
    simp [packageName, h]
  have hstart : (Growth.start size).inPackage package = .start size := by
    rw [Growth.inPackage, Growth.start, inPackage_empty]
  unfold Outline.declarations
  rw [hnames.1, hnames.2]
  show (growParts package {} (.start size) outline.parts).tree =
    ((growParts "" {} (.start size) outline.parts).inPackage package).tree
  rw [← growParts_inPackage hpackage, hstart]

/-! ## Names in a package -/

/-- The name of what lies in a named type is the one without the package, in the package. -/
theorem WellNamed.placedName_inPackage {t : DeclarationTree} {own : String} (h : WellNamed own t)
    {id : Nat} (hin : t.InNamedType id) (package : String) :
    (t.inPackage package).placedName id = packaged package (t.placedName id) := by
  obtain ⟨top, d, hlast, hd, hk, hanonymous⟩ := hin
  have htype : t.isType top = true := by simp [isType_eq, hd, hk]
  obtain ⟨inner, hinner⟩ := typesInward_of_getLast? hlast htype
  obtain ⟨name, -, -, hqualified⟩ :=
    h.top_of_child_root (h.parent?_of_getLast? hlast) hd hk hanonymous
  have htop : t.qualifiedName? top = some (TypeName.qualified ⟨own, name⟩) := by
    rw [qualifiedName?, hd, Option.bind_some, hqualified]
  simp only [placedName, typesInward_inPackage, hinner, qualifiedName?_inPackage, htop,
    Option.map_some, Option.getD_some, segment_inPackage, packaged]
  exact foldl_segment_append t (package ++ ".") _ inner

/-- Where a source declares its package, a suggestion changes nothing.  Where it declares none, the
suggested package stands in front of every qualified name and of the binary name of whatever lies in
a named type, and nothing else changes. -/
theorem suggestion_transparent (outline : Outline) (size : Nat) :
    (outline.package ≠ none → ∀ suggested suggested',
      outline.declarations size suggested = outline.declarations size suggested') ∧
    (outline.package = none → ∀ package, package ≠ "" →
      outline.declarations size (some package) =
          (outline.declarations size none).inPackage package ∧
        ∀ id, (outline.declarations size none).InNamedType id →
          let t := outline.declarations size none
          let t' := outline.declarations size (some package)
          t'.binaryName ⟨id, t'.chain id⟩ =
            package ++ "." ++ t.binaryName ⟨id, t.chain id⟩) := by
  refine ⟨fun hdeclared ↦ outline.declarations_of_package hdeclared size, ?_⟩
  intro hnone package hpackage
  refine ⟨outline.declarations_suggested hnone hpackage size, ?_⟩
  intro id hin t t'
  have htree : t' = t.inPackage package := outline.declarations_suggested hnone hpackage size
  have hnamed : WellNamed (outline.packageName none) t := wellNamed_declarations ..
  have hnamed' : WellNamed (outline.packageName (some package)) t' := wellNamed_declarations ..
  have hin' : t'.InNamedType id := by
    rw [htree]
    exact hin.inPackage package
  calc
    t'.binaryName ⟨id, t'.chain id⟩ = t'.placedName id := hnamed'.binaryName_chain hin'
    _ = (t.inPackage package).placedName id := by rw [htree]
    _ = packaged package (t.placedName id) := hnamed.placedName_inPackage hin package
    _ = packaged package (t.binaryName ⟨id, t.chain id⟩) := by rw [hnamed.binaryName_chain hin]

/-- `A` with a method `m` in which a local `A` has the field `f`, whose value is an anonymous
class. -/
def unpackagedOutline : Outline where
  package := none
  parts := [.type ⟨0, 60⟩ "A" [] [.method ⟨10, 48⟩ "m" []
    [.type ⟨20, 30⟩ "A" [] [.field ⟨30, 10⟩ "f" [.host [] ⟨36, 2⟩ []]]]]]

/-- A package that reads like the names after it. -/
theorem suggestion_transparent_unpackagedOutline :
    unpackagedOutline.package = none ∧ (unpackagedOutline.declarations 60 none).InNamedType 5 ∧
      (unpackagedOutline.declarations 60 (some "A$A.1A")).binaryName
        ⟨5, (unpackagedOutline.declarations 60 (some "A$A.1A")).chain 5⟩ = "A$A.1A.A$1A$1" := by
  have hchain : (unpackagedOutline.declarations 60 none).chain 5 = [5, 4, 3, 2, 1] := by cbv
  have htop : (unpackagedOutline.declarations 60 none).declaration? 1 = some
      { kind := .type, span := ⟨0, 60⟩, qualifiedName := some "A", simpleName := some "A" } := by
    cbv
  have hin : (unpackagedOutline.declarations 60 none).InNamedType 5 :=
    ⟨1, _, by rw [hchain]; rfl, htop, rfl, rfl⟩
  have hname : (unpackagedOutline.declarations 60 none).binaryName ⟨5, [5, 4, 3, 2, 1]⟩ =
      "A$1A$1" := by cbv
  refine ⟨rfl, hin, ?_⟩
  obtain ⟨-, hbinary⟩ := (suggestion_transparent unpackagedOutline 60).2 rfl "A$A.1A" (by decide)
  rw [hbinary 5 hin, hchain, hname]
  rfl

end Java

end BinaryNames
