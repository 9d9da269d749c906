import Liblstopo.Basic

/-!
# The topology tree as the distance code walks it

An object carries its type, `os_index` and `cpuset`, and its children, the list that
`first_child` starts and `next_sibling` links. `hwloc_find_obj_by_type_and_os_index`
(distances.c, lines 81–94) searches the tree depth first, the object itself before its
children and each child's subtree before the next sibling.

- `hwlocFindObjByTypeAndOsIndex_eq`: the search returns the first match of the preorder
  listing `preorder`;
- `hwlocFindObjByTypeAndOsIndex_eq_none`: it fails iff no object of the tree matches.
-/

namespace Liblstopo

/-- A topology object: `type`, `os_index`, `cpuset`, and the children reached through
`first_child` and `next_sibling`. -/
structure TopoObj (τ : Type) where
  type : τ
  osIndex : Nat
  cpuset : Cpuset
  children : List (TopoObj τ)

variable {τ : Type} [DecidableEq τ]

/-- Whether an object has the given type and OS index (line 84). -/
def TopoObj.Matches (type : τ) (osIndex : Nat) (o : TopoObj τ) : Bool :=
  o.type = type ∧ o.osIndex = osIndex

mutual
/-- `hwloc_find_obj_by_type_and_os_index(root, type, os_index)`; `none` is NULL. -/
def hwlocFindObjByTypeAndOsIndex (type : τ) (osIndex : Nat) : TopoObj τ → Option (TopoObj τ)
  | ⟨ty, oi, cs, children⟩ =>
    if ty = type ∧ oi = osIndex then some ⟨ty, oi, cs, children⟩
    else findAmongChildren type osIndex children
/-- The `while (child)` loop of lines 87–92 over a sibling list. -/
def findAmongChildren (type : τ) (osIndex : Nat) : List (TopoObj τ) → Option (TopoObj τ)
  | [] => none
  | c :: cs =>
    match hwlocFindObjByTypeAndOsIndex type osIndex c with
    | some found => some found
    | none => findAmongChildren type osIndex cs
end

mutual
/-- The objects of a tree in depth-first preorder. -/
def preorder : TopoObj τ → List (TopoObj τ)
  | ⟨ty, oi, cs, children⟩ => ⟨ty, oi, cs, children⟩ :: preorderList children
/-- The preorders of sibling subtrees, one after the other. -/
def preorderList : List (TopoObj τ) → List (TopoObj τ)
  | [] => []
  | c :: cs => preorder c ++ preorderList cs
end

mutual
/-- The search returns the first matching object in preorder. -/
theorem hwlocFindObjByTypeAndOsIndex_eq (type : τ) (osIndex : Nat) :
    ∀ o : TopoObj τ, hwlocFindObjByTypeAndOsIndex type osIndex o =
      (preorder o).find? (TopoObj.Matches type osIndex)
  | ⟨ty, oi, cs, children⟩ => by
    rw [hwlocFindObjByTypeAndOsIndex, preorder]
    split
    · next h => exact (List.find?_cons_of_pos _ (by simpa [TopoObj.Matches] using h)).symm
    · next h =>
      rw [List.find?_cons_of_neg _ (by simpa [TopoObj.Matches] using h)]
      exact findAmongChildren_eq type osIndex children
theorem findAmongChildren_eq (type : τ) (osIndex : Nat) :
    ∀ cs : List (TopoObj τ), findAmongChildren type osIndex cs =
      (preorderList cs).find? (TopoObj.Matches type osIndex)
  | [] => rfl
  | c :: cs => by
    rw [findAmongChildren, preorderList, List.find?_append,
      ← hwlocFindObjByTypeAndOsIndex_eq type osIndex c, ← findAmongChildren_eq type osIndex cs]
    cases hwlocFindObjByTypeAndOsIndex type osIndex c <;> rfl
end

theorem hwlocFindObjByTypeAndOsIndex_eq_none (type : τ) (osIndex : Nat) (root : TopoObj τ) :
    hwlocFindObjByTypeAndOsIndex type osIndex root = none ↔
      ∀ o ∈ preorder root, ¬ (o.type = type ∧ o.osIndex = osIndex) := by
  simp [hwlocFindObjByTypeAndOsIndex_eq, TopoObj.Matches]

theorem hwlocFindObjByTypeAndOsIndex_some {type : τ} {osIndex : Nat} {root o : TopoObj τ}
    (h : hwlocFindObjByTypeAndOsIndex type osIndex root = some o) :
    o.type = type ∧ o.osIndex = osIndex ∧ o ∈ preorder root := by
  rw [hwlocFindObjByTypeAndOsIndex_eq] at h
  have hm := List.find?_some h
  simp only [TopoObj.Matches, Bool.decide_and, Bool.and_eq_true, decide_eq_true_eq] at hm
  exact ⟨hm.1, hm.2, List.mem_of_find?_eq_some h⟩

end Liblstopo
