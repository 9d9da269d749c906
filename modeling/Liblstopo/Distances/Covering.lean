import Liblstopo.Distances.Normalize

/-!
# The covering object and the levels of the tree

`hwloc_setup_distances_from_os_matrix` (distances.c, lines 253–272) gives the record to the
object `hwloc_get_obj_covering_cpuset` returns for the union of the objects' cpusets, and
gives up unless that object's cpuset is exactly the union. It then takes
`objs[0]->depth - root->depth` as the relative depth, "assuming that we have distances
between objects of the same level", and writes cell `(li, lj)` of an `nbobjs × nbobjs`
matrix, `li` and `lj` the logical indexes less the least one.

`TreeLevels` states what the rest of hwloc guarantees of the tree and of its levels:
cpusets nest, objects of one depth have disjoint cpusets, a logical index is the rank of
the object in its level, and the covering lookup returns the deepest object whose cpuset
includes the set.

- `atDepth`: the objects at a depth, left to right;
- `TreeLevels.setup_root_ancestor`, `TreeLevels.setup_latency_cells`: when at least two
  inputs are given and every object of their level covers a processing unit, the check is
  enough: the covering object is an ancestor of every input, the relative depth does not
  wrap, the logical indexes are consecutive and every write stays in the matrix;
- `TreeLevels.setup_single_below`: a single input with a descendant of its cpuset gets a
  record owned by that descendant, below it, with a wrapped relative depth;
- `covering_check_passes_off_level`: these guarantees do not make the equality check
  enough. An object without processing units between two inputs of a level leaves a gap
  in their logical indexes, so an offset reaches `nbobjs` and the writes leave the
  matrix. A single input whose child has its cpuset gets that child as covering object,
  below the input, and the relative depth wraps.
-/

namespace Liblstopo

variable {τ : Type}

/-! ## The levels of a tree -/

mutual
/-- The objects `d` levels below an object, left to right: for the root, the level of
depth `d`. -/
def atDepth : Nat → TopoObj τ → List (TopoObj τ)
  | 0, o => [o]
  | d + 1, ⟨_, _, _, children⟩ => atDepthChildren d children
/-- The objects `d` levels below each of a list of siblings, one after the other. -/
def atDepthChildren : Nat → List (TopoObj τ) → List (TopoObj τ)
  | _, [] => []
  | d, c :: cs => atDepth d c ++ atDepthChildren d cs
end

/-- What `topology.c` and `hwloc_get_obj_covering_cpuset` guarantee of the tree of root
`top` and of `levels`: an object's cpuset includes its children's; objects at one depth
have pairwise disjoint cpusets; `depth` is the depth in the tree and `logical_index` the
rank in the level, left to right; and the covering lookup returns an object of the tree
whose cpuset includes the set, and none deeper includes it. -/
structure TreeLevels (top : TopoObj τ) (levels : Levels τ) : Prop where
  cpuset_children : ∀ o ∈ preorder top, ∀ c ∈ o.children, c.cpuset ⊆ o.cpuset
  disjoint : ∀ d, (atDepth d top).Pairwise fun a b => Disjoint a.cpuset b.cpuset
  depth_eq : ∀ d, ∀ o ∈ atDepth d top, levels.depth o = d
  logical_rank : ∀ d k (h : k < (atDepth d top).length), levels.logicalIndex (atDepth d top)[k] = k
  covering : ∀ s o, levels.getObjCoveringCpuset s = some o →
    o ∈ preorder top ∧ s ⊆ o.cpuset ∧
      ∀ o' ∈ preorder top, s ⊆ o'.cpuset → levels.depth o' ≤ levels.depth o

/-! ## Levels and subtrees -/

theorem atDepthChildren_eq (d : Nat) :
    ∀ cs : List (TopoObj τ), atDepthChildren d cs = cs.flatMap (atDepth d)
  | [] => rfl
  | c :: cs => by rw [atDepthChildren, atDepthChildren_eq d cs, List.flatMap_cons]

@[simp] theorem atDepth_zero (o : TopoObj τ) : atDepth 0 o = [o] := by rw [atDepth]

theorem atDepth_succ (d : Nat) (o : TopoObj τ) :
    atDepth (d + 1) o = o.children.flatMap (atDepth d) := by
  cases o; rw [atDepth, atDepthChildren_eq]

theorem atDepth_one (o : TopoObj τ) : atDepth 1 o = o.children := by
  rw [atDepth_succ, show (atDepth 0 : TopoObj τ → List (TopoObj τ)) = fun x => [x] from
    funext atDepth_zero, List.flatMap_singleton']

theorem atDepth_add (k : Nat) :
    ∀ a (o : TopoObj τ), atDepth (a + k) o = (atDepth a o).flatMap (atDepth k)
  | 0, o => by simp
  | a + 1, o => by
    rw [Nat.add_right_comm, atDepth_succ, atDepth_succ, List.flatMap_assoc]
    exact congrArg o.children.flatMap (funext fun c => atDepth_add k a c)

theorem mem_atDepth_add {a k : Nat} {top x : TopoObj τ} :
    x ∈ atDepth (a + k) top ↔ ∃ y ∈ atDepth a top, x ∈ atDepth k y := by
  rw [atDepth_add, List.mem_flatMap]

mutual
/-- The objects of a subtree are those of its levels. -/
theorem mem_preorder_iff (o' : TopoObj τ) :
    ∀ o : TopoObj τ, o' ∈ preorder o ↔ ∃ k, o' ∈ atDepth k o
  | ⟨ty, oi, cs, children⟩ => by
    rw [preorder, List.mem_cons, mem_preorderList_iff o' children]
    constructor
    · rintro (rfl | ⟨c, hc, k, hk⟩)
      · exact ⟨0, by simp⟩
      · exact ⟨k + 1, by rw [atDepth_succ]; exact List.mem_flatMap.2 ⟨c, hc, hk⟩⟩
    · rintro ⟨_ | k, hk⟩
      · exact Or.inl (by simpa using hk)
      · rw [atDepth_succ, List.mem_flatMap] at hk
        exact Or.inr (hk.imp fun c ⟨hc, hk⟩ => ⟨hc, k, hk⟩)
theorem mem_preorderList_iff (o' : TopoObj τ) :
    ∀ cs : List (TopoObj τ), o' ∈ preorderList cs ↔ ∃ c ∈ cs, ∃ k, o' ∈ atDepth k c
  | [] => by simp [preorderList]
  | c :: cs => by
    rw [preorderList, List.mem_append, mem_preorder_iff o' c, mem_preorderList_iff o' cs]
    simp
end

theorem mem_preorder_of_mem_atDepth {top x : TopoObj τ} {d : Nat} (h : x ∈ atDepth d top) :
    x ∈ preorder top :=
  (mem_preorder_iff x top).2 ⟨d, h⟩

theorem mem_preorder_of_atDepth {top o o' : TopoObj τ} {k : Nat} (ho : o ∈ preorder top)
    (ho' : o' ∈ atDepth k o) : o' ∈ preorder top := by
  obtain ⟨j, hj⟩ := (mem_preorder_iff o top).1 ho
  exact mem_preorder_of_mem_atDepth (mem_atDepth_add.2 ⟨o, hj, ho'⟩)

/-! ## What the guarantees give -/

section Guarantees

variable {top : TopoObj τ} {levels : Levels τ}

theorem TreeLevels.cpuset_atDepth (hT : TreeLevels top levels) :
    ∀ k {o o' : TopoObj τ}, o ∈ preorder top → o' ∈ atDepth k o → o'.cpuset ⊆ o.cpuset
  | 0, o, o', _, h => by rw [atDepth_zero, List.mem_singleton] at h; rw [h]
  | k + 1, o, o', ho, h => by
    rw [atDepth_succ, List.mem_flatMap] at h
    obtain ⟨c, hc, h⟩ := h
    have hc' : c ∈ preorder top := mem_preorder_of_atDepth ho (by rwa [atDepth_one])
    exact (hT.cpuset_atDepth k hc' h).trans (hT.cpuset_children o ho c hc)

theorem TreeLevels.nodup_atDepth (hT : TreeLevels top levels) (d : Nat) : (atDepth d top).Nodup :=
  List.nodup_iff_injective_get.2 fun i j h => Fin.ext <| by
    rw [← hT.logical_rank d i i.2, ← hT.logical_rank d j j.2]
    exact congrArg levels.logicalIndex h

theorem TreeLevels.eq_of_mem_cpuset (hT : TreeLevels top levels) {d : Nat} {x y : TopoObj τ}
    {u : Nat} (hx : x ∈ atDepth d top) (hy : y ∈ atDepth d top) (hux : u ∈ x.cpuset)
    (huy : u ∈ y.cpuset) : x = y := by
  by_contra hxy
  exact Finset.disjoint_left.1 ((hT.disjoint d).forall (fun _ _ h => h.symm) hx hy hxy) hux huy

theorem TreeLevels.logicalIndex_inj (hT : TreeLevels top levels) {d : Nat} {x y : TopoObj τ}
    (hx : x ∈ atDepth d top) (hy : y ∈ atDepth d top)
    (h : levels.logicalIndex x = levels.logicalIndex y) : x = y := by
  obtain ⟨p, hp, rfl⟩ := List.mem_iff_getElem.1 hx
  obtain ⟨q, hq, rfl⟩ := List.mem_iff_getElem.1 hy
  rw [hT.logical_rank d p hp, hT.logical_rank d q hq] at h
  subst h; rfl

/-- The objects of a stretch `B` of a level have the logical indexes of its positions. -/
theorem TreeLevels.logicalIndex_block (hT : TreeLevels top levels) {d : Nat}
    {A B C : List (TopoObj τ)} (hL : atDepth d top = A ++ B ++ C) {x : TopoObj τ} (hx : x ∈ B) :
    A.length ≤ levels.logicalIndex x ∧ levels.logicalIndex x < A.length + B.length := by
  obtain ⟨q, hq, rfl⟩ := List.mem_iff_getElem.1 hx
  have hlt : A.length + q < (atDepth d top).length := by rw [hL]; simp; omega
  have hget : (atDepth d top)[A.length + q] = B[q] := by
    simp only [List.getElem_of_eq hL, List.getElem_append_left (show A.length + q < (A ++ B).length by
      simp; omega), List.getElem_append_right (Nat.le_add_right _ _), Nat.add_sub_cancel_left]
  have h := hT.logical_rank d (A.length + q) hlt
  rw [hget] at h
  omega

/-- An object of level `d` that shares a processing unit with an object of level `d + k`
is its ancestor. -/
theorem TreeLevels.mem_atDepth_of_mem_cpuset (hT : TreeLevels top levels) {d k : Nat}
    {x y : TopoObj τ} {u : Nat} (hx : x ∈ atDepth d top) (hy : y ∈ atDepth (d + k) top)
    (hux : u ∈ x.cpuset) (huy : u ∈ y.cpuset) : y ∈ atDepth k x := by
  obtain ⟨b, hb, hyb⟩ := mem_atDepth_add.1 hy
  rwa [hT.eq_of_mem_cpuset hx hb hux (hT.cpuset_atDepth k (mem_preorder_of_mem_atDepth hb) hyb huy)]

section Cover

variable (hT : TreeLevels top levels) {e : Nat} {root : TopoObj τ} {objs : List (TopoObj τ)}
  (he : root ∈ atDepth e top)
include hT he

/-- An object whose cpuset holds those of two distinct objects of level `d`, each with a
processing unit, is no deeper than `d`: deeper, both would be its one ancestor at `d`. -/
theorem TreeLevels.depth_le_of_covers {d : Nat} (hlevel : ∀ o ∈ objs, o ∈ atDepth d top)
    (hnodup : objs.Nodup) (htwo : 2 ≤ objs.length) (hne : ∀ o ∈ atDepth d top, o.cpuset.Nonempty)
    (hunits : ∀ o ∈ objs, o.cpuset ⊆ root.cpuset) : e ≤ d := by
  by_contra hlt
  obtain ⟨k, rfl⟩ : ∃ k, e = d + k := ⟨e - d, by omega⟩
  obtain ⟨b, hb, hrb⟩ := mem_atDepth_add.1 he
  have hall : ∀ o ∈ objs, o = b := fun o ho => by
    obtain ⟨u, hu⟩ := hne o (hlevel o ho)
    exact hT.eq_of_mem_cpuset (hlevel o ho) hb hu
      (hT.cpuset_atDepth k (mem_preorder_of_mem_atDepth hb) hrb (hunits o ho hu))
  have := List.nodup_replicate.1 (List.eq_replicate_iff.2 ⟨rfl, hall⟩ ▸ hnodup)
  omega

/-- When `root`'s cpuset is the union of the inputs', all of level `e + k` and each object
of that level with a processing unit, the objects `k` levels below `root` are the inputs. -/
theorem TreeLevels.mem_atDepth_iff_of_cover {k : Nat} (hlevel : ∀ o ∈ objs, o ∈ atDepth (e + k) top)
    (hne : ∀ o ∈ atDepth (e + k) top, o.cpuset.Nonempty)
    (hcheck : objsCpuset objs.length objs = root.cpuset) (x : TopoObj τ) :
    x ∈ atDepth k root ↔ x ∈ objs := by
  constructor
  · intro hx
    have hxL : x ∈ atDepth (e + k) top := mem_atDepth_add.2 ⟨root, he, hx⟩
    obtain ⟨u, hu⟩ := hne x hxL
    obtain ⟨o, ho, huo⟩ :=
      (mem_objsCpuset rfl).1 (hcheck ▸ hT.cpuset_atDepth k (mem_preorder_of_mem_atDepth he) hx hu)
    rwa [hT.eq_of_mem_cpuset hxL (hlevel o ho) hu huo]
  · intro hx
    obtain ⟨u, hu⟩ := hne x (hlevel x hx)
    exact hT.mem_atDepth_of_mem_cpuset he (hlevel x hx)
      (hcheck ▸ (mem_objsCpuset rfl).2 ⟨x, hx, hu⟩) hu

/-- Inputs that are exactly the objects `k` levels below `root` are a stretch of their
level, so their logical indexes lie in one interval of their count. -/
theorem TreeLevels.logicalIndex_interval {k : Nat} (hnodup : objs.Nodup)
    (hblock : ∀ x, x ∈ atDepth k root ↔ x ∈ objs) :
    ∃ a, ∀ i < objs.length,
      a ≤ logicalIndexAt levels objs i ∧ logicalIndexAt levels objs i < a + objs.length := by
  obtain ⟨X, Y, hXY⟩ := List.append_of_mem he
  have hL : atDepth (e + k) top =
      X.flatMap (atDepth k) ++ atDepth k root ++ Y.flatMap (atDepth k) := by
    rw [atDepth_add, hXY, List.flatMap_append, List.flatMap_cons, List.append_assoc]
  have hlen : (atDepth k root).length = objs.length := by
    have hnd := hT.nodup_atDepth (e + k)
    rw [hL] at hnd
    exact ((List.perm_ext_iff_of_nodup (List.nodup_append.1 (List.nodup_append.1 hnd).1).2.1
      hnodup).2 hblock).length_eq
  refine ⟨(X.flatMap (atDepth k)).length, fun i hi => ?_⟩
  rw [logicalIndexAt_of_lt hi, ← hlen]
  exact hT.logicalIndex_block hL ((hblock _).2 (List.getElem_mem hi))

end Cover

variable {α : Type} [LinearOrderedField α]

/-- **When every object of the inputs' level covers a processing unit, the check is
enough.** Under `TreeLevels`, for two or more distinct inputs of one depth `d` where no
object has an empty cpuset: if the normaliser appends a record to `root`, then `root` is
an ancestor of every input and no deeper than `d`, so the relative depth is
`d - depth root` without wrap. The inputs are then exactly the objects of depth `d` below
`root`, a stretch of the level, so their logical indexes are distinct and lie in
`[minl, minl + nbobjs)`. -/
theorem TreeLevels.setup_root_ancestor (hT : TreeLevels top levels) {d : Nat}
    {objs : List (TopoObj τ)} {osmatrix : List α} {root : TopoObj τ} {r : HwlocDistances α}
    (hlevel : ∀ o ∈ objs, o ∈ atDepth d top) (hnodup : objs.Nodup) (htwo : 2 ≤ objs.length)
    (hne : ∀ o ∈ atDepth d top, o.cpuset.Nonempty)
    (happ : hwlocSetupDistancesFromOsMatrix levels objs.length objs osmatrix =
      some (some (root, r))) :
    (∀ o ∈ objs, o ∈ preorder root) ∧ levels.depth root ≤ d ∧
      r.relativeDepth = d - levels.depth root ∧
      (∀ i < objs.length, ∀ j < objs.length,
        logicalIndexAt levels objs i = logicalIndexAt levels objs j → i = j) ∧
      ∀ i < objs.length,
        minLogicalIndex objs.length (logicalIndexAt levels objs) ≤ logicalIndexAt levels objs i ∧
          logicalIndexAt levels objs i <
            minLogicalIndex objs.length (logicalIndexAt levels objs) + objs.length := by
  obtain ⟨hcov, hcheck, -, rfl⟩ :=
    (hwlocSetupDistancesFromOsMatrix_eq_some levels _ objs osmatrix).1 happ
  obtain ⟨hroot, -, -⟩ := hT.covering _ _ hcov
  obtain ⟨e, he⟩ := (mem_preorder_iff root top).1 hroot
  have hed := hT.depth_le_of_covers he hlevel hnodup htwo hne fun o ho u hu =>
    hcheck ▸ (mem_objsCpuset rfl).2 ⟨o, ho, hu⟩
  obtain ⟨k, rfl⟩ : ∃ k, d = e + k := ⟨d - e, by omega⟩
  have hblock := hT.mem_atDepth_iff_of_cover he hlevel hne hcheck
  obtain ⟨a, hin⟩ := hT.logicalIndex_interval he hnodup hblock
  have hinj : ∀ i < objs.length, ∀ j < objs.length,
      logicalIndexAt levels objs i = logicalIndexAt levels objs j → i = j := fun i hi j hj h => by
    rw [logicalIndexAt_of_lt hi, logicalIndexAt_of_lt hj] at h
    exact hnodup.getElem_inj_iff.1 (hT.logicalIndex_inj (hlevel _ (List.getElem_mem hi))
      (hlevel _ (List.getElem_mem hj)) h)
  have hmin := minLogicalIndex_interval (by omega) (fun i _ => logicalIndexAt_lt levels objs i) hin
    fun i j hi hj => hinj i hi j hj
  have hdr := hT.depth_eq e root he
  refine ⟨fun o ho => (mem_preorder_iff o root).2 ⟨k, (hblock o).2 ho⟩, by omega, ?_, hinj,
    by rw [hmin]; exact hin⟩
  match objs, hlevel with
  | o0 :: _, hlevel =>
    have hd0 := hT.depth_eq _ o0 (hlevel o0 (List.mem_cons_self _ _))
    rw [distancesRecord_relativeDepth, List.getElem?_cons_zero, Option.map_some', Option.getD_some,
      hd0, u32Sub_of_le (hd0 ▸ levels.depth_lt o0) (by omega)]

/-- **So every write stays in the matrix.** Under the same conditions, when the
`nbobjs*nbobjs` cells fit in 32 bits, every cell of the record's matrix is written, cell
`(l_i − minl, l_j − minl)` with raw cell `(i, j)` over the least cell. -/
theorem TreeLevels.setup_latency_cells (hT : TreeLevels top levels) {d : Nat}
    {objs : List (TopoObj τ)} {osmatrix : List α} {root : TopoObj τ} {r : HwlocDistances α}
    (hlevel : ∀ o ∈ objs, o ∈ atDepth d top) (hnodup : objs.Nodup) (htwo : 2 ≤ objs.length)
    (hne : ∀ o ∈ atDepth d top, o.cpuset.Nonempty)
    (hfit : objs.length * objs.length < 2 ^ 32)
    (happ : hwlocSetupDistancesFromOsMatrix levels objs.length objs osmatrix =
      some (some (root, r))) :
    (∀ k < objs.length * objs.length, (r.latency.getD k none).isSome) ∧
      ∀ i < objs.length, ∀ j < objs.length,
        r.latency.getD
          ((logicalIndexAt levels objs i - minLogicalIndex objs.length (logicalIndexAt levels objs)) *
              objs.length +
            (logicalIndexAt levels objs j - minLogicalIndex objs.length (logicalIndexAt levels objs)))
          none = some (osCell objs.length osmatrix i j / r.latencyBase) := by
  obtain ⟨-, -, -, hinj, hin⟩ := hT.setup_root_ancestor hlevel hnodup htwo hne happ
  obtain ⟨-, -, -, -, h5, h6⟩ := hwlocSetupDistancesFromOsMatrix_interval levels objs.length objs
    osmatrix happ (by omega) hfit hin fun i j hi hj => hinj i hi j hj
  exact ⟨h5, fun i hi j hj => h6 i j hi hj⟩

/-- **A single input with a descendant of its cpuset gets that descendant's subtree as
owner.** Under `TreeLevels`, for one input `o` of depth `d` whose cpuset is not empty and
equals that of a descendant `c`: the covering object is at least as deep as `c`, its
cpuset is `o`'s, so the check passes and a record is appended (when the least cell is not
`0`) to an object below `o`, which is not an ancestor of `o`, and the relative depth
`d - depth root` wraps to `2^32 + d - depth root`. -/
theorem TreeLevels.setup_single_below (hT : TreeLevels top levels) {d k : Nat}
    {o c root : TopoObj τ} {osmatrix : List α} (ho : o ∈ atDepth d top)
    (hc : c ∈ atDepth (k + 1) o) (hcs : c.cpuset = o.cpuset) (hne : o.cpuset.Nonempty)
    (hcov : levels.getObjCoveringCpuset (objsCpuset 1 [o]) = some root)
    (hmin : (scanMinMax 1 osmatrix).1 ≠ 0) :
    ∃ r, hwlocSetupDistancesFromOsMatrix levels 1 [o] osmatrix = some (some (root, r)) ∧
      d < levels.depth root ∧ o ∉ preorder root ∧
      r.relativeDepth = 2 ^ 32 + d - levels.depth root := by
  have hs : objsCpuset 1 [o] = o.cpuset := Finset.ext fun u => by
    rw [mem_objsCpuset (show [o].length = 1 from rfl)]; simp
  obtain ⟨hroot, hsub, hdeep⟩ := hT.covering _ _ hcov
  obtain ⟨e, he⟩ := (mem_preorder_iff root top).1 hroot
  have hdr := hT.depth_eq e root he
  have hcL : c ∈ atDepth (d + (k + 1)) top := mem_atDepth_add.2 ⟨o, ho, hc⟩
  have hde : d < e := by
    have := hdeep c (mem_preorder_of_mem_atDepth hcL) (by rw [hs, hcs])
    rw [hT.depth_eq _ c hcL, hdr] at this
    omega
  -- the input shares the covering object's units, so it is its ancestor
  obtain ⟨u, hu⟩ := hne
  have hro : root ∈ atDepth (e - d) o := hT.mem_atDepth_of_mem_cpuset ho
    (by rwa [Nat.add_sub_cancel' hde.le]) hu (hsub (hs ▸ hu))
  have hcheck : objsCpuset 1 [o] = root.cpuset := hs.trans (subset_antisymm (hs ▸ hsub)
    (hT.cpuset_atDepth _ (mem_preorder_of_mem_atDepth ho) hro))
  refine ⟨_, (hwlocSetupDistancesFromOsMatrix_eq_some levels 1 [o] osmatrix).2
    ⟨hcov, hcheck, hmin, rfl⟩, hdr ▸ hde, fun hmem => ?_, ?_⟩
  · obtain ⟨j, hj⟩ := (mem_preorder_iff o root).1 hmem
    have := hT.depth_eq _ o (mem_atDepth_add.2 ⟨root, he, hj⟩)
    rw [hT.depth_eq d o ho] at this
    omega
  · rw [distancesRecord_relativeDepth, List.getElem?_cons_zero, Option.map_some', Option.getD_some,
      hT.depth_eq d o ho, u32Sub, hdr, Nat.mod_eq_of_lt (by have := hdr ▸ levels.depth_lt root; omega)]
    omega

end Guarantees

/-! ## Trees that meet the guarantees -/

/-- Levels where an object's type is its depth and its OS index its logical index, with
the covering lookup `cover`. -/
def typeDepthLevels (cover : Cpuset → Option (TopoObj Nat)) : Levels Nat where
  depth o := o.type % 2 ^ 32
  logicalIndex o := o.osIndex % 2 ^ 32
  getObjCoveringCpuset := cover
  depth_lt _ := Nat.mod_lt _ (by norm_num)
  logicalIndex_lt _ := Nat.mod_lt _ (by norm_num)

/-- The NUMA node of logical index `i` at depth `1`. -/
def numaNode (i : Nat) (cpuset : Cpuset) : TopoObj Nat := ⟨1, i, cpuset, []⟩

/-- A machine with processing units `0` and `1` and three NUMA nodes: node `0` holds
unit `0`, node `1` none (memory only), node `2` unit `1`. -/
def cpulessMachine : TopoObj Nat :=
  ⟨0, 0, {0, 1}, [numaNode 0 {0}, numaNode 1 ∅, numaNode 2 {1}]⟩

/-- Its covering lookup: the deepest object whose cpuset includes the set. -/
def cpulessCover (s : Cpuset) : Option (TopoObj Nat) :=
  if s ⊆ {0} then some (numaNode 0 {0}) else if s ⊆ {1} then some (numaNode 2 {1})
  else if s ⊆ {0, 1} then some cpulessMachine else none

theorem cpulessMachine_treeLevels : TreeLevels cpulessMachine (typeDepthLevels cpulessCover) where
  cpuset_children := by decide
  disjoint d := match d with | 0 | 1 => by decide | _ + 2 => .nil
  depth_eq d := match d with | 0 | 1 => by decide | _ + 2 => fun o ho => absurd ho (List.not_mem_nil o)
  logical_rank d := match d with | 0 | 1 => by decide | _ + 2 => fun k h => absurd h (Nat.not_lt_zero k)
  covering s o h := by
    have hdepth : ∀ o' ∈ preorder cpulessMachine, o'.type % 2 ^ 32 ≤ 1 := by decide
    have hpre : preorder cpulessMachine =
        [cpulessMachine, numaNode 0 {0}, numaNode 1 ∅, numaNode 2 {1}] := rfl
    simp only [typeDepthLevels, cpulessCover] at h ⊢
    split_ifs at h with h1 h2 h3 <;> cases h
    · exact ⟨by simp [hpre], h1, fun o' ho' _ => hdepth o' ho'⟩
    · exact ⟨by simp [hpre], h2, fun o' ho' _ => hdepth o' ho'⟩
    · refine ⟨by simp [hpre], h3, ?_⟩
      rw [hpre]
      simp only [List.mem_cons, List.mem_singleton, List.not_mem_nil, or_false]
      rintro o' (rfl | rfl | rfl | rfl) hs
      · exact le_rfl
      · exact absurd hs h1
      · exact absurd (hs.trans (Finset.empty_subset _)) h1
      · exact absurd hs h2

/-- A core with one processing unit, of the same cpuset, below a machine of that unit. -/
def samePuCore : TopoObj Nat := ⟨1, 0, {0}, [⟨2, 0, {0}, []⟩]⟩

/-- The machine of `samePuCore`. -/
def samePuMachine : TopoObj Nat := ⟨0, 0, {0}, [samePuCore]⟩

/-- Its covering lookup: the processing unit for every set it includes. -/
def samePuCover (s : Cpuset) : Option (TopoObj Nat) :=
  if s ⊆ {0} then some ⟨2, 0, {0}, []⟩ else none

theorem samePuMachine_treeLevels : TreeLevels samePuMachine (typeDepthLevels samePuCover) where
  cpuset_children := by decide
  disjoint d := match d with | 0 | 1 | 2 => by decide | _ + 3 => .nil
  depth_eq d := match d with
    | 0 | 1 | 2 => by decide | _ + 3 => fun o ho => absurd ho (List.not_mem_nil o)
  logical_rank d := match d with
    | 0 | 1 | 2 => by decide | _ + 3 => fun k h => absurd h (Nat.not_lt_zero k)
  covering s o h := by
    have hdepth : ∀ o' ∈ preorder samePuMachine, o'.type % 2 ^ 32 ≤ 2 := by decide
    simp only [typeDepthLevels, samePuCover] at h ⊢
    split_ifs at h with h1
    cases h
    exact ⟨List.mem_cons_of_mem _ (List.mem_cons_of_mem _ (List.mem_cons_self _ _)), h1,
      fun o' ho' _ => hdepth o' ho'⟩

/-- A machine with processing units `0` and `1`, one in each of two NUMA nodes. -/
def twoNodeMachine : TopoObj Nat := ⟨0, 0, {0, 1}, [numaNode 0 {0}, numaNode 1 {1}]⟩

/-- Its covering lookup: the deepest object whose cpuset includes the set. -/
def twoNodeCover (s : Cpuset) : Option (TopoObj Nat) :=
  if s ⊆ {0} then some (numaNode 0 {0}) else if s ⊆ {1} then some (numaNode 1 {1})
  else if s ⊆ {0, 1} then some twoNodeMachine else none

theorem twoNodeMachine_treeLevels : TreeLevels twoNodeMachine (typeDepthLevels twoNodeCover) where
  cpuset_children := by decide
  disjoint d := match d with | 0 | 1 => by decide | _ + 2 => .nil
  depth_eq d := match d with | 0 | 1 => by decide | _ + 2 => fun o ho => absurd ho (List.not_mem_nil o)
  logical_rank d := match d with | 0 | 1 => by decide | _ + 2 => fun k h => absurd h (Nat.not_lt_zero k)
  covering s o h := by
    have hdepth : ∀ o' ∈ preorder twoNodeMachine, o'.type % 2 ^ 32 ≤ 1 := by decide
    have hpre : preorder twoNodeMachine = [twoNodeMachine, numaNode 0 {0}, numaNode 1 {1}] := rfl
    simp only [typeDepthLevels, twoNodeCover] at h ⊢
    split_ifs at h with h1 h2 h3 <;> cases h
    · exact ⟨by simp [hpre], h1, fun o' ho' _ => hdepth o' ho'⟩
    · exact ⟨by simp [hpre], h2, fun o' ho' _ => hdepth o' ho'⟩
    · refine ⟨by simp [hpre], h3, ?_⟩
      rw [hpre]
      simp only [List.mem_cons, List.mem_singleton, List.not_mem_nil, or_false]
      rintro o' (rfl | rfl | rfl) hs
      · exact le_rfl
      · exact absurd hs h1
      · exact absurd hs h2

/-- The two nodes of `twoNodeMachine` as inputs: every cell of their matrix is written. -/
theorem two_nodes_fill_matrix :
    TreeLevels twoNodeMachine (typeDepthLevels twoNodeCover) ∧
      (∀ o ∈ [numaNode 0 {0}, numaNode 1 {1}], o ∈ atDepth 1 twoNodeMachine) ∧
      (∀ o ∈ atDepth 1 twoNodeMachine, o.cpuset.Nonempty) ∧
      ∃ r, hwlocSetupDistancesFromOsMatrix (typeDepthLevels twoNodeCover) 2
          [numaNode 0 {0}, numaNode 1 {1}] ([1, 2, 2, 1] : List ℚ) = some (some (twoNodeMachine, r)) ∧
        ∀ k < 2 * 2, (r.latency.getD k none).isSome := by
  have hlevel : atDepth 1 twoNodeMachine = [numaNode 0 {0}, numaNode 1 {1}] := rfl
  have hin : ∀ o ∈ [numaNode 0 {0}, numaNode 1 {1}], o ∈ atDepth 1 twoNodeMachine :=
    fun o ho => hlevel ▸ ho
  have hne : ∀ o ∈ atDepth 1 twoNodeMachine, o.cpuset.Nonempty := by
    rw [hlevel]; simp [numaNode]
  have hscan : (scanMinMax 2 ([1, 2, 2, 1] : List ℚ)).1 = 1 :=
    scanMinMax_fst_of_least (by norm_num) (by decide) ⟨0, by decide, 0, by decide, rfl⟩ (by decide)
  have hcover : twoNodeCover (objsCpuset 2 [numaNode 0 {0}, numaNode 1 {1}]) = some twoNodeMachine := by
    rw [twoNodeCover, if_neg (by decide), if_neg (by decide), if_pos (by decide)]
  obtain ⟨r, happ⟩ : ∃ r, hwlocSetupDistancesFromOsMatrix (typeDepthLevels twoNodeCover) 2
      [numaNode 0 {0}, numaNode 1 {1}] ([1, 2, 2, 1] : List ℚ) = some (some (twoNodeMachine, r)) :=
    ⟨_, (hwlocSetupDistancesFromOsMatrix_eq_some _ _ _ _).2
      ⟨hcover, by decide, by rw [hscan]; exact one_ne_zero, rfl⟩⟩
  exact ⟨twoNodeMachine_treeLevels, hin, hne, r, happ,
    (twoNodeMachine_treeLevels.setup_latency_cells hin (by simp [numaNode]) le_rfl hne
      (by norm_num) happ).1⟩

/-- **The equality check lets through inputs off one subtree's level.** Both trees meet
`TreeLevels`. On the first, NUMA nodes `0` and `2` are distinct inputs at depth `1`, and
the covering object of their union is the machine, whose cpuset is that union: a record
is appended, but the second node's offset is `2`, not below `nbobjs = 2`, so its writes
land at indexes `4` and `6` of a four-cell matrix and cell `(1, 1)` is never written. On
the second, the core alone is covered by its processing unit, below it: the record goes
to the unit, which is not an ancestor of the core, and the relative depth `1 - 2` wraps to
`2^32 - 1`. -/
theorem covering_check_passes_off_level :
    (TreeLevels cpulessMachine (typeDepthLevels cpulessCover) ∧
      [numaNode 0 {0}, numaNode 2 {1}] = [(atDepth 1 cpulessMachine)[0], (atDepth 1 cpulessMachine)[2]] ∧
      ∃ r, hwlocSetupDistancesFromOsMatrix (typeDepthLevels cpulessCover) 2
          [numaNode 0 {0}, numaNode 2 {1}] ([1, 2, 2, 1] : List ℚ) = some (some (cpulessMachine, r)) ∧
        u32Sub (logicalIndexAt (typeDepthLevels cpulessCover) [numaNode 0 {0}, numaNode 2 {1}] 1)
          (minLogicalIndex 2 (logicalIndexAt (typeDepthLevels cpulessCover)
            [numaNode 0 {0}, numaNode 2 {1}])) = 2 ∧
        r.latency.getD 3 none = none) ∧
    (TreeLevels samePuMachine (typeDepthLevels samePuCover) ∧
      [samePuCore] = [(atDepth 1 samePuMachine)[0]] ∧
      ∃ root r, hwlocSetupDistancesFromOsMatrix (typeDepthLevels samePuCover) 1 [samePuCore]
          ([1] : List ℚ) = some (some (root, r)) ∧
        samePuCore ∉ preorder root ∧ r.relativeDepth = 2 ^ 32 - 1) := by
  refine ⟨⟨cpulessMachine_treeLevels, rfl, ?_⟩, ⟨samePuMachine_treeLevels, rfl, ?_⟩⟩
  -- the machine with a node of memory only
  · have hscan : (scanMinMax 2 ([1, 2, 2, 1] : List ℚ)).1 = 1 :=
      scanMinMax_fst_of_least (by norm_num) (by decide) ⟨0, by decide, 0, by decide, rfl⟩ (by decide)
    have hcover : cpulessCover (objsCpuset 2 [numaNode 0 {0}, numaNode 2 {1}]) = some cpulessMachine := by
      rw [cpulessCover, if_neg (by decide), if_neg (by decide), if_pos (by decide)]
    exact ⟨_, (hwlocSetupDistancesFromOsMatrix_eq_some _ _ _ _).2
      ⟨hcover, by decide, by rw [hscan]; exact one_ne_zero, rfl⟩, by decide, by decide⟩
  -- the core whose processing unit has its cpuset
  · have hscan : (scanMinMax 1 ([1] : List ℚ)).1 = 1 :=
      scanMinMax_fst_of_least (by norm_num) (by decide) ⟨0, by decide, 0, by decide, rfl⟩ (by decide)
    have hcover : samePuCover (objsCpuset 1 [samePuCore]) = some ⟨2, 0, {0}, []⟩ := by
      rw [samePuCover, if_pos (by decide)]
    obtain ⟨r, happ, -, hnot, hrel⟩ := samePuMachine_treeLevels.setup_single_below
      (show samePuCore ∈ atDepth 1 samePuMachine from List.mem_singleton_self _)
      (show ⟨2, 0, {0}, []⟩ ∈ atDepth (0 + 1) samePuCore from List.mem_singleton_self _)
      rfl ⟨0, Finset.mem_singleton_self 0⟩ hcover (by rw [hscan]; exact one_ne_zero)
    exact ⟨_, r, happ, hnot, hrel⟩

end Liblstopo
