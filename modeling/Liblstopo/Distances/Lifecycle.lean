import Liblstopo.Distances.Parse
import Liblstopo.Distances.Resolve
import Liblstopo.Grouping.Engine

/-!
# The lifecycle of the distance store

The store is initialised with the topology; afterwards an application may set matrices
with `hwloc_topology_set_distance_matrix` at any time, and each load of the topology
clears the resolved objects (on a reload), stores the matrices of the environment,
resolves the indexes into objects of the freshly built tree, and then lets
`hwloc_group_by_distances` and `hwloc_finalize_logical_distances` read the store.

- `Reachable`: the stores these runs produce;
- `reachable_slotInv`: every slot of a reachable store keeps `SlotInv`;
- `hwlocLoadDistances_fresh`: after a load's conversion, every non-NULL `objs` was
  resolved from the current indexes, has `nbobjs` entries and stands beside distances;
- `distances_store_consistent`: all of it along every run, with refused sets and
  parses changing nothing and the assertions of the two readers holding;
- `hwlocLoadDistances_idem`: loading again, with or without a reload, changes nothing;
- `hwlocLoadDistances_keeps_set`: a load keeps the matrix of every type the environment
  does not name, and resolves it again.
-/

namespace Liblstopo

variable {τ α : Type} [DecidableEq τ] [LinearOrderedField α]

/-- `hwloc_group_by_distances` on one type: the outcome of its grouping (the Group objects
it creates, or the failure of the grouping), or `none` when its assertion that `distances`
is non-NULL fails. `ignoreDistances` tells whether `HWLOC_IGNORE_DISTANCES` is set. The
grouping reads the matrix through `flatMatrix`, so the model follows it for fewer than
`65536` objects. -/
def hwlocGroupByDistances (ignoreDistances : Bool) (s : DistancesStore τ α) (t : τ) :
    Option (Except GroupingFailure (List GroupObj)) :=
  if (s t).nbobjs = 0 then some (.ok []) else
  match (s t).objs with
  | none => some (.ok [])
  | some objs =>
    match (s t).distances with
    | none => none
    | some distances =>
      some (hwlocSetupGroupsFromDistances ignoreDistances (s t).nbobjs
        (fun i => (objs[i]?.map TopoObj.cpuset).getD ∅) (flatMatrix (s t).nbobjs distances))

/-- `hwloc_finalize_logical_distances` on one type: the arguments of its call of
`hwloc_setup_distances_from_os_matrix` (`nbobjs`, `objs`, `distances`), if it makes one,
or `none` when its assertion that `distances` is non-NULL fails. `typeDepthKnown` tells
whether `hwloc_get_type_depth` finds one level for the type. -/
def hwlocFinalizeLogicalDistances (typeDepthKnown : τ → Bool) (s : DistancesStore τ α) (t : τ) :
    Option (Option (Nat × List (TopoObj τ) × List α)) :=
  if (s t).nbobjs = 0 then some none else
  if typeDepthKnown t = false then some none else
  match (s t).objs with
  | none => some none
  | some objs =>
    match (s t).distances with
    | none => none
    | some distances => some (some ((s t).nbobjs, objs, distances))

/-- The store's part of a topology load: clear the objects on a reload, store the
matrices of the environment, resolve their indexes in the tree of root `root`. -/
def hwlocLoadDistances (strtof : List Char → α × List Char) (reload : Bool)
    (env : τ → Option (List Char)) (root : TopoObj τ) (s : DistancesStore τ α) :
    DistancesStore τ α :=
  (hwlocConvertDistancesIndexesIntoObjects root
    (hwlocStoreDistancesFromEnv strtof env
      (if reload then hwlocTopologyDistancesClear s else s)).1).1

/-- The stores reachable from `hwloc_topology_distances_init` through any sequence of
calls of `hwloc_topology_set_distance_matrix` and of loads. -/
inductive Reachable (strtof : List Char → α × List Char) : DistancesStore τ α → Prop
  | init : Reachable strtof hwlocTopologyDistancesInit
  | set {s : DistancesStore τ α} (type : τ) (nbobjs : Nat) (indexes : Nat → Nat)
      (distances : Nat → α) :
      Reachable strtof s →
        Reachable strtof (hwlocTopologySetDistanceMatrix s type nbobjs indexes distances).1
  | load {s : DistancesStore τ α} (reload : Bool) (env : τ → Option (List Char))
      (root : TopoObj τ) :
      Reachable strtof s → Reachable strtof (hwlocLoadDistances strtof reload env root s)

/-! ## The invariant -/

omit [LinearOrderedField α] in
theorem hwlocTopologySetDistanceMatrix_inv {s : DistancesStore τ α} (hs : ∀ t, SlotInv (s t))
    (type : τ) (nbobjs : Nat) (indexes : Nat → Nat) (distances : Nat → α) (t : τ) :
    SlotInv ((hwlocTopologySetDistanceMatrix s type nbobjs indexes distances).1 t) :=
  hwlocTopologySetDistanceMatrixInternal_inv hs (by simp) (by simp) t

theorem hwlocLoadDistances_inv (strtof : List Char → α × List Char) (reload : Bool)
    (env : τ → Option (List Char)) (root : TopoObj τ) {s : DistancesStore τ α}
    (hs : ∀ t, SlotInv (s t)) (t : τ) :
    SlotInv (hwlocLoadDistances strtof reload env root s t) :=
  convertSlot_inv root t (hwlocStoreDistancesFromEnv_inv strtof env (slotInv_clear_on_reload reload hs) t)

/-- Every slot of a reachable store keeps `SlotInv`. -/
theorem reachable_slotInv {strtof : List Char → α × List Char} {s : DistancesStore τ α}
    (h : Reachable strtof s) (t : τ) : SlotInv (s t) := by
  induction h generalizing t with
  | init => exact slotInv_init t
  | set type nbobjs indexes distances _ ih =>
    exact hwlocTopologySetDistanceMatrix_inv ih type nbobjs indexes distances t
  | load reload env root _ ih => exact hwlocLoadDistances_inv strtof reload env root ih t

/-! ## What the readers find -/

/-- After a load, every non-NULL `objs` was resolved from the current indexes, has
`nbobjs` entries, and stands beside distances. -/
theorem hwlocLoadDistances_fresh (strtof : List Char → α × List Char) (reload : Bool)
    (env : τ → Option (List Char)) (root : TopoObj τ) {s : DistancesStore τ α}
    (hs : ∀ t, SlotInv (s t)) (t : τ) {objs : List (TopoObj τ)}
    (hobjs : (hwlocLoadDistances strtof reload env root s t).objs = some objs) :
    ∃ indexes, (hwlocLoadDistances strtof reload env root s t).indexes = some indexes ∧
      resolveIndexes root t indexes = .ok objs ∧
      objs.length = (hwlocLoadDistances strtof reload env root s t).nbobjs ∧
      (hwlocLoadDistances strtof reload env root s t).distances.isSome :=
  convertSlot_fresh root t
    (hwlocStoreDistancesFromEnv_inv strtof env (slotInv_clear_on_reload reload hs) t) hobjs

section Readers

variable {s : DistancesStore τ α} {t : τ}
  (hfresh : ∀ objs, (s t).objs = some objs → (s t).distances.isSome)
include hfresh

omit [DecidableEq τ] in
/-- `hwloc_group_by_distances` passes its assertion where objects stand beside
distances. -/
theorem hwlocGroupByDistances_isSome (ignoreDistances : Bool) :
    (hwlocGroupByDistances ignoreDistances s t).isSome := by
  unfold hwlocGroupByDistances
  split
  · rfl
  · split
    · rfl
    · next objs hobjs =>
      obtain ⟨d, hd⟩ := Option.isSome_iff_exists.1 (hfresh objs hobjs)
      rw [hd]; rfl

omit [DecidableEq τ] [LinearOrderedField α] in
/-- `hwloc_finalize_logical_distances` passes its assertion where objects stand beside
distances. -/
theorem hwlocFinalizeLogicalDistances_isSome (typeDepthKnown : τ → Bool) :
    (hwlocFinalizeLogicalDistances typeDepthKnown s t).isSome := by
  unfold hwlocFinalizeLogicalDistances
  split
  · rfl
  · split
    · rfl
    · split
      · rfl
      · next objs hobjs =>
        obtain ⟨d, hd⟩ := Option.isSome_iff_exists.1 (hfresh objs hobjs)
        rw [hd]; rfl

end Readers

/-- **The distance store is consistent along every run.** In every store reachable from
`hwloc_topology_distances_init` through any sets and loads, every non-NULL `indexes`
holds `nbobjs` distinct values beside `nbobjs*nbobjs` distances. A set or a parse that
rejects its input leaves the whole store it ran on as it was, whatever that store, the
cleared and partly filled stores of a load included. And after the conversion of any
load, every non-NULL `objs` was resolved from the current indexes, has `nbobjs` entries
and stands beside distances, so the assertions of `hwloc_group_by_distances` and
`hwloc_finalize_logical_distances` on `distances` hold. -/
theorem distances_store_consistent (strtof : List Char → α × List Char) {s : DistancesStore τ α}
    (hs : Reachable strtof s) :
    (∀ t, SlotInv (s t)) ∧
    (∀ (s' : DistancesStore τ α) type nbobjs indexes distances,
      (hwlocTopologySetDistanceMatrix s' type nbobjs indexes distances).2 ≠ 0 →
        (hwlocTopologySetDistanceMatrix s' type nbobjs indexes distances).1 = s') ∧
    (∀ (s' : DistancesStore τ α) type string,
      (hwlocGetTypeDistancesFromString strtof s' type string).2 ≠ none →
        (hwlocGetTypeDistancesFromString strtof s' type string).1 = s') ∧
    ∀ reload env root t,
      (∀ objs, (hwlocLoadDistances strtof reload env root s t).objs = some objs →
        ∃ indexes, (hwlocLoadDistances strtof reload env root s t).indexes = some indexes ∧
          resolveIndexes root t indexes = .ok objs ∧
          objs.length = (hwlocLoadDistances strtof reload env root s t).nbobjs ∧
          (hwlocLoadDistances strtof reload env root s t).distances.isSome) ∧
      (∀ ignoreDistances,
        (hwlocGroupByDistances ignoreDistances (hwlocLoadDistances strtof reload env root s) t).isSome) ∧
      (∀ typeDepthKnown, (hwlocFinalizeLogicalDistances typeDepthKnown
        (hwlocLoadDistances strtof reload env root s) t).isSome) := by
  have hinv := reachable_slotInv hs
  refine ⟨hinv, fun _ _ _ _ _ => hwlocTopologySetDistanceMatrixInternal_rejected,
    fun s' type string => hwlocGetTypeDistancesFromString_rejected strtof s' type string,
    fun reload env root t => ?_⟩
  have hds : ∀ objs, (hwlocLoadDistances strtof reload env root s t).objs = some objs →
      (hwlocLoadDistances strtof reload env root s t).distances.isSome := fun _ h => by
    obtain ⟨-, -, -, -, hd⟩ := hwlocLoadDistances_fresh strtof reload env root hinv t h
    exact hd
  exact ⟨fun _ h => hwlocLoadDistances_fresh strtof reload env root hinv t h,
    fun ig => hwlocGroupByDistances_isSome hds ig, fun tk => hwlocFinalizeLogicalDistances_isSome hds tk⟩

/-! ## Reloading -/

/-- **Reloading changes nothing.** From any reachable store, a second load with the same
environment and tree, a reload or not, leaves the store of the first load: each variable
installs the same matrix again or none, and the indexes resolve to the same objects. -/
theorem hwlocLoadDistances_idem (strtof : List Char → α × List Char) {s : DistancesStore τ α}
    (hs : Reachable strtof s) (reload reload' : Bool) (env : τ → Option (List Char))
    (root : TopoObj τ) :
    hwlocLoadDistances strtof reload' env root (hwlocLoadDistances strtof reload env root s) =
      hwlocLoadDistances strtof reload env root s := by
  funext t
  have hinv := slotInv_clear_on_reload reload (reachable_slotInv hs) t
  have hload : ∀ (r : Bool) (S : DistancesStore τ α), hwlocLoadDistances strtof r env root S t =
      (convertSlot root t ((hwlocStoreDistancesFromEnv strtof env
        (if r then hwlocTopologyDistancesClear S else S)).1 t)).1 := fun _ _ => rfl
  have hclear : ∀ (r : Bool) (S : DistancesStore τ α),
      (if r then hwlocTopologyDistancesClear S else S) t =
        if r then { S t with objs := none } else S t := fun r S => by split <;> rfl
  rw [hload reload']
  rcases hwlocStoreDistancesFromEnv_slot strtof env t with hU | ⟨nbobjs, indexes, distances, hU⟩
  -- the variable installs nothing: the objects are resolved again from the same indexes
  · rw [hU, hclear, hload reload s, hU]
    exact convertSlot_again root t hinv reload'
  -- the variable installs a matrix: the same one both times, whatever the slot held
  · rw [hU, hload reload s, hU, convertSlot_installMatrix, convertSlot_installMatrix]

/-- A reload after a first load of the two cores of `twoCoreTree` from the variable
`5,7:1,2,2,1` of their type. -/
theorem reload_two_cores :
    hwlocLoadDistances strtofDecimal true (fun t => if t = 1 then some "5,7:1,2,2,1".toList else none)
        twoCoreTree (hwlocLoadDistances strtofDecimal false
          (fun t => if t = 1 then some "5,7:1,2,2,1".toList else none) twoCoreTree
          (hwlocTopologyDistancesInit : DistancesStore Nat ℚ)) =
      hwlocLoadDistances strtofDecimal false
        (fun t => if t = 1 then some "5,7:1,2,2,1".toList else none) twoCoreTree
        hwlocTopologyDistancesInit :=
  hwlocLoadDistances_idem strtofDecimal Reachable.init false true _ twoCoreTree

/-- The store after one successful set of a 2×2 matrix. -/
def oneSetStore : DistancesStore Unit ℚ :=
  (hwlocTopologySetDistanceMatrix hwlocTopologyDistancesInit () 2 id fun _ => 1).1

/-- After the set, a reload with no variable set into a tree of one object: the store stays
consistent, and both readers pass their assertions. -/
theorem one_set_consistent :
    Reachable (strtofDecimal : List Char → ℚ × List Char) oneSetStore ∧
      (∀ t, SlotInv (oneSetStore t)) ∧
      (hwlocGroupByDistances false
        (hwlocLoadDistances strtofDecimal true (fun _ => none) ⟨(), 0, ∅, []⟩ oneSetStore) ()).isSome ∧
      (hwlocFinalizeLogicalDistances (fun _ => true)
        (hwlocLoadDistances strtofDecimal true (fun _ => none) ⟨(), 0, ∅, []⟩ oneSetStore) ()).isSome := by
  have h := distances_store_consistent strtofDecimal (Reachable.set () 2 id (fun _ => (1 : ℚ)) Reachable.init)
  obtain ⟨-, hgroup, hfinal⟩ := h.2.2.2 true (fun _ => none) ⟨(), 0, ∅, []⟩ ()
  exact ⟨Reachable.set () 2 id _ Reachable.init, h.1, hgroup false, hfinal fun _ => true⟩

/-! ## Matrices set by the application -/

/-- **A load keeps the matrices the environment does not name.** For a type whose variable
is unset, a load, a reload or not, keeps the slot's `nbobjs`, indexes and distances, as
`hwloc_topology_set_distance_matrix` left them, and resolves the indexes again in the new
tree. -/
theorem hwlocLoadDistances_keeps_set (strtof : List Char → α × List Char) (reload : Bool)
    {env : τ → Option (List Char)} (root : TopoObj τ) (s : DistancesStore τ α) {t : τ}
    (h : env t = none) :
    (hwlocLoadDistances strtof reload env root s t).nbobjs = (s t).nbobjs ∧
    (hwlocLoadDistances strtof reload env root s t).indexes = (s t).indexes ∧
    (hwlocLoadDistances strtof reload env root s t).distances = (s t).distances ∧
    ∀ idx, (s t).indexes = some idx → (hwlocLoadDistances strtof reload env root s t).objs =
      (resolveIndexes root t ((List.range (s t).nbobjs).map fun i => idx.getD i 0)).toOption := by
  -- the slot handed to the conversion is the old one, its objects dropped on a reload
  have hload : hwlocLoadDistances strtof reload env root s t =
      (convertSlot root t { s t with objs := if reload then none else (s t).objs }).1 := by
    show (convertSlot root t ((hwlocStoreDistancesFromEnv strtof env _).1 t)).1 = _
    unfold hwlocStoreDistancesFromEnv
    dsimp only
    rw [h]
    cases reload <;> rfl
  rw [hload]
  cases hidx : (s t).indexes with
  | none =>
    rw [convertSlot_of_none root t (show ({ s t with objs := if reload then none else (s t).objs } :
      OsDistances τ α).indexes = none from hidx)]
    exact ⟨rfl, hidx, rfl, fun _ hi => nomatch hi⟩
  | some idx =>
    rw [convertSlot_of_indexes root t (show ({ s t with objs := if reload then none else (s t).objs } :
      OsDistances τ α).indexes = some idx from hidx)]
    exact ⟨rfl, hidx, rfl, fun _ hi => by cases hi; rfl⟩

end Liblstopo
