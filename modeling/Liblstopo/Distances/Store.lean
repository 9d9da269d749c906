import Liblstopo.Topology

/-!
# The distance store

`topology->os_distances[type]` for every object type: the raw matrix as it was given
(`nbobjs`, `indexes`, `distances`) and the objects resolved from its indexes (`objs`);
`none` stands for a NULL pointer. The store is a function of the type, and each
operation of distances.c, a loop over all types, acts on every slot by itself.

- `hwlocTopologySetDistanceMatrixInternal_spec`: the setter installs iff the indexes are
  pairwise distinct, and a refused call changes nothing;
- `hwlocTopologySetDistanceMatrix_spec`: the same for the caller's arrays, and no call
  touches the slot of another type;
- `SlotInv`, `hwlocTopologySetDistanceMatrixInternal_inv`: an installed matrix has
  `nbobjs` distinct indexes and `nbobjs*nbobjs` cells (32-bit product), and NULL indexes
  go with NULL objects.
-/

namespace Liblstopo

/-- `topology->os_distances[type]`. -/
structure OsDistances (τ α : Type) where
  nbobjs : Nat
  indexes : Option (List Nat)
  distances : Option (List α)
  objs : Option (List (TopoObj τ))

/-- The diagnostics printed on `stderr`, with the numbers they print. -/
inductive DistancesDiag
  /-- "missing colon" -/
  | missingColon
  /-- "invalid grouping (%u*%u*%u=%u instead of %u)" -/
  | invalidGrouping (x y z product nbobjs : Nat)
  /-- "not enough values (%u out of %u)" -/
  | notEnoughValues (read total : Nat)
  /-- "Ignoring invalid %s distances": the setter refused the matrix -/
  | invalidDistances
  /-- "unknown OS index %u" -/
  | unknownOsIndex (index : Nat)
deriving DecidableEq, Repr

/-- The store: one slot per object type. -/
abbrev DistancesStore (τ α : Type) := τ → OsDistances τ α

variable {τ α : Type} [DecidableEq τ]

/-- `hwloc_topology_distances_init`: no distances for any type. -/
def hwlocTopologyDistancesInit : DistancesStore τ α := fun _ => ⟨0, none, none, none⟩

/-- `hwloc_topology_distances_clear`: drop the resolved objects, keep the raw matrices. -/
def hwlocTopologyDistancesClear (s : DistancesStore τ α) : DistancesStore τ α :=
  fun t => { s t with objs := none }

/-- `hwloc_topology_distances_destroy`: drop everything but `nbobjs`. -/
def hwlocTopologyDistancesDestroy (s : DistancesStore τ α) : DistancesStore τ α :=
  fun t => { s t with indexes := none, objs := none, distances := none }

/-- The loops of lines 64–71: whether `indexes[i] == indexes[j]` for some `i < j < nbobjs`. -/
def hasDuplicateIndex (nbobjs : Nat) (indexes : List Nat) : Bool :=
  (List.range nbobjs).any fun i => (List.range' (i + 1) (nbobjs - (i + 1))).any fun j =>
    indexes.getD i 0 = indexes.getD j 0

/-- Lines 73–77: a slot with a new raw matrix; its `objs` stay. -/
def installMatrix (o : OsDistances τ α) (nbobjs : Nat) (indexes : List Nat)
    (distances : List α) : OsDistances τ α :=
  { o with nbobjs := nbobjs, indexes := some indexes, distances := some distances }

/-- `hwloc_topology__set_distance_matrix`: `-1` and the store unchanged on a duplicate
index, otherwise the slot takes `nbobjs`, `indexes` and `distances` (its `objs` kept)
and `0`. -/
def hwlocTopologySetDistanceMatrixInternal (s : DistancesStore τ α) (type : τ) (nbobjs : Nat)
    (indexes : List Nat) (distances : List α) : DistancesStore τ α × Int :=
  if hasDuplicateIndex nbobjs indexes then (s, -1)
  else (Function.update s type (installMatrix (s type) nbobjs indexes distances), 0)

/-- The number of cells `nbobjs*nbobjs` that the store allocates, an unsigned product. -/
def matrixCells (nbobjs : Nat) : Nat := nbobjs * nbobjs % 2 ^ 32

theorem matrixCells_of_lt {nbobjs : Nat} (h : nbobjs * nbobjs < 2 ^ 32) :
    matrixCells nbobjs = nbobjs * nbobjs :=
  Nat.mod_eq_of_lt h

/-- `hwloc_topology_set_distance_matrix`: copy `nbobjs` indexes and `nbobjs*nbobjs`
distances from the caller's arrays and hand the copies to the setter. -/
def hwlocTopologySetDistanceMatrix (s : DistancesStore τ α) (type : τ) (nbobjs : Nat)
    (indexes : Nat → Nat) (distances : Nat → α) : DistancesStore τ α × Int :=
  hwlocTopologySetDistanceMatrixInternal s type nbobjs ((List.range nbobjs).map indexes)
    ((List.range (matrixCells nbobjs)).map distances)

/-- How the code reads a stored matrix, `(*distances)[i][j]`: cell `i*nbobjs+j`, `0` past
the end of the list. The list holds the `nbobjs*nbobjs` cells the store allocates, so for
fewer than `65536` objects every cell read is in it; from `65536` on the allocation wraps
(`allocated_cells_cover_iff`) and the code reads past it, which the model does not follow. -/
def flatMatrix [Zero α] (nbobjs : Nat) (distances : List α) : Nat → Nat → α :=
  fun i j => distances.getD (i * nbobjs + j) 0

/-! ## The duplicate check -/

/-- The check finds a duplicate iff two of the first `nbobjs` entries are equal. -/
theorem hasDuplicateIndex_iff {nbobjs : Nat} {indexes : List Nat} :
    hasDuplicateIndex nbobjs indexes = true ↔
      ∃ i j, i < j ∧ j < nbobjs ∧ indexes.getD i 0 = indexes.getD j 0 := by
  simp only [hasDuplicateIndex, List.any_eq_true, List.mem_range, List.mem_range'_1,
    decide_eq_true_eq]
  constructor
  · rintro ⟨i, -, j, hj, heq⟩; exact ⟨i, j, by omega, by omega, heq⟩
  · rintro ⟨i, j, hij, hj, heq⟩; exact ⟨i, by omega, j, ⟨hij, by omega⟩, heq⟩

/-- On `nbobjs` indexes the check passes iff they are pairwise distinct. -/
theorem hasDuplicateIndex_eq_false {nbobjs : Nat} {indexes : List Nat}
    (hlen : indexes.length = nbobjs) :
    hasDuplicateIndex nbobjs indexes = false ↔ indexes.Nodup := by
  subst hlen
  rw [← Bool.not_eq_true, hasDuplicateIndex_iff, List.nodup_iff_getElem?_ne_getElem?]
  constructor
  · intro h i j hij hj heq
    exact h ⟨i, j, hij, hj, by simp only [List.getD_eq_getElem?_getD, heq]⟩
  · rintro h ⟨i, j, hij, hj, heq⟩
    have hi : i < indexes.length := by omega
    simp only [List.getD_eq_getElem?_getD, List.getElem?_eq_getElem hi, List.getElem?_eq_getElem hj,
      Option.getD_some] at heq
    exact h i j hij hj (by rw [List.getElem?_eq_getElem hi, List.getElem?_eq_getElem hj, heq])

/-! ## The slot invariant -/

/-- What every slot keeps: installed indexes are `nbobjs` distinct values, paired with
`nbobjs*nbobjs` distances, and NULL indexes go with NULL objects. -/
structure SlotInv (o : OsDistances τ α) : Prop where
  indexes_nodup : ∀ idx, o.indexes = some idx → idx.length = o.nbobjs ∧ idx.Nodup
  distances_length : ∀ idx, o.indexes = some idx →
    ∃ dist, o.distances = some dist ∧ dist.length = matrixCells o.nbobjs
  objs_none : o.indexes = none → o.objs = none

omit [DecidableEq τ] in
theorem slotInv_init (t : τ) : SlotInv ((hwlocTopologyDistancesInit : DistancesStore τ α) t) :=
  ⟨fun _ h => (by cases h), fun _ h => (by cases h), fun _ => rfl⟩

omit [DecidableEq τ] in
theorem slotInv_clear {s : DistancesStore τ α} {t : τ} (h : SlotInv (s t)) :
    SlotInv (hwlocTopologyDistancesClear s t) :=
  ⟨h.indexes_nodup, h.distances_length, fun _ => rfl⟩

omit [DecidableEq τ] in
theorem slotInv_clear_on_reload (reload : Bool) {s : DistancesStore τ α} (hs : ∀ t, SlotInv (s t))
    (t : τ) : SlotInv ((if reload then hwlocTopologyDistancesClear s else s) t) := by
  split
  · exact slotInv_clear (hs t)
  · exact hs t

/-- **The setter installs iff the indexes are distinct; a refusal changes nothing.**
Given `nbobjs` indexes: with a duplicate among them the call returns `-1` and leaves the
store as it was; otherwise it returns `0` and only the slot of `type` changes, to the
new raw matrix with its `objs` kept. -/
theorem hwlocTopologySetDistanceMatrixInternal_spec (s : DistancesStore τ α) (type : τ)
    (nbobjs : Nat) (indexes : List Nat) (distances : List α) (hlen : indexes.length = nbobjs) :
    (¬ indexes.Nodup → hwlocTopologySetDistanceMatrixInternal s type nbobjs indexes distances =
      (s, -1)) ∧
    (indexes.Nodup → hwlocTopologySetDistanceMatrixInternal s type nbobjs indexes distances =
      (Function.update s type (installMatrix (s type) nbobjs indexes distances), 0)) := by
  have hd : hasDuplicateIndex nbobjs indexes = false ↔ indexes.Nodup :=
    hasDuplicateIndex_eq_false hlen
  unfold hwlocTopologySetDistanceMatrixInternal
  constructor
  · intro hn; rw [if_pos (by simpa [hn] using hd)]
  · intro hn; rw [if_neg (by simpa [hn] using hd)]

theorem hwlocTopologySetDistanceMatrixInternal_rejected {s : DistancesStore τ α} {type : τ}
    {nbobjs : Nat} {indexes : List Nat} {distances : List α}
    (h : (hwlocTopologySetDistanceMatrixInternal s type nbobjs indexes distances).2 ≠ 0) :
    (hwlocTopologySetDistanceMatrixInternal s type nbobjs indexes distances).1 = s := by
  unfold hwlocTopologySetDistanceMatrixInternal at h ⊢
  split
  · rfl
  · next hd => rw [if_neg hd] at h; exact absurd rfl h

/-- The setter keeps the invariant of every slot when the distances have
`nbobjs*nbobjs` cells. -/
theorem hwlocTopologySetDistanceMatrixInternal_inv {s : DistancesStore τ α} {type : τ}
    {nbobjs : Nat} {indexes : List Nat} {distances : List α} (hs : ∀ t, SlotInv (s t))
    (hlen : indexes.length = nbobjs) (hdist : distances.length = matrixCells nbobjs) (t : τ) :
    SlotInv ((hwlocTopologySetDistanceMatrixInternal s type nbobjs indexes distances).1 t) := by
  obtain ⟨hdup, hok⟩ := hwlocTopologySetDistanceMatrixInternal_spec s type nbobjs indexes
    distances hlen
  by_cases hn : indexes.Nodup
  · rw [hok hn]
    dsimp only
    by_cases ht : t = type
    · subst ht
      rw [Function.update_same]
      refine ⟨fun idx h => ?_, fun idx _ => ⟨distances, rfl, hdist⟩, fun h => (by cases h)⟩
      cases h; exact ⟨hlen, hn⟩
    · rw [Function.update_noteq ht]; exact hs t
  · rw [hdup hn]; exact hs t

/-- **What a caller of the setter gets.** `hwloc_topology_set_distance_matrix` returns `0`
iff the first `nbobjs` of the caller's indexes are pairwise distinct; a refusal returns `-1`
with the store as it was, a success puts copies of the caller's arrays in the slot of
`type`, and no other slot ever changes. -/
theorem hwlocTopologySetDistanceMatrix_spec (s : DistancesStore τ α) (type : τ) (nbobjs : Nat)
    (indexes : Nat → Nat) (distances : Nat → α) :
    ((hwlocTopologySetDistanceMatrix s type nbobjs indexes distances).2 = 0 ↔
      ∀ i j, i < j → j < nbobjs → indexes i ≠ indexes j) ∧
    ((hwlocTopologySetDistanceMatrix s type nbobjs indexes distances).2 ≠ 0 →
      hwlocTopologySetDistanceMatrix s type nbobjs indexes distances = (s, -1)) ∧
    ((hwlocTopologySetDistanceMatrix s type nbobjs indexes distances).2 = 0 →
      (hwlocTopologySetDistanceMatrix s type nbobjs indexes distances).1 type =
        installMatrix (s type) nbobjs ((List.range nbobjs).map indexes)
          ((List.range (matrixCells nbobjs)).map distances)) ∧
    ∀ t, t ≠ type → (hwlocTopologySetDistanceMatrix s type nbobjs indexes distances).1 t = s t := by
  -- the copy holds the caller's first `nbobjs` indexes
  have hdup : hasDuplicateIndex nbobjs ((List.range nbobjs).map indexes) = true ↔
      ∃ i j, i < j ∧ j < nbobjs ∧ indexes i = indexes j := by
    have hget : ∀ i < nbobjs, ((List.range nbobjs).map indexes).getD i 0 = indexes i :=
      fun i hi => by simp [hi]
    rw [hasDuplicateIndex_iff]
    exact exists₂_congr fun i j => and_congr_right fun hij => and_congr_right fun hj => by
      rw [hget i (by omega), hget j hj]
  unfold hwlocTopologySetDistanceMatrix hwlocTopologySetDistanceMatrixInternal
  split
  · next h =>
    obtain ⟨i, j, hij, hj, he⟩ := hdup.1 h
    have hneg : (-1 : Int) ≠ 0 := by decide
    exact ⟨iff_of_false hneg fun hne => hne i j hij hj he, fun _ => rfl, fun h => absurd h hneg,
      fun _ _ => rfl⟩
  · next h =>
    exact ⟨iff_of_true rfl fun i j hij hj he => h (hdup.2 ⟨i, j, hij, hj, he⟩),
      fun h => absurd rfl h, fun _ => Function.update_same _ _ _,
      fun t ht => Function.update_noteq ht _ _⟩

end Liblstopo
