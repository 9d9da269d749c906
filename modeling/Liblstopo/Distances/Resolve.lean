import Liblstopo.Distances.Store

/-!
# Resolving indexes into objects

`hwloc_convert_distances_indexes_into_objects` (distances.c, lines 213–238) looks up, for
every type with a raw matrix, the object of each stored index in the tree, and keeps the
objects only if every index was found.

- `resolveIndexes_ok`, `resolveIndexes_error`: the loop finds the first object in
  preorder for every index, or breaks at an index that no object has;
- `hwlocConvertDistancesIndexesIntoObjects_spec`: all or nothing, with the raw matrix
  kept for a later retry;
- `convertSlot_again`: converting a converted slot again gives it back.
-/

namespace Liblstopo

variable {τ α : Type} [DecidableEq τ]

/-- The loop of lines 223–233 over the indexes it reads: the object of each index, or the
first index that no object has, where the loop breaks. -/
def resolveIndexes (root : TopoObj τ) (type : τ) : List Nat → Except Nat (List (TopoObj τ))
  | [] => .ok []
  | index :: rest =>
    match hwlocFindObjByTypeAndOsIndex type index root with
    | none => .error index
    | some obj => (resolveIndexes root type rest).map (obj :: ·)

/-- The loop body on one slot: its objects from `indexes[0..nbobjs-1]`, or NULL and the
"unknown OS index" diagnostic. A slot without indexes is left alone. -/
def convertSlot (root : TopoObj τ) (type : τ) (o : OsDistances τ α) :
    OsDistances τ α × Option DistancesDiag :=
  match o.indexes with
  | none => (o, none)
  | some indexes =>
    match resolveIndexes root type ((List.range o.nbobjs).map fun i => indexes.getD i 0) with
    | .ok objs => ({ o with objs := some objs }, none)
    | .error index => ({ o with objs := none }, some (.unknownOsIndex index))

/-- `hwloc_convert_distances_indexes_into_objects`, from the root `levels[0][0]`. -/
def hwlocConvertDistancesIndexesIntoObjects (root : TopoObj τ) (s : DistancesStore τ α) :
    DistancesStore τ α × (τ → Option DistancesDiag) :=
  (fun t => (convertSlot root t (s t)).1, fun t => (convertSlot root t (s t)).2)

/-! ## The lookup loop -/

section Resolve

variable (root : TopoObj τ) (type : τ)

theorem map_getD_range {indexes : List Nat} {nbobjs : Nat} (hlen : indexes.length = nbobjs) :
    (List.range nbobjs).map (fun i => indexes.getD i 0) = indexes := by
  subst hlen
  refine List.ext_getElem (by simp) fun i h1 h2 => ?_
  simp [List.getD_eq_getElem?_getD, List.getElem?_eq_getElem h2]

/-- When the loop runs through, it holds the search's result for every index. -/
theorem resolveIndexes_ok : ∀ (l : List Nat) (objs : List (TopoObj τ)),
    resolveIndexes root type l = .ok objs →
      objs.map some = l.map fun i => hwlocFindObjByTypeAndOsIndex type i root
  | [], objs, h => by cases h; rfl
  | i :: l, objs, h => by
    unfold resolveIndexes at h
    split at h
    · cases h
    · next obj hf =>
      obtain ⟨objs', hr, rfl⟩ := except_map_eq_ok h
      rw [List.map_cons, List.map_cons, hf, resolveIndexes_ok l objs' hr]

/-- The objects the loop collects are objects of the tree with the type asked for and, in
order, the indexes as OS indexes. -/
theorem resolveIndexes_ok_osIndex : ∀ (l : List Nat) (objs : List (TopoObj τ)),
    resolveIndexes root type l = .ok objs →
      objs.map TopoObj.osIndex = l ∧ ∀ o ∈ objs, o.type = type ∧ o ∈ preorder root
  | [], objs, h => by cases h; exact ⟨rfl, fun _ h => nomatch h⟩
  | i :: l, objs, h => by
    unfold resolveIndexes at h
    split at h
    · cases h
    · next obj hf =>
      obtain ⟨objs', hr, rfl⟩ := except_map_eq_ok h
      obtain ⟨htype, hos, hmem⟩ := hwlocFindObjByTypeAndOsIndex_some hf
      obtain ⟨hmap, hall⟩ := resolveIndexes_ok_osIndex l objs' hr
      exact ⟨by rw [List.map_cons, hos, hmap], fun o ho =>
        (List.mem_cons.1 ho).elim (fun h => h ▸ ⟨htype, hmem⟩) (hall o)⟩

/-- When the loop breaks, it breaks at an index that no object has. -/
theorem resolveIndexes_error : ∀ (l : List Nat) (index : Nat),
    resolveIndexes root type l = .error index →
      index ∈ l ∧ hwlocFindObjByTypeAndOsIndex type index root = none
  | [], _, h => by cases h
  | i :: l, index, h => by
    unfold resolveIndexes at h
    split at h
    · next hf => cases h; exact ⟨List.mem_cons_self _ _, hf⟩
    · cases hr : resolveIndexes root type l with
      | ok _ => rw [hr] at h; cases h
      | error e =>
        rw [hr] at h; cases h
        obtain ⟨hmem, hf⟩ := resolveIndexes_error l _ hr
        exact ⟨List.mem_cons_of_mem _ hmem, hf⟩

end Resolve

/-- **All or nothing.** For a type whose stored indexes are `nbobjs` values: after the
conversion its objects are NULL iff some index is the OS index of no object of that type
in the tree; otherwise they are, in order, the first object in preorder with the type and
each index, `nbobjs` of them, pairwise distinct when the indexes are. The raw matrix
stays, so a later load can retry. -/
theorem hwlocConvertDistancesIndexesIntoObjects_spec (root : TopoObj τ) (s : DistancesStore τ α)
    (t : τ) {indexes : List Nat} (hidx : (s t).indexes = some indexes)
    (hlen : indexes.length = (s t).nbobjs) :
    (((hwlocConvertDistancesIndexesIntoObjects root s).1 t).objs = none ↔
        ∃ index ∈ indexes, ∀ o ∈ preorder root, ¬ (o.type = t ∧ o.osIndex = index)) ∧
      (∀ objs, ((hwlocConvertDistancesIndexesIntoObjects root s).1 t).objs = some objs →
        objs.map some = indexes.map (fun index => (preorder root).find? (TopoObj.Matches t index)) ∧
        objs.length = (s t).nbobjs ∧
        (∀ k (hk : k < objs.length), objs[k].type = t ∧ objs[k].osIndex = indexes.getD k 0) ∧
        (indexes.Nodup → objs.Nodup)) ∧
      ((hwlocConvertDistancesIndexesIntoObjects root s).1 t).nbobjs = (s t).nbobjs ∧
      ((hwlocConvertDistancesIndexesIntoObjects root s).1 t).indexes = some indexes ∧
      ((hwlocConvertDistancesIndexesIntoObjects root s).1 t).distances = (s t).distances := by
  simp only [hwlocConvertDistancesIndexesIntoObjects, convertSlot, hidx, map_getD_range hlen]
  cases hr : resolveIndexes root t indexes with
  | error index =>
    obtain ⟨hmem, hf⟩ := resolveIndexes_error root t indexes index hr
    dsimp only
    exact ⟨iff_of_true rfl ⟨index, hmem, (hwlocFindObjByTypeAndOsIndex_eq_none t index root).1 hf⟩,
      fun _ h => Option.noConfusion h, rfl, rfl, rfl⟩
  | ok objs =>
    have hmap := resolveIndexes_ok root t indexes objs hr
    obtain ⟨hos, hobj⟩ := resolveIndexes_ok_osIndex root t indexes objs hr
    have hlen' : objs.length = indexes.length := by rw [← hos, List.length_map]
    dsimp only
    refine ⟨iff_of_false (fun h => Option.noConfusion h) ?_, fun objs' h => ?_, rfl, rfl, rfl⟩
    · rintro ⟨index, hmem, hno⟩
      rw [← hos] at hmem
      obtain ⟨o, ho, rfl⟩ := List.mem_map.1 hmem
      exact hno o (hobj o ho).2 ⟨(hobj o ho).1, rfl⟩
    · cases h
      refine ⟨by simp only [hmap, hwlocFindObjByTypeAndOsIndex_eq], hlen'.trans hlen,
        fun k hk => ⟨(hobj _ (List.getElem_mem hk)).1, ?_⟩,
        fun hnd => List.Nodup.of_map TopoObj.osIndex (hos ▸ hnd)⟩
      simp [← hos, List.getD_eq_getElem?_getD, hk]

/-- A machine with two cores of OS indexes `5` and `7`. -/
def twoCoreTree : TopoObj Nat := ⟨0, 0, ∅, [⟨1, 5, {0}, []⟩, ⟨1, 7, {1}, []⟩]⟩

/-- A store holding, for every type, the indexes `7, 5`. -/
def twoCoreStore : DistancesStore Nat Nat := fun _ => ⟨2, some [7, 5], none, none⟩

theorem convert_two_cores :
    (twoCoreStore 1).indexes = some [7, 5] ∧ [7, 5].length = (twoCoreStore 1).nbobjs ∧
      (((hwlocConvertDistancesIndexesIntoObjects twoCoreTree twoCoreStore).1 1).objs = none ↔
        ∃ index ∈ [7, 5], ∀ o ∈ preorder twoCoreTree, ¬ (o.type = 1 ∧ o.osIndex = index)) :=
  ⟨rfl, rfl, (hwlocConvertDistancesIndexesIntoObjects_spec twoCoreTree twoCoreStore 1 rfl rfl).1⟩

/-! ## The conversion keeps the store's invariant -/

/-- The conversion changes only `objs`, and only where there are indexes. -/
theorem convertSlot_inv (root : TopoObj τ) (t : τ) {o : OsDistances τ α} (h : SlotInv o) :
    SlotInv (convertSlot root t o).1 := by
  unfold convertSlot
  split
  · exact h
  · next indexes hidx =>
    split <;> exact ⟨fun i hi => h.indexes_nodup i (hidx ▸ hi),
      fun i hi => h.distances_length i (hidx ▸ hi),
      fun hn => Option.noConfusion (hidx.symm.trans hn)⟩

/-- After the conversion, objects stand only beside indexes, resolved from them one by
one, `nbobjs` of them, with distances beside them. -/
theorem convertSlot_fresh (root : TopoObj τ) (t : τ) {o : OsDistances τ α} (h : SlotInv o)
    {objs : List (TopoObj τ)} (hobjs : (convertSlot root t o).1.objs = some objs) :
    ∃ indexes, (convertSlot root t o).1.indexes = some indexes ∧
      resolveIndexes root t indexes = .ok objs ∧ objs.length = (convertSlot root t o).1.nbobjs ∧
      (convertSlot root t o).1.distances.isSome := by
  unfold convertSlot at hobjs ⊢
  split at hobjs
  · next hidx => rw [h.objs_none hidx] at hobjs; cases hobjs
  · next indexes hidx =>
    obtain ⟨hlen, -⟩ := h.indexes_nodup indexes hidx
    obtain ⟨dist, hdist, -⟩ := h.distances_length indexes hidx
    rw [map_getD_range hlen] at hobjs ⊢
    cases hr : resolveIndexes root t indexes with
    | error _ => simp only [hr] at hobjs; cases hobjs
    | ok objs' =>
      simp only [hr] at hobjs ⊢
      cases hobjs
      refine ⟨indexes, hidx, hr, ?_, by simp [hdist]⟩
      simpa [hlen] using congrArg List.length (resolveIndexes_ok root t indexes objs hr)

/-! ## Resolving again -/

theorem convertSlot_of_indexes (root : TopoObj τ) (t : τ) {o : OsDistances τ α} {idx : List Nat}
    (h : o.indexes = some idx) :
    (convertSlot root t o).1 = { o with objs :=
      (resolveIndexes root t ((List.range o.nbobjs).map fun i => idx.getD i 0)).toOption } := by
  obtain ⟨nbobjs, indexes, distances, objs⟩ := o
  cases h
  unfold convertSlot
  dsimp only
  split <;> next hr => rw [hr]; rfl

theorem convertSlot_of_none (root : TopoObj τ) (t : τ) {o : OsDistances τ α}
    (h : o.indexes = none) : (convertSlot root t o).1 = o := by
  unfold convertSlot; rw [h]

theorem convertSlot_installMatrix (root : TopoObj τ) (t : τ) (o : OsDistances τ α) (nbobjs : Nat)
    (indexes : List Nat) (distances : List α) :
    (convertSlot root t (installMatrix o nbobjs indexes distances)).1 =
      ⟨nbobjs, some indexes, some distances,
        (resolveIndexes root t ((List.range nbobjs).map fun i => indexes.getD i 0)).toOption⟩ :=
  convertSlot_of_indexes root t rfl

/-- Converting again a converted slot, its objects cleared or not, gives the same slot:
the objects are recomputed from the raw matrix, and a slot without indexes has none. -/
theorem convertSlot_again (root : TopoObj τ) (t : τ) {o : OsDistances τ α} (h : SlotInv o)
    (clear : Bool) :
    (convertSlot root t (if clear then { (convertSlot root t o).1 with objs := none }
      else (convertSlot root t o).1)).1 = (convertSlot root t o).1 := by
  cases hidx : o.indexes with
  | none =>
    rw [convertSlot_of_none root t hidx]
    have ho : { o with objs := none } = o := by
      obtain ⟨nbobjs, indexes, distances, objs⟩ := o
      cases h.objs_none hidx; rfl
    split
    · rw [ho, convertSlot_of_none root t hidx]
    · exact convertSlot_of_none root t hidx
  | some idx =>
    rw [convertSlot_of_indexes root t hidx]
    split <;> exact convertSlot_of_indexes root t hidx

end Liblstopo
