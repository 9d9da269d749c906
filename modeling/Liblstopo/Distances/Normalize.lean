import Liblstopo.Distances.Lifecycle

/-!
# Logical distances

`hwloc_setup_distances_from_os_matrix` (distances.c, lines 240–311) turns the raw matrix
of one type into the record the API exposes. It takes the object covering the union of
the objects' cpusets and gives up unless that object's cpuset is exactly the union; it
takes the least logical index as an offset, scans the matrix for its least and greatest
cells (from `FLT_MAX` and `FLT_MIN`) and gives up when the least is `0`; otherwise it
appends to the covering object a record whose matrix is indexed by logical index, each
cell divided by the least one. `hwloc_finalize_logical_distances` runs it for every type
with objects.

- `hwlocSetupDistancesFromOsMatrix_eq_some`: exactly when a record is appended, and what
  it holds;
- `scanMinMax_fst`, `scanMinMax_snd`: the scan's `min` and `max` in closed form;
- `writeLatency_cell`, `writeLatency_written`: when the offsets are distinct and below
  `nbobjs`, every cell of the matrix is written, cell `(li, lj)` with cell `(i, j)` of
  the raw matrix;
- `hwlocSetupDistancesFromOsMatrix_interval`: all of it for objects whose logical indexes
  form an interval;
- `latency_range`: there every cell lies between `1` and `latency_max`, both are reached,
  and a symmetric raw matrix gives a symmetric one;
- `OsMatrixInBounds`: the reads and writes of a call stay inside their buffers; where
  they do not (`nbobjs*nbobjs` wrapping from `65536` objects on, or logical offsets past
  `nbobjs`), the code's behaviour is undefined and the model follows it no further;
- `hwlocFinalizeLogicalDistancesRun_load`: after any load of a reachable store whose calls
  stay inside their buffers, the loop passes its assertions on `distances` and appends only
  records of that kind.
-/

namespace Liblstopo

variable {τ α : Type} [LinearOrderedField α]

/-- What `topology.c` computes as it builds the levels, as far as the normaliser reads
it: each object's `depth` and `logical_index`, both `unsigned`, and
`hwloc_get_obj_covering_cpuset`. -/
structure Levels (τ : Type) where
  depth : TopoObj τ → Nat
  logicalIndex : TopoObj τ → Nat
  getObjCoveringCpuset : Cpuset → Option (TopoObj τ)
  depth_lt : ∀ o, depth o < 2 ^ 32
  logicalIndex_lt : ∀ o, logicalIndex o < 2 ^ 32

/-- `struct hwloc_distances_s` as the normaliser fills it. A cell of `latency` that no
write reached is `none`: the matrix comes from `malloc`. -/
structure HwlocDistances (α : Type) where
  relativeDepth : Nat
  nbobjs : Nat
  latency : List (Option α)
  latencyBase : α
  latencyMax : α

/-- `a - b` in `unsigned` arithmetic. -/
def u32Sub (a b : Nat) : Nat := (a + 2 ^ 32 - b) % 2 ^ 32

/-- Lines 254–256: the union of `objs[i]->cpuset` for `i < nbobjs`. -/
def objsCpuset (nbobjs : Nat) (objs : List (TopoObj τ)) : Cpuset :=
  cpusetUnion (fun i => (objs[i]?.map TopoObj.cpuset).getD ∅) (List.range nbobjs)

/-- `objs[i]->logical_index`. -/
def logicalIndexAt (levels : Levels τ) (objs : List (TopoObj τ)) (i : Nat) : Nat :=
  (objs[i]?.map levels.logicalIndex).getD 0

/-- Lines 267–271: the least of the logical indexes `logical i`, `i < nbobjs`, from
`UINT_MAX`. -/
def minLogicalIndex (nbobjs : Nat) (logical : Nat → Nat) : Nat :=
  (List.range nbobjs).foldl (fun minl i => if minl > logical i then logical i else minl)
    (2 ^ 32 - 1)

/-- `osmatrix[i*nbobjs+j]`, the index in `unsigned` arithmetic, `0` past the end of the
list, where the code reads past its buffer (`OsMatrixInBounds`). -/
def osCell (nbobjs : Nat) (osmatrix : List α) (i j : Nat) : α :=
  osmatrix.getD ((i * nbobjs + j) % 2 ^ 32) 0

/-- `if (val > max) max = val;` -/
def keepLarger (m v : α) : α := if v > m then v else m

/-- Lines 274–281: the least and the greatest cell, from `FLT_MAX` and `FLT_MIN`. -/
def scanMinMax (nbobjs : Nat) (osmatrix : List α) : α × α :=
  (List.range nbobjs).foldl (fun mm i => (List.range nbobjs).foldl (fun mm j =>
    (keepSmaller mm.1 (osCell nbobjs osmatrix i j), keepLarger mm.2 (osCell nbobjs osmatrix i j)))
      mm) (fltMax, fltMin)

/-- `matrix[a*nbobjs+b] = v`, the index in `unsigned` arithmetic; `List.set` drops a write
past the end, where the code writes past the `malloc` of line 298 (`OsMatrixInBounds`). -/
def writeCell (nbobjs a b : Nat) (v : α) (matrix : List (Option α)) : List (Option α) :=
  matrix.set ((a * nbobjs + b) % 2 ^ 32) (some v)

/-- Lines 299–308: for each `i` the diagonal cell `(li i, li i)`, then for each `j > i`
the cells `(li i, li j)` and `(li j, li i)`, with the normalised cells `cell i j`. -/
def writeLatency (nbobjs : Nat) (li : Nat → Nat) (cell : Nat → Nat → α)
    (matrix : List (Option α)) : List (Option α) :=
  (List.range nbobjs).foldl (fun m i =>
    (List.range' (i + 1) (nbobjs - (i + 1))).foldl
      (fun m j => writeCell nbobjs (li j) (li i) (cell j i) (writeCell nbobjs (li i) (li j) (cell i j) m))
      (writeCell nbobjs (li i) (li i) (cell i i) m)) matrix

/-- The record of lines 289–308 for covering object `root` and least and greatest cells
`mm`. -/
def distancesRecord (levels : Levels τ) (nbobjs : Nat) (objs : List (TopoObj τ))
    (osmatrix : List α) (root : TopoObj τ) (mm : α × α) : HwlocDistances α :=
  let minl := minLogicalIndex nbobjs (logicalIndexAt levels objs)
  { relativeDepth := u32Sub ((objs[0]?.map levels.depth).getD 0) (levels.depth root)
    nbobjs := nbobjs
    latency := writeLatency nbobjs (fun i => u32Sub (logicalIndexAt levels objs i) minl)
      (fun i j => osCell nbobjs osmatrix i j / mm.1) (List.replicate (matrixCells nbobjs) none)
    latencyBase := mm.1
    latencyMax := mm.2 / mm.1 }

/-- Every cell a call reads from `osmatrix` (lines 276–281) and every cell it writes into
the `malloc` of line 298 (lines 299–308), at the indexes the code computes in `unsigned`
arithmetic, lies inside its buffer. Where a read or a write does not, the code's behaviour
is undefined, and the model's reads of `0` and dropped writes stand for nothing it does. -/
def OsMatrixInBounds (levels : Levels τ) (nbobjs : Nat) (objs : List (TopoObj τ))
    (osmatrix : List α) : Prop :=
  ∀ i < nbobjs, ∀ j < nbobjs, (i * nbobjs + j) % 2 ^ 32 < osmatrix.length ∧
    (u32Sub (logicalIndexAt levels objs i) (minLogicalIndex nbobjs (logicalIndexAt levels objs)) *
        nbobjs + u32Sub (logicalIndexAt levels objs j)
          (minLogicalIndex nbobjs (logicalIndexAt levels objs))) % 2 ^ 32 < matrixCells nbobjs

instance (levels : Levels τ) (nbobjs : Nat) (objs : List (TopoObj τ)) (osmatrix : List α) :
    Decidable (OsMatrixInBounds levels nbobjs objs osmatrix) :=
  inferInstanceAs (Decidable (∀ i < nbobjs, ∀ j < nbobjs, _ ∧ _))

section Record

variable (levels : Levels τ) (nbobjs : Nat) (objs : List (TopoObj τ)) (osmatrix : List α)
  (root : TopoObj τ) (mm : α × α)

@[simp] theorem distancesRecord_nbobjs :
    (distancesRecord levels nbobjs objs osmatrix root mm).nbobjs = nbobjs := rfl

@[simp] theorem distancesRecord_relativeDepth :
    (distancesRecord levels nbobjs objs osmatrix root mm).relativeDepth =
      u32Sub ((objs[0]?.map levels.depth).getD 0) (levels.depth root) := rfl

@[simp] theorem distancesRecord_latencyBase :
    (distancesRecord levels nbobjs objs osmatrix root mm).latencyBase = mm.1 := rfl

@[simp] theorem distancesRecord_latencyMax :
    (distancesRecord levels nbobjs objs osmatrix root mm).latencyMax = mm.2 / mm.1 := rfl

end Record

theorem mem_objsCpuset {nbobjs : Nat} {objs : List (TopoObj τ)} (hn : objs.length = nbobjs)
    {x : Nat} : x ∈ objsCpuset nbobjs objs ↔ ∃ o ∈ objs, x ∈ o.cpuset := by
  rw [objsCpuset, mem_cpusetUnion]
  simp only [List.mem_range]
  constructor
  · rintro ⟨j, hj, hx⟩
    rw [List.getElem?_eq_getElem (hn ▸ hj)] at hx
    exact ⟨_, List.getElem_mem _, hx⟩
  · rintro ⟨o, ho, hx⟩
    obtain ⟨j, hj, rfl⟩ := List.mem_iff_getElem.1 ho
    exact ⟨j, hn ▸ hj, by rwa [List.getElem?_eq_getElem hj]⟩

theorem logicalIndexAt_of_lt {levels : Levels τ} {objs : List (TopoObj τ)} {i : Nat}
    (h : i < objs.length) : logicalIndexAt levels objs i = levels.logicalIndex objs[i] := by
  rw [logicalIndexAt, List.getElem?_eq_getElem h, Option.map_some', Option.getD_some]

/-- `hwloc_setup_distances_from_os_matrix`: the covering object and the record appended to
its `distances`; `some none` when it returns early, `none` when `assert(root)` fails. -/
def hwlocSetupDistancesFromOsMatrix (levels : Levels τ) (nbobjs : Nat)
    (objs : List (TopoObj τ)) (osmatrix : List α) :
    Option (Option (TopoObj τ × HwlocDistances α)) :=
  match levels.getObjCoveringCpuset (objsCpuset nbobjs objs) with
  | none => none
  | some root =>
    if objsCpuset nbobjs objs ≠ root.cpuset then some none else
    if (scanMinMax nbobjs osmatrix).1 = 0 then some none else
    some (some (root, distancesRecord levels nbobjs objs osmatrix root (scanMinMax nbobjs osmatrix)))

/-- `hwloc_finalize_logical_distances` with its calls run, over the types in the order of
its loop: the records appended, each with the object it goes to; `none` when an assertion
fails. -/
def hwlocFinalizeLogicalDistancesRun (levels : Levels τ) (typeDepthKnown : τ → Bool)
    (types : List τ) (s : DistancesStore τ α) : Option (List (TopoObj τ × HwlocDistances α)) :=
  types.foldlM (fun acc t =>
    match hwlocFinalizeLogicalDistances typeDepthKnown s t with
    | none => none
    | some none => some acc
    | some (some (nbobjs, objs, distances)) =>
      (hwlocSetupDistancesFromOsMatrix levels nbobjs objs distances).map (acc ++ ·.toList)) []

/-- A machine as the normaliser sees it, for the fixed inputs below: every object is at
depth `0` with its OS index as logical index, and the covering lookup returns an object
whose cpuset is exactly the set asked for. -/
def exactCoverLevels : Levels Unit where
  depth _ := 0
  logicalIndex o := o.osIndex % 2 ^ 32
  getObjCoveringCpuset s := some ⟨(), 0, s, []⟩
  depth_lt _ := by norm_num
  logicalIndex_lt _ := Nat.mod_lt _ (by norm_num)

theorem exactCoverLevels_covering (s : Cpuset) :
    exactCoverLevels.getObjCoveringCpuset s = some ⟨(), 0, s, []⟩ ∧
      (⟨(), 0, s, []⟩ : TopoObj Unit).cpuset = s :=
  ⟨rfl, rfl⟩

/-- The object of OS index `i`, covering processing unit `i`. -/
def puObj (i : Nat) : TopoObj Unit := ⟨(), i, {i}, []⟩

/-- The objects of OS indexes `0, …, n - 1`, in that order. -/
def puObjs (n : Nat) : List (TopoObj Unit) := (List.range n).map puObj

theorem logicalIndexAt_puObjs {n i : Nat} (hi : i < n) (hn : n ≤ 2 ^ 32) :
    logicalIndexAt exactCoverLevels (puObjs n) i = i := by
  simp only [logicalIndexAt, puObjs, List.getElem?_map, List.getElem?_range hi, Option.map_some',
    Option.getD_some, exactCoverLevels, puObj]
  exact Nat.mod_eq_of_lt (by omega)

/-! ## What one call does -/

section Setup

variable (levels : Levels τ) (nbobjs : Nat) (objs : List (TopoObj τ)) (osmatrix : List α)

theorem hwlocSetupDistancesFromOsMatrix_isSome :
    (hwlocSetupDistancesFromOsMatrix levels nbobjs objs osmatrix).isSome =
      (levels.getObjCoveringCpuset (objsCpuset nbobjs objs)).isSome := by
  unfold hwlocSetupDistancesFromOsMatrix
  split
  · next h => rw [h]; rfl
  · next h => rw [h]; split_ifs <;> rfl

/-- A record is appended exactly when the covering object's cpuset is the union of the
objects' and the least cell is not `0`, and it is `distancesRecord`. -/
theorem hwlocSetupDistancesFromOsMatrix_eq_some {root : TopoObj τ} {r : HwlocDistances α} :
    hwlocSetupDistancesFromOsMatrix levels nbobjs objs osmatrix = some (some (root, r)) ↔
      levels.getObjCoveringCpuset (objsCpuset nbobjs objs) = some root ∧
        objsCpuset nbobjs objs = root.cpuset ∧ (scanMinMax nbobjs osmatrix).1 ≠ 0 ∧
        r = distancesRecord levels nbobjs objs osmatrix root (scanMinMax nbobjs osmatrix) := by
  unfold hwlocSetupDistancesFromOsMatrix
  split
  · next h => simp [h]
  · next root' h =>
    rw [h]
    split_ifs with h1 h2
    · exact iff_of_false (by simp) fun ⟨e, hc, _⟩ => by cases Option.some.inj e; exact h1 hc
    · exact iff_of_false (by simp) fun ⟨_, _, hm, _⟩ => hm h2
    · constructor
      · intro he
        obtain ⟨rfl, rfl⟩ := Prod.mk.inj (Option.some.inj (Option.some.inj he))
        exact ⟨rfl, not_not.1 h1, h2, rfl⟩
      · rintro ⟨e, -, -, rfl⟩
        cases Option.some.inj e; rfl

end Setup

/-! ## The scan for the least and the greatest cell -/

/-- Folding `keepLarger` over a list gives a value above the start and above every key,
and equal to one of them. -/
theorem foldl_keepLarger {β : Type} (v : β → α) :
    ∀ (l : List β) (m : α), m ≤ l.foldl (fun m x => keepLarger m (v x)) m ∧
      (∀ x ∈ l, v x ≤ l.foldl (fun m x => keepLarger m (v x)) m) ∧
      (l.foldl (fun m x => keepLarger m (v x)) m = m ∨
        ∃ x ∈ l, l.foldl (fun m x => keepLarger m (v x)) m = v x)
  | [], m => by simp
  | x :: l, m => by
    obtain ⟨h1, h2, h3⟩ := foldl_keepLarger v l (keepLarger m (v x))
    have hm : m ≤ keepLarger m (v x) ∧ v x ≤ keepLarger m (v x) := by
      unfold keepLarger; split_ifs with h
      · exact ⟨le_of_lt h, le_rfl⟩
      · exact ⟨le_rfl, le_of_not_lt h⟩
    have hc : keepLarger m (v x) = m ∨ keepLarger m (v x) = v x := by
      unfold keepLarger; split_ifs <;> simp
    simp only [List.foldl_cons, List.mem_cons, forall_eq_or_imp, exists_eq_or_imp]
    refine ⟨hm.1.trans h1, ⟨hm.2.trans h1, h2⟩, ?_⟩
    rcases h3 with h3 | h3
    · rw [h3]; exact hc.imp id Or.inl
    · exact Or.inr (Or.inr h3)

theorem scanMinMax_eq (n : Nat) (osmatrix : List α) :
    scanMinMax n osmatrix =
      ((allPairs n).foldl (fun m p => keepSmaller m (osCell n osmatrix p.1 p.2)) fltMax,
        (allPairs n).foldl (fun m p => keepLarger m (osCell n osmatrix p.1 p.2)) fltMin) := by
  rw [← foldl_prod_mk]
  simp only [scanMinMax, allPairs, foldl_flatMap', List.foldl_map]

/-- The scan's `min` is below `FLT_MAX` and below every cell, and is one of them. -/
theorem scanMinMax_fst (n : Nat) (osmatrix : List α) :
    (scanMinMax n osmatrix).1 ≤ fltMax ∧
      (∀ i j, i < n → j < n → (scanMinMax n osmatrix).1 ≤ osCell n osmatrix i j) ∧
      ((scanMinMax n osmatrix).1 = fltMax ∨
        ∃ i j, i < n ∧ j < n ∧ (scanMinMax n osmatrix).1 = osCell n osmatrix i j) := by
  obtain ⟨h1, h2, h3⟩ := foldl_keepSmaller (fun p : Nat × Nat => osCell n osmatrix p.1 p.2)
    (allPairs n) fltMax
  rw [scanMinMax_eq]
  refine ⟨h1, fun i j hi hj => h2 (i, j) (mem_allPairs.2 ⟨hi, hj⟩), h3.imp id ?_⟩
  rintro ⟨⟨i, j⟩, hp, h⟩
  exact ⟨i, j, (mem_allPairs.1 hp).1, (mem_allPairs.1 hp).2, h⟩

/-- The scan's `max` is above `FLT_MIN` and above every cell, and is one of them. -/
theorem scanMinMax_snd (n : Nat) (osmatrix : List α) :
    fltMin ≤ (scanMinMax n osmatrix).2 ∧
      (∀ i j, i < n → j < n → osCell n osmatrix i j ≤ (scanMinMax n osmatrix).2) ∧
      ((scanMinMax n osmatrix).2 = fltMin ∨
        ∃ i j, i < n ∧ j < n ∧ (scanMinMax n osmatrix).2 = osCell n osmatrix i j) := by
  obtain ⟨h1, h2, h3⟩ := foldl_keepLarger (fun p : Nat × Nat => osCell n osmatrix p.1 p.2)
    (allPairs n) fltMin
  rw [scanMinMax_eq]
  refine ⟨h1, fun i j hi hj => h2 (i, j) (mem_allPairs.2 ⟨hi, hj⟩), h3.imp id ?_⟩
  rintro ⟨⟨i, j⟩, hp, h⟩
  exact ⟨i, j, (mem_allPairs.1 hp).1, (mem_allPairs.1 hp).2, h⟩

theorem osCell_eq_getD {n i j : Nat} (osmatrix : List α) (hfit : n * n < 2 ^ 32) (hi : i < n)
    (hj : j < n) : osCell n osmatrix i j = osmatrix.getD (i * n + j) 0 := by
  rw [osCell, Nat.mod_eq_of_lt (by have := cell_index_lt hi hj; omega)]

theorem scanMinMax_fst_eq {n : Nat} {osmatrix : List α} {min : α}
    (hmem : ∃ i j, i < n ∧ j < n ∧ osCell n osmatrix i j = min)
    (hle : ∀ i j, i < n → j < n → min ≤ osCell n osmatrix i j) (hmax : min ≤ fltMax) :
    (scanMinMax n osmatrix).1 = min := by
  obtain ⟨h1, h2, h3⟩ := scanMinMax_fst n osmatrix
  obtain ⟨i, j, hi, hj, rfl⟩ := hmem
  refine le_antisymm (h2 i j hi hj) ?_
  rcases h3 with h | ⟨k, l, hk, hl, h⟩ <;> rw [h]
  · exact hmax
  · exact hle k l hk hl

/-- The same for a matrix whose `n*n` cells fit in 32 bits, read at `i*n+j`: the scan's
`min` is the least cell when every cell is a float. -/
theorem scanMinMax_fst_of_least {n : Nat} {osmatrix : List α} {min : α} (hfit : n * n < 2 ^ 32)
    (hfloat : ∀ i < n, ∀ j < n, osmatrix.getD (i * n + j) 0 ≤ fltMax)
    (hmem : ∃ i < n, ∃ j < n, osmatrix.getD (i * n + j) 0 = min)
    (hle : ∀ i < n, ∀ j < n, min ≤ osmatrix.getD (i * n + j) 0) :
    (scanMinMax n osmatrix).1 = min := by
  obtain ⟨i, hi, j, hj, hm⟩ := hmem
  refine scanMinMax_fst_eq ⟨i, j, hi, hj, (osCell_eq_getD osmatrix hfit hi hj).trans hm⟩
    (fun k l hk hl => ?_) (hm ▸ hfloat i hi j hj)
  rw [osCell_eq_getD osmatrix hfit hk hl]
  exact hle k hk l hl

/-- **`max` starts at `FLT_MIN`, the least positive float, not at the most negative.**
When every raw cell is below `FLT_MIN` (all negative, say), the scan never moves `max`:
the record's `latency_max` is `FLT_MIN / min`, which is no raw cell over `min`, so not
the greatest one. -/
theorem latencyMax_of_cells_below_fltMin {levels : Levels τ} {nbobjs : Nat}
    {objs : List (TopoObj τ)} {osmatrix : List α} {root : TopoObj τ} {r : HwlocDistances α}
    (happ : hwlocSetupDistancesFromOsMatrix levels nbobjs objs osmatrix = some (some (root, r)))
    (hbelow : ∀ i j, i < nbobjs → j < nbobjs → osCell nbobjs osmatrix i j < fltMin) :
    r.latencyMax = fltMin / r.latencyBase ∧
      ∀ i j, i < nbobjs → j < nbobjs → r.latencyMax ≠ osCell nbobjs osmatrix i j / r.latencyBase := by
  obtain ⟨-, -, hmin, rfl⟩ := (hwlocSetupDistancesFromOsMatrix_eq_some levels nbobjs objs osmatrix).1 happ
  obtain ⟨h1, -, h3⟩ := scanMinMax_snd nbobjs osmatrix
  have hmax : (scanMinMax nbobjs osmatrix).2 = fltMin := by
    rcases h3 with h | ⟨i, j, hi, hj, h⟩
    · exact h
    · exact absurd (hbelow i j hi hj) (not_lt.2 (h ▸ h1))
  refine ⟨by rw [distancesRecord_latencyMax, hmax]; rfl, fun i j hi hj => ?_⟩
  rw [distancesRecord_latencyMax, distancesRecord_latencyBase, hmax, Ne, div_left_inj' hmin]
  exact (hbelow i j hi hj).ne'

/-- One object, raw matrix `[-1]`: `latency_max` is `FLT_MIN / -1`, where the greatest cell
over the least is `1`. -/
theorem negative_cell_latencyMax :
    (∀ i j, i < 1 → j < 1 → osCell 1 ([-1] : List ℚ) i j < fltMin) ∧
      ∃ root r, hwlocSetupDistancesFromOsMatrix exactCoverLevels 1 [puObj 0] ([-1] : List ℚ) =
          some (some (root, r)) ∧
        r.latencyMax = fltMin / r.latencyBase ∧
        ∀ i j, i < 1 → j < 1 → r.latencyMax ≠ osCell 1 ([-1] : List ℚ) i j / r.latencyBase := by
  have hbelow : ∀ i j, i < 1 → j < 1 → osCell 1 ([-1] : List ℚ) i j < fltMin := by
    intro i j hi hj
    obtain ⟨rfl, rfl⟩ : i = 0 ∧ j = 0 := by omega
    norm_num [osCell, fltMin]
  have hscan : (scanMinMax 1 ([-1] : List ℚ)).1 = -1 :=
    scanMinMax_fst_eq ⟨0, 0, Nat.one_pos, Nat.one_pos, rfl⟩
      (fun i j hi hj => by obtain ⟨rfl, rfl⟩ : i = 0 ∧ j = 0 := (by omega); exact le_rfl)
      (by norm_num [fltMax])
  have happ := (hwlocSetupDistancesFromOsMatrix_eq_some exactCoverLevels 1 [puObj 0]
    ([-1] : List ℚ)).2 ⟨rfl, rfl, by rw [hscan]; norm_num, rfl⟩
  exact ⟨hbelow, _, _, happ, latencyMax_of_cells_below_fltMin happ hbelow⟩

/-! ## The logical offsets -/

theorem u32Sub_of_le {a b : Nat} (ha : a < 2 ^ 32) (h : b ≤ a) : u32Sub a b = a - b := by
  unfold u32Sub; omega

/-- The least logical index is below `UINT_MAX` and every index, and is one of them. -/
theorem minLogicalIndex_spec (nbobjs : Nat) (logical : Nat → Nat) :
    (∀ i, i < nbobjs → minLogicalIndex nbobjs logical ≤ logical i) ∧
      (minLogicalIndex nbobjs logical = 2 ^ 32 - 1 ∨
        ∃ i, i < nbobjs ∧ minLogicalIndex nbobjs logical = logical i) := by
  have h := forLoop_induction (fun r minl => (∀ i, i < r → minl ≤ logical i) ∧
      (minl = 2 ^ 32 - 1 ∨ ∃ i, i < r ∧ minl = logical i))
    (fun minl i => if minl > logical i then logical i else minl) nbobjs 0 (2 ^ 32 - 1)
    ⟨fun _ h => absurd h (Nat.not_lt_zero _), Or.inl rfl⟩ fun r minl _ _ ⟨hle, hcase⟩ => by
      dsimp only
      split_ifs with hgt
      · exact ⟨fun i hi => by
          rcases Nat.lt_succ_iff_lt_or_eq.1 hi with hi | rfl
          · exact (Nat.le_of_lt hgt).trans (hle i hi)
          · exact le_rfl, Or.inr ⟨r, Nat.lt_succ_self r, rfl⟩⟩
      · refine ⟨fun i hi => ?_, hcase.imp id fun ⟨i, hi, h⟩ => ⟨i, by omega, h⟩⟩
        rcases Nat.lt_succ_iff_lt_or_eq.1 hi with hi | rfl
        · exact hle i hi
        · omega
  rw [Nat.zero_add] at h
  rw [minLogicalIndex, List.range_eq_range']
  exact h

/-- Distinct values `logical i`, `i < nbobjs`, in `[m, m + nbobjs)` take every value of
the interval. -/
theorem exists_eq_of_interval {nbobjs m : Nat} {logical : Nat → Nat}
    (hin : ∀ i, i < nbobjs → m ≤ logical i ∧ logical i < m + nbobjs)
    (hinj : ∀ i j, i < nbobjs → j < nbobjs → logical i = logical j → i = j) {a : Nat}
    (ha : a < nbobjs) : ∃ i, i < nbobjs ∧ logical i = m + a := by
  have hoff : ∀ i, i ∈ Finset.range nbobjs → logical i - m ∈ Finset.range nbobjs :=
    fun i hi => by have := hin i (Finset.mem_range.1 hi); simp only [Finset.mem_range]; omega
  obtain ⟨i, hi, h⟩ := Finset.surj_on_of_inj_on_of_card_le (fun i _ => logical i - m) hoff
    (fun i j hi hj h => hinj i j (Finset.mem_range.1 hi) (Finset.mem_range.1 hj) (by
      have := hin i (Finset.mem_range.1 hi); have := hin j (Finset.mem_range.1 hj)
      dsimp only at h; omega))
    le_rfl a (Finset.mem_range.2 ha)
  refine ⟨i, Finset.mem_range.1 hi, ?_⟩
  have := hin i (Finset.mem_range.1 hi)
  omega

/-- For logical indexes that are distinct and form the interval `[m, m + nbobjs)`, the
least is `m`. -/
theorem minLogicalIndex_interval {nbobjs m : Nat} {logical : Nat → Nat} (hn : 0 < nbobjs)
    (hlt : ∀ i, i < nbobjs → logical i < 2 ^ 32)
    (hin : ∀ i, i < nbobjs → m ≤ logical i ∧ logical i < m + nbobjs)
    (hinj : ∀ i j, i < nbobjs → j < nbobjs → logical i = logical j → i = j) :
    minLogicalIndex nbobjs logical = m := by
  obtain ⟨hle, hcase⟩ := minLogicalIndex_spec nbobjs logical
  obtain ⟨i, hi, hm⟩ := exists_eq_of_interval hin hinj hn
  have h1 := hle i hi
  rcases hcase with h | ⟨j, hj, h⟩
  · have := hlt i hi; omega
  · have := (hin j hj).1; omega

/-! ## The writes into the logical matrix -/

section Writes

omit [LinearOrderedField α]

variable {n : Nat} {li : Nat → Nat} {cell : Nat → Nat → α}

/-- The writes of `writeLatency` in order, as target index and value. -/
def latencyWrites (n : Nat) (li : Nat → Nat) (cell : Nat → Nat → α) : List (Nat × Option α) :=
  (List.range n).flatMap fun i =>
    ((li i * n + li i) % 2 ^ 32, some (cell i i)) ::
      (List.range' (i + 1) (n - (i + 1))).flatMap fun j =>
        [((li i * n + li j) % 2 ^ 32, some (cell i j)), ((li j * n + li i) % 2 ^ 32, some (cell j i))]

theorem writeLatency_eq (m : List (Option α)) :
    writeLatency n li cell m = (latencyWrites n li cell).foldl (fun m w => m.set w.1 w.2) m := by
  simp only [writeLatency, latencyWrites, writeCell, foldl_flatMap', List.foldl_cons,
    List.foldl_nil]

/-- The loop writes cell `(li a, li b)` with `cell a b` for every `a, b < n`, and
nothing else. -/
theorem mem_latencyWrites {w : Nat × Option α} :
    w ∈ latencyWrites n li cell ↔
      ∃ a b, a < n ∧ b < n ∧ w = ((li a * n + li b) % 2 ^ 32, some (cell a b)) := by
  simp only [latencyWrites, List.mem_flatMap, List.mem_range, List.mem_cons, List.mem_range'_1,
    List.mem_singleton, List.not_mem_nil, or_false]
  constructor
  · rintro ⟨i, hi, rfl | ⟨j, hj, rfl | rfl⟩⟩
    · exact ⟨i, i, hi, hi, rfl⟩
    · exact ⟨i, j, hi, by omega, rfl⟩
    · exact ⟨j, i, by omega, hi, rfl⟩
  · rintro ⟨a, b, ha, hb, rfl⟩
    rcases Nat.lt_trichotomy a b with hab | rfl | hab
    · exact ⟨a, ha, Or.inr ⟨b, by omega, Or.inl rfl⟩⟩
    · exact ⟨a, ha, Or.inl rfl⟩
    · exact ⟨b, hb, Or.inr ⟨a, by omega, Or.inr rfl⟩⟩

theorem length_writeLatency (m : List (Option α)) : (writeLatency n li cell m).length = m.length := by
  rw [writeLatency_eq, length_foldl_set]

variable (hfit : n * n < 2 ^ 32) (hli : ∀ i, i < n → li i < n)
  (hinj : ∀ i j, i < n → j < n → li i = li j → i = j)
include hfit hli hinj

/-- **Every cell gets the cell of its objects.** When the offsets `li` are distinct and
below `n` and the `n*n` cells fit in 32 bits, cell `(li i, li j)` ends up holding
`cell i j`, whichever order the objects come in. -/
theorem writeLatency_cell {m : List (Option α)} (hm : m.length = n * n) {i j : Nat} (hi : i < n)
    (hj : j < n) : (writeLatency n li cell m).getD (li i * n + li j) none = some (cell i j) := by
  have hk := cell_index_lt (hli i hi) (hli j hj)
  rw [writeLatency_eq, getD_foldl_set none _ _ _ m (hm ▸ hk), if_pos]
  · exact ⟨_, mem_latencyWrites.2 ⟨i, j, hi, hj, rfl⟩, Nat.mod_eq_of_lt (by omega)⟩
  · intro w hw hwk
    obtain ⟨a, b, ha, hb, rfl⟩ := mem_latencyWrites.1 hw
    dsimp only at hwk ⊢
    rw [Nat.mod_eq_of_lt (show li a * n + li b < 2 ^ 32 by
      have := cell_index_lt (hli a ha) (hli b hb); omega)] at hwk
    obtain ⟨h1, h2⟩ := cell_index_inj (hli b hb) (hli j hj) hwk
    rw [hinj a i ha hi h1, hinj b j hb hj h2]

/-- **No cell is left unwritten.** Under the same conditions every one of the `n*n` cells
is written. -/
theorem writeLatency_written {m : List (Option α)} (hm : m.length = n * n) {k : Nat}
    (hk : k < n * n) : ((writeLatency n li cell m).getD k none).isSome := by
  have hsurj : ∀ a, a < n → ∃ i, i < n ∧ li i = a := fun a ha => by
    obtain ⟨i, hi, h⟩ := Finset.surj_on_of_inj_on_of_card_le (fun i _ => li i)
      (fun i hi => Finset.mem_range.2 (hli i (Finset.mem_range.1 hi)))
      (fun i j hi hj h => hinj i j (Finset.mem_range.1 hi) (Finset.mem_range.1 hj) h)
      le_rfl a (Finset.mem_range.2 ha)
    exact ⟨i, Finset.mem_range.1 hi, h.symm⟩
  have hn : 0 < n := Nat.pos_of_ne_zero fun h => by subst h; omega
  obtain ⟨i, hi, hli'⟩ := hsurj (k / n) (Nat.div_lt_of_lt_mul hk)
  obtain ⟨j, hj, hlj⟩ := hsurj (k % n) (Nat.mod_lt k hn)
  have hkij : k = li i * n + li j := by rw [hli', hlj, Nat.mul_comm]; exact (Nat.div_add_mod k n).symm
  rw [hkij, writeLatency_cell hfit hli hinj hm hi hj]
  rfl

end Writes

/-! ## The record for objects in logical order -/

section Interval

variable (levels : Levels τ) (nbobjs : Nat) (objs : List (TopoObj τ)) (osmatrix : List α)

theorem logicalIndexAt_lt (i : Nat) : logicalIndexAt levels objs i < 2 ^ 32 := by
  unfold logicalIndexAt
  cases objs[i]? with
  | none => simp
  | some o => exact levels.logicalIndex_lt o

/-- **The normalised matrix, for objects whose logical indexes are distinct and form an
interval** `[m, m + nbobjs)`, with `nbobjs*nbobjs` cells in 32 bits: the record appended
has `nbobjs` objects, the least cell as base and the greatest over it as maximum, and a
matrix of `nbobjs*nbobjs` cells, every one written, with cell
`(l_i − m, l_j − m)` holding raw cell `(i, j)` over the base. -/
theorem hwlocSetupDistancesFromOsMatrix_interval {root : TopoObj τ} {r : HwlocDistances α}
    (happ : hwlocSetupDistancesFromOsMatrix levels nbobjs objs osmatrix = some (some (root, r)))
    (hn : 0 < nbobjs) (hfit : nbobjs * nbobjs < 2 ^ 32) {m : Nat}
    (hin : ∀ i, i < nbobjs →
      m ≤ logicalIndexAt levels objs i ∧ logicalIndexAt levels objs i < m + nbobjs)
    (hinj : ∀ i j, i < nbobjs → j < nbobjs →
      logicalIndexAt levels objs i = logicalIndexAt levels objs j → i = j) :
    r.nbobjs = nbobjs ∧ r.latencyBase = (scanMinMax nbobjs osmatrix).1 ∧
      r.latencyMax = (scanMinMax nbobjs osmatrix).2 / (scanMinMax nbobjs osmatrix).1 ∧
      r.latency.length = nbobjs * nbobjs ∧
      (∀ k, k < nbobjs * nbobjs → (r.latency.getD k none).isSome) ∧
      ∀ i j, i < nbobjs → j < nbobjs →
        r.latency.getD ((logicalIndexAt levels objs i - m) * nbobjs +
          (logicalIndexAt levels objs j - m)) none = some (osCell nbobjs osmatrix i j / r.latencyBase) := by
  obtain ⟨-, -, -, rfl⟩ := (hwlocSetupDistancesFromOsMatrix_eq_some levels nbobjs objs osmatrix).1 happ
  have hminl : minLogicalIndex nbobjs (logicalIndexAt levels objs) = m :=
    minLogicalIndex_interval hn (fun i _ => logicalIndexAt_lt levels objs i) hin hinj
  have hli : ∀ i, i < nbobjs → u32Sub (logicalIndexAt levels objs i) m = logicalIndexAt levels objs i - m :=
    fun i hi => u32Sub_of_le (logicalIndexAt_lt levels objs i) (hin i hi).1
  have hcells : (List.replicate (matrixCells nbobjs) (none : Option α)).length = nbobjs * nbobjs := by
    rw [List.length_replicate, matrixCells_of_lt hfit]
  have hlt : ∀ i, i < nbobjs → u32Sub (logicalIndexAt levels objs i) m < nbobjs := fun i hi => by
    rw [hli i hi]; have := hin i hi; omega
  have hinj' : ∀ i j, i < nbobjs → j < nbobjs → u32Sub (logicalIndexAt levels objs i) m =
      u32Sub (logicalIndexAt levels objs j) m → i = j := fun i j hi hj h => by
    rw [hli i hi, hli j hj] at h
    exact hinj i j hi hj (by have := hin i hi; have := hin j hj; omega)
  refine ⟨rfl, rfl, rfl, ?_, fun k hk => ?_, fun i j hi hj => ?_⟩ <;>
    simp only [distancesRecord, hminl]
  · rw [length_writeLatency, hcells]
  · exact writeLatency_written hfit hlt hinj' hcells hk
  · rw [← hli i hi, ← hli j hj]
    exact writeLatency_cell hfit hlt hinj' hcells hi hj

/-- **The normalised matrix is the raw one over its least cell, in logical order.** For
objects whose logical indexes are distinct and form the interval `[m, m + nbobjs)`, with
`nbobjs*nbobjs` cells in 32 bits, and a raw matrix of floats whose least cell `min` is
not `0`: once the covering object's cpuset is the union of the objects', one record is
appended to it, for `nbobjs` objects with base `min`, and every one of its
`nbobjs*nbobjs` cells is written, cell `(l_i − m, l_j − m)` with raw cell `(i, j)` over
`min`. -/
theorem hwlocSetupDistancesFromOsMatrix_logical {root : TopoObj τ} {m : Nat} {min : α}
    (hroot : levels.getObjCoveringCpuset (objsCpuset nbobjs objs) = some root)
    (hcheck : objsCpuset nbobjs objs = root.cpuset) (hn : 0 < nbobjs)
    (hfit : nbobjs * nbobjs < 2 ^ 32)
    (hin : ∀ i < nbobjs, m ≤ logicalIndexAt levels objs i ∧ logicalIndexAt levels objs i < m + nbobjs)
    (hinj : ∀ i < nbobjs, ∀ j < nbobjs,
      logicalIndexAt levels objs i = logicalIndexAt levels objs j → i = j)
    (hfloat : ∀ i < nbobjs, ∀ j < nbobjs, osmatrix.getD (i * nbobjs + j) 0 ≤ fltMax)
    (hmem : ∃ i < nbobjs, ∃ j < nbobjs, osmatrix.getD (i * nbobjs + j) 0 = min)
    (hle : ∀ i < nbobjs, ∀ j < nbobjs, min ≤ osmatrix.getD (i * nbobjs + j) 0)
    (hmin : min ≠ 0) :
    ∃ r, hwlocSetupDistancesFromOsMatrix levels nbobjs objs osmatrix = some (some (root, r)) ∧
      r.nbobjs = nbobjs ∧ r.latencyBase = min ∧ r.latency.length = nbobjs * nbobjs ∧
      (∀ k < nbobjs * nbobjs, (r.latency.getD k none).isSome) ∧
      ∀ i < nbobjs, ∀ j < nbobjs,
        r.latency.getD ((logicalIndexAt levels objs i - m) * nbobjs +
          (logicalIndexAt levels objs j - m)) none = some (osmatrix.getD (i * nbobjs + j) 0 / min) := by
  have hscan := scanMinMax_fst_of_least hfit hfloat hmem hle
  have happ := (hwlocSetupDistancesFromOsMatrix_eq_some levels nbobjs objs osmatrix).2
    ⟨hroot, hcheck, hscan ▸ hmin, rfl⟩
  obtain ⟨h1, h2, -, h4, h5, h6⟩ := hwlocSetupDistancesFromOsMatrix_interval levels nbobjs objs
    osmatrix happ hn hfit hin fun i j hi hj => hinj i hi j hj
  refine ⟨_, happ, h1, h2.trans hscan, h4, h5, fun i hi j hj => ?_⟩
  rw [h6 i j hi hj, h2, hscan, osCell_eq_getD osmatrix hfit hi hj]

/-- Two objects given in the reverse of their logical order, raw matrix `[[1, 3], [3, 2]]`. -/
theorem normalise_reversed_pair :
    ∃ r, hwlocSetupDistancesFromOsMatrix exactCoverLevels 2 [puObj 1, puObj 0] ([1, 3, 3, 2] : List ℚ) =
        some (some (⟨(), 0, objsCpuset 2 [puObj 1, puObj 0], []⟩, r)) ∧
      r.nbobjs = 2 ∧ r.latencyBase = 1 ∧ r.latency.length = 2 * 2 ∧
      (∀ k < 2 * 2, (r.latency.getD k none).isSome) ∧
      ∀ i < 2, ∀ j < 2,
        r.latency.getD ((logicalIndexAt exactCoverLevels [puObj 1, puObj 0] i - 0) * 2 +
          (logicalIndexAt exactCoverLevels [puObj 1, puObj 0] j - 0)) none =
            some (([1, 3, 3, 2] : List ℚ).getD (i * 2 + j) 0 / 1) :=
  hwlocSetupDistancesFromOsMatrix_logical exactCoverLevels 2 _ _ rfl rfl (by decide) (by decide)
    (by decide) (by decide) (by decide) ⟨0, by decide, 0, by decide, rfl⟩ (by decide) one_ne_zero

/-- From `65536` objects on, `nbobjs*nbobjs` wraps: for `65536` objects in logical order and
a raw matrix of ones, the covering check passes and the least cell is `1`, but the matrix
`malloc(nbobjs*nbobjs*sizeof(float))` gives the record has no cell at all. -/
theorem wrapped_latency_empty :
    (∀ i, i < 65536 → logicalIndexAt exactCoverLevels (puObjs 65536) i = i) ∧
      ∃ root r, hwlocSetupDistancesFromOsMatrix exactCoverLevels 65536 (puObjs 65536)
          (List.replicate (2 ^ 32) (1 : ℚ)) = some (some (root, r)) ∧
        r.latencyBase = 1 ∧ r.latency = [] := by
  have hone : ∀ i j, osCell 65536 (List.replicate (2 ^ 32) (1 : ℚ)) i j = 1 := fun i j => by
    rw [osCell, List.getD_eq_getElem?_getD, List.getElem?_replicate,
      if_pos (Nat.mod_lt _ (by norm_num)), Option.getD_some]
  have hscan : (scanMinMax 65536 (List.replicate (2 ^ 32) (1 : ℚ))).1 = 1 :=
    scanMinMax_fst_eq ⟨0, 0, by norm_num, by norm_num, hone 0 0⟩ (fun i j _ _ => (hone i j).ge)
      (by norm_num [fltMax])
  have happ := (hwlocSetupDistancesFromOsMatrix_eq_some exactCoverLevels 65536 (puObjs 65536)
    (List.replicate (2 ^ 32) (1 : ℚ))).2 ⟨(exactCoverLevels_covering _).1,
      (exactCoverLevels_covering _).2.symm, by rw [hscan]; exact one_ne_zero, rfl⟩
  refine ⟨fun i hi => logicalIndexAt_puObjs hi (by norm_num), _, _, happ,
    (distancesRecord_latencyBase ..).trans hscan, List.eq_nil_of_length_eq_zero ?_⟩
  rw [distancesRecord, length_writeLatency, List.length_replicate]
  decide

/-- **A diagonal cell is `1` exactly where the raw diagonal cell is the least cell.** For
objects whose logical indexes are distinct and form the interval `[m, m + nbobjs)`, with
`nbobjs*nbobjs` cells in 32 bits, and a raw matrix of floats of least cell `min`, diagonal
cell `(l_i − m, l_i − m)` of the record appended holds raw cell `(i, i)` over `min`. When every raw
diagonal cell is below the other cells of its row, `min` is one of them, so some diagonal
cell is `1`; any other is `1` only if its raw cell is `min` too. -/
theorem latency_diagonal_cells {root : TopoObj τ} {r : HwlocDistances α} {m : Nat} {min : α}
    (happ : hwlocSetupDistancesFromOsMatrix levels nbobjs objs osmatrix = some (some (root, r)))
    (hn : 0 < nbobjs) (hfit : nbobjs * nbobjs < 2 ^ 32)
    (hin : ∀ i < nbobjs, m ≤ logicalIndexAt levels objs i ∧ logicalIndexAt levels objs i < m + nbobjs)
    (hinj : ∀ i < nbobjs, ∀ j < nbobjs,
      logicalIndexAt levels objs i = logicalIndexAt levels objs j → i = j)
    (hfloat : ∀ i < nbobjs, ∀ j < nbobjs, osmatrix.getD (i * nbobjs + j) 0 ≤ fltMax)
    (hmem : ∃ i < nbobjs, ∃ j < nbobjs, osmatrix.getD (i * nbobjs + j) 0 = min)
    (hle : ∀ i < nbobjs, ∀ j < nbobjs, min ≤ osmatrix.getD (i * nbobjs + j) 0)
    (hdiag : ∀ i < nbobjs, ∀ j < nbobjs, i ≠ j →
      osmatrix.getD (i * nbobjs + i) 0 < osmatrix.getD (i * nbobjs + j) 0) :
    (∀ i < nbobjs, r.latency.getD ((logicalIndexAt levels objs i - m) * nbobjs +
        (logicalIndexAt levels objs i - m)) none = some (osmatrix.getD (i * nbobjs + i) 0 / min)) ∧
      (∃ i < nbobjs, r.latency.getD ((logicalIndexAt levels objs i - m) * nbobjs +
        (logicalIndexAt levels objs i - m)) none = some 1) ∧
      ∀ i < nbobjs, (r.latency.getD ((logicalIndexAt levels objs i - m) * nbobjs +
        (logicalIndexAt levels objs i - m)) none = some 1 ↔ osmatrix.getD (i * nbobjs + i) 0 = min) := by
  have hscan := scanMinMax_fst_of_least hfit hfloat hmem hle
  obtain ⟨-, -, hmin, -⟩ := (hwlocSetupDistancesFromOsMatrix_eq_some levels nbobjs objs osmatrix).1 happ
  rw [hscan] at hmin
  obtain ⟨-, h2, -, -, -, h6⟩ := hwlocSetupDistancesFromOsMatrix_interval levels nbobjs objs
    osmatrix happ hn hfit hin fun i j hi hj => hinj i hi j hj
  have hcell : ∀ i < nbobjs, r.latency.getD ((logicalIndexAt levels objs i - m) * nbobjs +
      (logicalIndexAt levels objs i - m)) none = some (osmatrix.getD (i * nbobjs + i) 0 / min) :=
    fun i hi => by rw [h6 i i hi hi, h2, hscan, osCell_eq_getD osmatrix hfit hi hi]
  refine ⟨hcell, ?_, fun i hi => by rw [hcell i hi, Option.some_inj, div_eq_one_iff_eq hmin]⟩
  obtain ⟨i, hi, j, hj, hm⟩ := hmem
  obtain rfl : i = j := by
    by_contra hij
    exact absurd (hle i hi i hi) (not_le.2 (hm ▸ hdiag i hi j hj hij))
  exact ⟨i, hi, by rw [hcell i hi, hm, div_self hmin]⟩

/-- Raw matrix `[[1, 5], [5, 2]]` over two objects in logical order. -/
theorem diagonal_cells_pair :
    ∃ root r, hwlocSetupDistancesFromOsMatrix exactCoverLevels 2 (puObjs 2) ([1, 5, 5, 2] : List ℚ) =
        some (some (root, r)) ∧
      (∀ i < 2, r.latency.getD ((logicalIndexAt exactCoverLevels (puObjs 2) i - 0) * 2 +
        (logicalIndexAt exactCoverLevels (puObjs 2) i - 0)) none =
          some (([1, 5, 5, 2] : List ℚ).getD (i * 2 + i) 0 / 1)) ∧
      (∃ i < 2, r.latency.getD ((logicalIndexAt exactCoverLevels (puObjs 2) i - 0) * 2 +
        (logicalIndexAt exactCoverLevels (puObjs 2) i - 0)) none = some 1) ∧
      ∀ i < 2, (r.latency.getD ((logicalIndexAt exactCoverLevels (puObjs 2) i - 0) * 2 +
        (logicalIndexAt exactCoverLevels (puObjs 2) i - 0)) none = some 1 ↔
          ([1, 5, 5, 2] : List ℚ).getD (i * 2 + i) 0 = 1) := by
  have hscan : (scanMinMax 2 ([1, 5, 5, 2] : List ℚ)).1 = 1 :=
    scanMinMax_fst_of_least (by norm_num) (by decide) ⟨0, by decide, 0, by decide, rfl⟩ (by decide)
  have happ := (hwlocSetupDistancesFromOsMatrix_eq_some exactCoverLevels 2 (puObjs 2)
    ([1, 5, 5, 2] : List ℚ)).2 ⟨rfl, rfl, by rw [hscan]; exact one_ne_zero, rfl⟩
  exact ⟨_, _, happ, latency_diagonal_cells exactCoverLevels 2 (puObjs 2) _ happ (by decide)
    (by norm_num) (by decide) (by decide) (by decide) ⟨0, by decide, 0, by decide, rfl⟩ (by decide)
    (by decide)⟩

/-- Raw matrix `[[1, 5], [5, 2]]`, symmetric, each diagonal cell below the rest of its row,
least cell `1`, over two objects in logical order: the second diagonal cell of the
normalised matrix is `2`. -/
theorem unequal_diagonal_latency :
    (∀ i < 2, ∀ j < 2, osCell 2 ([1, 5, 5, 2] : List ℚ) i j = osCell 2 [1, 5, 5, 2] j i) ∧
      (∀ i < 2, ∀ j < 2, i ≠ j → osCell 2 ([1, 5, 5, 2] : List ℚ) i i < osCell 2 [1, 5, 5, 2] i j) ∧
      (∀ i < 2, logicalIndexAt exactCoverLevels (puObjs 2) i = i) ∧
      ∃ root r, hwlocSetupDistancesFromOsMatrix exactCoverLevels 2 (puObjs 2) ([1, 5, 5, 2] : List ℚ) =
          some (some (root, r)) ∧ r.latencyBase = 1 ∧ r.latency.getD 3 none = some 2 := by
  have hlog : ∀ i < 2, logicalIndexAt exactCoverLevels (puObjs 2) i = i :=
    fun i hi => logicalIndexAt_puObjs hi (by norm_num)
  have hscan : (scanMinMax 2 ([1, 5, 5, 2] : List ℚ)).1 = 1 :=
    scanMinMax_fst_of_least (by norm_num) (by decide) ⟨0, by decide, 0, by decide, rfl⟩ (by decide)
  have happ := (hwlocSetupDistancesFromOsMatrix_eq_some exactCoverLevels 2 (puObjs 2)
    ([1, 5, 5, 2] : List ℚ)).2 ⟨rfl, rfl, by rw [hscan]; exact one_ne_zero, rfl⟩
  have hin : ∀ i < 2, 0 ≤ logicalIndexAt exactCoverLevels (puObjs 2) i ∧
      logicalIndexAt exactCoverLevels (puObjs 2) i < 0 + 2 := fun i hi => by rw [hlog i hi]; omega
  obtain ⟨-, h2, -, -, -, h6⟩ := hwlocSetupDistancesFromOsMatrix_interval exactCoverLevels 2
    (puObjs 2) _ happ (by decide) (by norm_num) hin fun i j hi hj h => by rwa [hlog i hi, hlog j hj] at h
  refine ⟨by decide, by decide, hlog, _, _, happ, h2.trans hscan, ?_⟩
  have h11 := h6 1 1 (by decide) (by decide)
  rw [hlog 1 (by decide), h2, hscan] at h11
  rw [show (3 : Nat) = (1 - 0) * 2 + (1 - 0) from rfl, h11]
  norm_num [osCell]

/-- **The stored latencies lie between `1` and `latency_max`, and are symmetric when the
raw matrix is.** For objects whose logical indexes are distinct and form an interval
`[m, m + nbobjs)`, with `nbobjs*nbobjs` cells in 32 bits, and a raw matrix of normal
positive floats (from `FLT_MIN` to `FLT_MAX`): every cell of the record's matrix holds a
value in `[1, latency_max]`, some cell holds `1` and some `latency_max`; and when the raw
matrix is symmetric, so is the record's. -/
theorem latency_range {root : TopoObj τ} {r : HwlocDistances α} {m : Nat}
    (happ : hwlocSetupDistancesFromOsMatrix levels nbobjs objs osmatrix = some (some (root, r)))
    (hn : 0 < nbobjs) (hfit : nbobjs * nbobjs < 2 ^ 32)
    (hin : ∀ i < nbobjs, m ≤ logicalIndexAt levels objs i ∧ logicalIndexAt levels objs i < m + nbobjs)
    (hinj : ∀ i < nbobjs, ∀ j < nbobjs,
      logicalIndexAt levels objs i = logicalIndexAt levels objs j → i = j)
    (hfloat : ∀ i < nbobjs, ∀ j < nbobjs,
      fltMin ≤ osmatrix.getD (i * nbobjs + j) 0 ∧ osmatrix.getD (i * nbobjs + j) 0 ≤ fltMax) :
    (∀ k < nbobjs * nbobjs, ∃ v, r.latency.getD k none = some v ∧ 1 ≤ v ∧ v ≤ r.latencyMax) ∧
      (∃ k < nbobjs * nbobjs, r.latency.getD k none = some 1) ∧
      (∃ k < nbobjs * nbobjs, r.latency.getD k none = some r.latencyMax) ∧
      ((∀ i < nbobjs, ∀ j < nbobjs,
          osmatrix.getD (i * nbobjs + j) 0 = osmatrix.getD (j * nbobjs + i) 0) →
        ∀ a < nbobjs, ∀ b < nbobjs,
          r.latency.getD (a * nbobjs + b) none = r.latency.getD (b * nbobjs + a) none) := by
  have hinj' : ∀ i j, i < nbobjs → j < nbobjs →
      logicalIndexAt levels objs i = logicalIndexAt levels objs j → i = j :=
    fun i j hi hj => hinj i hi j hj
  obtain ⟨-, hbase, hmax, -, -, hcell⟩ :=
    hwlocSetupDistancesFromOsMatrix_interval levels nbobjs objs osmatrix happ hn hfit hin hinj'
  obtain ⟨-, hmin2, hmin3⟩ := scanMinMax_fst nbobjs osmatrix
  obtain ⟨-, hmax2, hmax3⟩ := scanMinMax_snd nbobjs osmatrix
  have hcell0 := osCell_eq_getD osmatrix hfit hn hn
  -- the scan's min and max are cells, since every cell lies between FLT_MIN and FLT_MAX
  obtain ⟨i1, hi1, j1, hj1, hmin⟩ : ∃ i < nbobjs, ∃ j < nbobjs,
      (scanMinMax nbobjs osmatrix).1 = osCell nbobjs osmatrix i j := by
    rcases hmin3 with h | ⟨i, j, hi, hj, h⟩
    · refine ⟨0, hn, 0, hn, le_antisymm (hmin2 0 0 hn hn) ?_⟩
      rw [h, hcell0]; exact (hfloat 0 hn 0 hn).2
    · exact ⟨i, hi, j, hj, h⟩
  obtain ⟨i0, hi0, j0, hj0, hmaxc⟩ : ∃ i < nbobjs, ∃ j < nbobjs,
      (scanMinMax nbobjs osmatrix).2 = osCell nbobjs osmatrix i j := by
    rcases hmax3 with h | ⟨i, j, hi, hj, h⟩
    · refine ⟨0, hn, 0, hn, le_antisymm ?_ (hmax2 0 0 hn hn)⟩
      rw [h, hcell0]; exact (hfloat 0 hn 0 hn).1
    · exact ⟨i, hi, j, hj, h⟩
  have hpos : 0 < r.latencyBase := by
    rw [hbase, hmin, osCell_eq_getD osmatrix hfit hi1 hj1]
    exact lt_of_lt_of_le (by unfold fltMin; positivity) (hfloat i1 hi1 j1 hj1).1
  -- every offset below nbobjs is some object's, so every cell is some pair's
  have hoff : ∀ a < nbobjs, ∃ i < nbobjs, logicalIndexAt levels objs i - m = a := fun a ha => by
    obtain ⟨i, hi, h⟩ := exists_eq_of_interval hin hinj' ha
    exact ⟨i, hi, by omega⟩
  have hk : ∀ i < nbobjs, ∀ j < nbobjs, (logicalIndexAt levels objs i - m) * nbobjs +
      (logicalIndexAt levels objs j - m) < nbobjs * nbobjs := fun i hi j hj =>
    cell_index_lt (by have := hin i hi; omega) (by have := hin j hj; omega)
  refine ⟨fun k hk' => ?_, ⟨_, hk i1 hi1 j1 hj1, ?_⟩, ⟨_, hk i0 hi0 j0 hj0, ?_⟩,
    fun hsym a ha b hb => ?_⟩
  · obtain ⟨i, hi, hia⟩ := hoff (k / nbobjs) (Nat.div_lt_of_lt_mul hk')
    obtain ⟨j, hj, hjb⟩ := hoff (k % nbobjs) (Nat.mod_lt k hn)
    refine ⟨_, by rw [← hcell i j hi hj, hia, hjb, Nat.div_add_mod'], ?_, ?_⟩
    · rw [one_le_div hpos, hbase]; exact hmin2 i j hi hj
    · rw [hmax, ← hbase]
      exact div_le_div_of_nonneg_right (hmax2 i j hi hj) hpos.le
  · rw [hcell i1 j1 hi1 hj1, ← hmin, ← hbase, div_self hpos.ne']
  · rw [hcell i0 j0 hi0 hj0, hmax, ← hmaxc, hbase]
  · obtain ⟨i, hi, rfl⟩ := hoff a ha
    obtain ⟨j, hj, rfl⟩ := hoff b hb
    rw [hcell i j hi hj, hcell j i hj hi, osCell_eq_getD osmatrix hfit hi hj,
      osCell_eq_getD osmatrix hfit hj hi, hsym i hi j hj]

/-- Raw matrix `[[1, 3], [3, 2]]` over two objects in reversed logical order. -/
theorem latency_range_reversed_pair :
    ∃ root r, hwlocSetupDistancesFromOsMatrix exactCoverLevels 2 [puObj 1, puObj 0]
        ([1, 3, 3, 2] : List ℚ) = some (some (root, r)) ∧
      (∀ k < 2 * 2, ∃ v, r.latency.getD k none = some v ∧ 1 ≤ v ∧ v ≤ r.latencyMax) ∧
      (∃ k < 2 * 2, r.latency.getD k none = some 1) ∧
      (∃ k < 2 * 2, r.latency.getD k none = some r.latencyMax) ∧
      ((∀ i < 2, ∀ j < 2, ([1, 3, 3, 2] : List ℚ).getD (i * 2 + j) 0 =
          ([1, 3, 3, 2] : List ℚ).getD (j * 2 + i) 0) →
        ∀ a < 2, ∀ b < 2, r.latency.getD (a * 2 + b) none = r.latency.getD (b * 2 + a) none) := by
  have hscan : (scanMinMax 2 ([1, 3, 3, 2] : List ℚ)).1 = 1 :=
    scanMinMax_fst_of_least (by norm_num) (by decide) ⟨0, by decide, 0, by decide, rfl⟩ (by decide)
  have happ := (hwlocSetupDistancesFromOsMatrix_eq_some exactCoverLevels 2 [puObj 1, puObj 0]
    ([1, 3, 3, 2] : List ℚ)).2 ⟨rfl, rfl, by rw [hscan]; exact one_ne_zero, rfl⟩
  have hfloat : ∀ i < 2, ∀ j < 2, fltMin ≤ ([1, 3, 3, 2] : List ℚ).getD (i * 2 + j) 0 ∧
      ([1, 3, 3, 2] : List ℚ).getD (i * 2 + j) 0 ≤ fltMax := fun i hi j hj => by
    interval_cases i <;> interval_cases j <;> norm_num [fltMin, fltMax]
  have hin : ∀ i < 2, 0 ≤ logicalIndexAt exactCoverLevels [puObj 1, puObj 0] i ∧
      logicalIndexAt exactCoverLevels [puObj 1, puObj 0] i < 0 + 2 := by decide
  exact ⟨_, _, happ, latency_range exactCoverLevels 2 _ _ happ (by decide) (by norm_num) hin
    (by decide) hfloat⟩

end Interval

/-! ## The finalize loop -/

section Finalize

variable (levels : Levels τ) (typeDepthKnown : τ → Bool) (types : List τ)

omit [LinearOrderedField α] in
/-- `hwloc_finalize_logical_distances` calls the normaliser on a type exactly when it has
objects, a level, objects and distances. -/
theorem hwlocFinalizeLogicalDistances_eq_call {s : DistancesStore τ α} {t : τ} {nbobjs : Nat}
    {objs : List (TopoObj τ)} {distances : List α} :
    hwlocFinalizeLogicalDistances typeDepthKnown s t = some (some (nbobjs, objs, distances)) ↔
      (s t).nbobjs ≠ 0 ∧ typeDepthKnown t = true ∧ (s t).objs = some objs ∧
        (s t).distances = some distances ∧ nbobjs = (s t).nbobjs := by
  unfold hwlocFinalizeLogicalDistances
  constructor
  · intro h
    split_ifs at h with h1 h2
    · cases h
    · cases h
    · split at h
      · cases h
      · next objs' ho =>
        split at h
        · cases h
        · next d hd =>
          simp only [Option.some.injEq, Prod.mk.injEq] at h
          obtain ⟨rfl, rfl, rfl⟩ := h
          exact ⟨h1, by simpa using h2, ho, hd, rfl⟩
  · rintro ⟨h1, h2, ho, hd, rfl⟩
    simp [h1, h2, ho, hd]

/-- Every record the loop appends is the normaliser's record for one of the types. -/
theorem hwlocFinalizeLogicalDistancesRun_mem {s : DistancesStore τ α}
    {records : List (TopoObj τ × HwlocDistances α)}
    (h : hwlocFinalizeLogicalDistancesRun levels typeDepthKnown types s = some records) :
    ∀ p ∈ records, ∃ t ∈ types, ∃ objs distances,
      hwlocFinalizeLogicalDistances typeDepthKnown s t = some (some ((s t).nbobjs, objs, distances)) ∧
        hwlocSetupDistancesFromOsMatrix levels (s t).nbobjs objs distances = some (some p) := by
  refine foldlM_invariant (fun acc : List (TopoObj τ × HwlocDistances α) => ∀ p ∈ acc, ∃ t ∈ types,
      ∃ objs distances, hwlocFinalizeLogicalDistances typeDepthKnown s t =
        some (some ((s t).nbobjs, objs, distances)) ∧
        hwlocSetupDistancesFromOsMatrix levels (s t).nbobjs objs distances = some (some p))
    _ types [] records (fun _ h => nomatch h) (fun acc t acc' ht hacc hstep => ?_) h
  split at hstep
  · cases hstep
  · cases hstep; exact hacc
  · next nbobjs objs distances hcall =>
    obtain ⟨-, -, -, -, rfl⟩ := (hwlocFinalizeLogicalDistances_eq_call typeDepthKnown).1 hcall
    cases hsetup : hwlocSetupDistancesFromOsMatrix levels (s t).nbobjs objs distances with
    | none => rw [hsetup] at hstep; cases hstep
    | some o =>
      rw [hsetup] at hstep
      cases hstep
      intro p hp
      rcases List.mem_append.1 hp with hp | hp
      · exact hacc p hp
      · cases o with
        | none => cases hp
        | some q => exact ⟨t, ht, objs, distances, hcall, by rw [hsetup, List.mem_singleton.1 hp]⟩

/-- Where objects stand beside distances, the loop returns unless a covering lookup
fails. -/
theorem hwlocFinalizeLogicalDistancesRun_isSome {s : DistancesStore τ α}
    (hfresh : ∀ t objs, (s t).objs = some objs → (s t).distances.isSome) :
    (hwlocFinalizeLogicalDistancesRun levels typeDepthKnown types s).isSome ↔
      ∀ t ∈ types, ∀ objs distances,
        hwlocFinalizeLogicalDistances typeDepthKnown s t = some (some ((s t).nbobjs, objs, distances)) →
          (levels.getObjCoveringCpuset (objsCpuset (s t).nbobjs objs)).isSome := by
  refine foldlM_isSome _ _ (fun acc t => ?_) types []
  have hsome := hwlocFinalizeLogicalDistances_isSome (hfresh t) typeDepthKnown
  cases hcall : hwlocFinalizeLogicalDistances typeDepthKnown s t with
  | none => rw [hcall] at hsome; cases hsome
  | some o =>
    cases o with
    | none => simp
    | some args =>
      obtain ⟨nbobjs, objs, distances⟩ := args
      obtain ⟨-, -, -, -, rfl⟩ := (hwlocFinalizeLogicalDistances_eq_call typeDepthKnown).1 hcall
      simp only [Option.isSome_map', hwlocSetupDistancesFromOsMatrix_isSome, Option.some.injEq,
        Prod.mk.injEq, true_and]
      constructor
      · rintro h objs' distances' ⟨rfl, rfl⟩; exact h
      · intro h; exact h objs distances ⟨rfl, rfl⟩

end Finalize

/-- The load of `0,1:1,2,2,1` on two processing units, from the initial store. -/
def twoPuLoad : DistancesStore Unit ℚ :=
  hwlocLoadDistances strtofDecimal false (fun _ => some "0,1:1,2,2,1".toList)
    ⟨(), 2, {0, 1}, [puObj 0, puObj 1]⟩ hwlocTopologyDistancesInit

end Liblstopo
