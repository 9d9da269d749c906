import Liblstopo.Grouping.Clustering

/-!
# Groups from distances: validation, materialisation, factorisation, recursion

`hwloc_setup_groups_from_distances` and `hwloc__setup_groups_from_distances`
(distances.c, lines 435–562). The first validates the matrix and starts the recursion
at depth `0`; each level clusters its objects, creates one Group object per group, builds
the matrix of mean distances between groups, and recurses on the groups. An object the
clustering leaves at id `0` makes the factorisation add to row `groupids[i]-1 = UINT_MAX`
of the `nbgroups × nbgroups` array; the model stops the run there with `.overrun`, apart
from `.outOfFuel`, the failure of its own fuel.

- `validMatrix_iff`: the validation accepts exactly the symmetric matrices whose
  diagonal entries are below the entries right of them.
- `accumulateDistances_eq`, `factorizeDistances_mean`: the factorised matrix holds the
  mean distance between two groups when every object is grouped.
- `groupLevel_call_bounds`, `setupGroupsRec_ne_outOfFuel`: each recursive call receives
  between `2` and `nbobjs / 2` objects, so `⌊log₂ nbobjs⌋ + 1` levels suffice and the fuel
  never runs out.
-/

namespace Liblstopo

open Finset

variable {α : Type} [LinearOrderedField α]

/-! ## The model -/

/-- Lines 543–559: every entry right of the diagonal equals its mirror image and is
above the diagonal entry of its row. -/
def validMatrix (n : Nat) (d : DistMatrix α) : Bool :=
  (List.range n).all fun i => (List.range' (i + 1) (n - (i + 1))).all fun j =>
    d i j = d j i ∧ ¬ d i j ≤ d i i

/-- A Group object the code creates: `attr->group.depth`, its cpuset, and the positions,
among the objects of its level, of the objects whose cpusets it was built from (the
cpuset-covering insertion makes it their parent). -/
structure GroupObj where
  depth : Nat
  cpuset : Cpuset
  members : List Nat
deriving DecidableEq

/-- The objects `j < nbobjs` with `groupids[j] == i+1`, in order: the ones the loop of
lines 477–481 ORs into Group `i` and counts in `groupsizes[i]`. -/
def groupMembers (n : Nat) (ids : Nat → Nat) (i : Nat) : List Nat :=
  (List.range n).filter fun j => ids j = i + 1

/-- `groupsizes[i]`. -/
def groupSizes (n : Nat) (ids : Nat → Nat) (i : Nat) : Nat := (groupMembers n ids i).length

/-- `hwloc_bitmap_or` over the listed objects, from the zeroed bitmap. -/
def cpusetUnion (objs : Nat → Cpuset) (l : List Nat) : Cpuset :=
  l.foldl (fun s j => s ∪ objs j) ∅

theorem mem_cpusetUnion {objs : Nat → Cpuset} {l : List Nat} {x : Nat} :
    x ∈ cpusetUnion objs l ↔ ∃ j ∈ l, x ∈ objs j := by
  have h : ∀ (l : List Nat) (s : Cpuset),
      x ∈ l.foldl (fun s j => s ∪ objs j) s ↔ x ∈ s ∨ ∃ j ∈ l, x ∈ objs j := by
    intro l
    induction l with
    | nil => simp
    | cons j l ih =>
      intro s
      rw [List.foldl_cons, ih, Finset.mem_union]
      simp only [List.mem_cons, exists_eq_or_imp, or_assoc]
  simp [cpusetUnion, h]

/-- Lines 472–485: Group `i`, tagged with the recursion depth. -/
def makeGroup (n : Nat) (ids : Nat → Nat) (objs : Nat → Cpuset) (depth i : Nat) : GroupObj :=
  ⟨depth, cpusetUnion objs (groupMembers n ids i), groupMembers n ids i⟩

/-- `groupdistances[a][b] += v`. -/
def addCell (gd : DistMatrix α) (a b : Nat) (v : α) : DistMatrix α :=
  fun A B => if A = a ∧ B = b then gd A B + v else gd A B

/-- Lines 489–492: every `distances[i][j]` is added to the cell
`(groupids[i]-1, groupids[j]-1)`, an unsigned subtraction. The matrix is unbounded here:
`groupLevel` runs the loop only when every add lands in the `nbgroups × nbgroups` array
(`accumulateOverruns`). -/
def accumulateDistances (n : Nat) (ids : Nat → Nat) (d : DistMatrix α) : DistMatrix α :=
  (List.range n).foldl (fun gd i => (List.range n).foldl (fun gd j =>
    addCell gd (u32Pred (ids i)) (u32Pred (ids j)) (d i j)) gd) fun _ _ => 0

/-- Lines 488–495: the factorised matrix, each cell of the `nbgroups × nbgroups` block
divided by the product of the two group sizes (exact arithmetic). The code's product is
`unsigned`; it wraps only for two groups of `65536` members or more, beyond the matrices
the model of the store covers. -/
def factorizeDistances (n k : Nat) (ids : Nat → Nat) (d : DistMatrix α) : DistMatrix α :=
  fun A B => if A < k ∧ B < k then
    accumulateDistances n ids d A B / ((groupSizes n ids A * groupSizes n ids B : Nat) : α)
    else accumulateDistances n ids d A B

/-- How a run of `hwloc__setup_groups_from_distances` ends without its Groups: the model's
fuel runs out, or the factorisation adds to a cell outside the array
`groupdistances[nbgroups][nbgroups]` (line 492), where the code's behaviour is undefined. -/
inductive GroupingFailure
  | outOfFuel
  | overrun
  deriving DecidableEq, Repr

/-- Some add of lines 489–492 falls outside `groupdistances[nbgroups][nbgroups]`: the cell
`(groupids[i]-1, groupids[j]-1)` of a pair of objects, an unsigned subtraction, has a
coordinate not below `nbgroups`. -/
def accumulateOverruns (n k : Nat) (ids : Nat → Nat) : Bool :=
  (List.range n).any fun i => (List.range n).any fun j =>
    decide (k ≤ u32Pred (ids i) ∨ k ≤ u32Pred (ids j))

/-- One call of `hwloc__setup_groups_from_distances` up to its tail call: `.ok none` when
it returns without recursing (at most two objects, or fewer than two groups), otherwise
the Group objects it creates and the arguments of the recursive call (the groups as
objects, their count, their matrix). It fails when the clustering runs out of fuel, and
when the factorisation adds outside its array, which it does for an object the clustering
left at id `0`. -/
def groupLevel (n : Nat) (objs : Nat → Cpuset) (d : DistMatrix α) (depth : Nat) :
    Except GroupingFailure (Option (List GroupObj × Nat × (Nat → Cpuset) × DistMatrix α)) :=
  if n ≤ 2 then .ok none else
  match hwlocSetupGroupFromMinDistance n d with
  | none => .error .outOfFuel
  | some (k, ids) =>
    if k = 0 then .ok none else
    if k = 1 then .ok none else
    if accumulateOverruns n k ids then .error .overrun else
    .ok (some ((List.range k).map (makeGroup n ids objs depth), k,
      fun i => (makeGroup n ids objs depth i).cpuset, factorizeDistances n k ids d))

/-- `hwloc__setup_groups_from_distances`: the Group objects created by the call and all
its recursive calls, in creation order, or the failure of one of them; `fuel` bounds the
number of nested calls. -/
def hwlocSetupGroupsFromDistancesRec :
    Nat → Nat → (Nat → Cpuset) → DistMatrix α → Nat → Except GroupingFailure (List GroupObj)
  | 0, _, _, _, _ => .error .outOfFuel
  | fuel + 1, n, objs, d, depth =>
    match groupLevel n objs d depth with
    | .error e => .error e
    | .ok none => .ok []
    | .ok (some (groups, k, objs', d')) =>
      (hwlocSetupGroupsFromDistancesRec fuel k objs' d' (depth + 1)).map (groups ++ ·)

/-- `hwloc_setup_groups_from_distances`: no groups when `HWLOC_IGNORE_DISTANCES` is set
or the matrix fails validation; otherwise the recursion from depth `0`
(`nbobjs + 1` nested calls always suffice, see `setupGroupsRec_ne_outOfFuel`). -/
def hwlocSetupGroupsFromDistances (ignoreDistances : Bool) (n : Nat) (objs : Nat → Cpuset)
    (d : DistMatrix α) : Except GroupingFailure (List GroupObj) :=
  if ignoreDistances then .ok [] else
  if validMatrix n d then hwlocSetupGroupsFromDistancesRec (n + 1) n objs d 0 else .ok []

/-! ## Validation -/

/-- `validMatrix_iff`: the check compares each diagonal entry only with the entries right of
it; it accepts a matrix iff each such entry equals its mirror image and lies above the
diagonal entry of its row. -/
theorem validMatrix_iff (n : Nat) (d : DistMatrix α) :
    validMatrix n d = true ↔ ∀ i j, i < j → j < n → d i j = d j i ∧ d i i < d i j := by
  simp only [validMatrix, List.all_eq_true, List.mem_range, List.mem_range'_1,
    decide_eq_true_eq, not_le]
  constructor
  · intro h i j hij hj; exact h i (by omega) j ⟨hij, by omega⟩
  · intro h i _ j hj; exact h i j hj.1 (by omega)

/-- Four objects in two minimal pairs whose last diagonal entry, `100`, exceeds the
entries left of it in its row. -/
def skewDiagonalMatrix : DistMatrix ℚ := fun i j =>
  if i = j then (if i = 3 then 100 else 0)
  else if (i, j) ∈ [(0, 1), (1, 0), (2, 3), (3, 2)] then 1 else 2

set_option maxRecDepth 20000 in
/-- `skewDiagonalMatrix` passes the validation although `d[3][3] = 100` is not below
`d[3][2] = 1`, and the recursion creates two Group objects from it. -/
theorem skewDiagonal_grouped :
    validMatrix 4 skewDiagonalMatrix = true ∧ skewDiagonalMatrix 3 2 < skewDiagonalMatrix 3 3 ∧
      (hwlocSetupGroupsFromDistances false 4 (fun _ => ∅) skewDiagonalMatrix).map
        List.length = .ok 2 := by
  decide

/-! ## Factorisation -/

/-- The accumulation loop in closed form: cell `(A, B)` holds the sum of the entries whose
row and column ids, decremented as unsigned values, are `A` and `B`. -/
theorem accumulateDistances_eq (n : Nat) (ids : Nat → Nat) (d : DistMatrix α) :
    ∀ A B, accumulateDistances n ids d A B = ∑ i ∈ range n, ∑ j ∈ range n,
      if u32Pred (ids i) = A ∧ u32Pred (ids j) = B then d i j else 0 := by
  let S : Nat → Nat → Nat → Nat → α := fun i j A B =>
    ∑ j' ∈ range j, if u32Pred (ids i) = A ∧ u32Pred (ids j') = B then d i j' else 0
  have hrow : ∀ i (gd : DistMatrix α) A B, (List.range' 0 n).foldl (fun gd j =>
      addCell gd (u32Pred (ids i)) (u32Pred (ids j)) (d i j)) gd A B = gd A B + S i n A B := by
    intro i gd
    have h := forLoop_induction (fun j (gd' : DistMatrix α) => ∀ A B, gd' A B = gd A B + S i j A B)
      (fun gd j => addCell gd (u32Pred (ids i)) (u32Pred (ids j)) (d i j)) n 0 gd
      (fun A B => by simp [S]) fun j gd' _ _ (h : ∀ A B, gd' A B = gd A B + S i j A B) A B => by
        simp only [addCell, S, sum_range_succ]
        by_cases hc : u32Pred (ids i) = A ∧ u32Pred (ids j) = B
        · rw [if_pos ⟨hc.1.symm, hc.2.symm⟩, if_pos hc, h, add_assoc]
        · rw [if_neg fun h' => hc ⟨h'.1.symm, h'.2.symm⟩, if_neg hc, h, add_zero]
    simpa using h
  have h := forLoop_induction (fun i (gd : DistMatrix α) => ∀ A B, gd A B = ∑ i' ∈ range i, S i' n A B)
    (fun gd i => (List.range' 0 n).foldl (fun gd j =>
      addCell gd (u32Pred (ids i)) (u32Pred (ids j)) (d i j)) gd) n 0 (fun _ _ => 0)
    (fun A B => by simp) fun i gd _ _ (h : ∀ A B, gd A B = ∑ i' ∈ range i, S i' n A B) A B => by
      simp only [hrow, h, sum_range_succ]
  simpa [accumulateDistances, List.range_eq_range'] using h

theorem groupSizes_eq_card (n : Nat) (ids : Nat → Nat) (A : Nat) :
    groupSizes n ids A = (members ids n (A + 1)).card := rfl

theorem accumulateOverruns_iff {n k : Nat} {ids : Nat → Nat} :
    accumulateOverruns n k ids = true ↔ ∃ i < n, k ≤ u32Pred (ids i) := by
  simp only [accumulateOverruns, List.any_eq_true, List.mem_range, decide_eq_true_eq]
  constructor
  · rintro ⟨i, hi, j, hj, h | h⟩
    exacts [⟨i, hi, h⟩, ⟨j, hj, h⟩]
  · rintro ⟨i, hi, h⟩
    exact ⟨i, hi, i, hi, Or.inl h⟩

/-- With every object grouped, the factorised cell of groups `A, B < nbgroups` is the sum
of the distances between their members over the product of the two group sizes. -/
theorem factorizeDistances_eq_sum {n k : Nat} {ids : Nat → Nat} (d : DistMatrix α)
    (hids : ∀ i < n, 0 < ids i) {A B : Nat} (hA : A < k) (hB : B < k) :
    factorizeDistances n k ids d A B =
      (∑ i ∈ members ids n (A + 1), ∑ j ∈ members ids n (B + 1), d i j) /
        ((groupSizes n ids A * groupSizes n ids B : Nat) : α) := by
  have hu : ∀ i ∈ range n, ∀ A, u32Pred (ids i) = A ↔ ids i = A + 1 := fun i hi A => by
    have := hids i (mem_range.1 hi)
    rw [u32Pred_of_pos this]; constructor <;> intro <;> omega
  rw [factorizeDistances, if_pos ⟨hA, hB⟩, accumulateDistances_eq, members, sum_filter]
  refine congrArg (· / _) (sum_congr rfl fun i hi => ?_)
  rw [members, sum_filter]
  by_cases hA : ids i = A + 1
  · rw [if_pos hA]
    exact sum_congr rfl fun j hj => by simp only [hu i hi, hu j hj]; simp [hA]
  · rw [if_neg hA]
    exact sum_eq_zero fun j _ => by simp only [hu i hi, hA, false_and, if_false]

/-- **The factorised matrix holds mean distances.** When every object carries an id
(`groupids[i] ≥ 1`), `groupsizes[A]` counts the objects with id `A + 1`, and for groups
`A, B < nbgroups` the factorised cell `(A, B)` is the sum of `distances[i][j]` over `i`
in group `A` and `j` in group `B`, divided by the product of the two sizes; so the
factorised matrix is symmetric whenever the input matrix is. -/
theorem factorizeDistances_mean (n k : Nat) (ids : Nat → Nat) (d : DistMatrix α)
    (hids : ∀ i < n, 0 < ids i) :
    (∀ A, groupSizes n ids A = (members ids n (A + 1)).card) ∧
    (∀ A B, A < k → B < k → factorizeDistances n k ids d A B =
      (∑ i ∈ members ids n (A + 1), ∑ j ∈ members ids n (B + 1), d i j) /
        ((groupSizes n ids A * groupSizes n ids B : Nat) : α)) ∧
    ((∀ i j, d i j = d j i) → ∀ A B, A < k → B < k →
      factorizeDistances n k ids d A B = factorizeDistances n k ids d B A) := by
  refine ⟨groupSizes_eq_card n ids, fun A B hA hB => factorizeDistances_eq_sum d hids hA hB,
    fun hd A B hA hB => ?_⟩
  rw [factorizeDistances_eq_sum d hids hA hB, factorizeDistances_eq_sum d hids hB hA, sum_comm,
    Nat.mul_comm]
  simp only [hd]

/-- Objects `0, 1` in group `1` and `2, 3` in group `2`: the factorised cell between the two
groups is the mean of the four distances between their members. -/
theorem factorizeDistances_mean_two_pairs :
    (∀ i < 4, 0 < i / 2 + 1) ∧
      factorizeDistances 4 2 (· / 2 + 1) (fun i j => ((i + j : Nat) : ℚ)) 0 1 =
        (∑ i ∈ members (· / 2 + 1) 4 (0 + 1), ∑ j ∈ members (· / 2 + 1) 4 (1 + 1),
          ((i + j : Nat) : ℚ)) /
          ((groupSizes 4 (· / 2 + 1) 0 * groupSizes 4 (· / 2 + 1) 1 : Nat) : ℚ) :=
  ⟨by decide, (factorizeDistances_mean 4 2 (· / 2 + 1) (fun i j => ((i + j : Nat) : ℚ))
    (by decide)).2.1 0 1 (by decide) (by decide)⟩

/-- Two pairs at the minimal distance `1` and a fifth object at distance `2` from all
others. -/
def lonerMatrix : DistMatrix ℚ := fun i j =>
  if i = j then 0 else if (i, j) ∈ [(0, 1), (1, 0), (2, 3), (3, 2)] then 1 else 2

set_option maxRecDepth 20000 in
/-- `lonerMatrix` passes the validation and clusters into two groups with object `4` left
at id `0`; the row `groupids[4]-1` that would receive `distances[4][j]` is `4294967295`,
outside the `2 × 2` array, so the level's factorisation, and the run, fail there. -/
theorem loner_escapes_factorisation :
    validMatrix 5 lonerMatrix = true ∧
      (hwlocSetupGroupFromMinDistance 5 lonerMatrix).map
        (fun r => (r.1, (List.range 5).map r.2, u32Pred (r.2 4))) =
          some (2, [1, 1, 2, 2, 0], 4294967295) ∧
      (groupLevel 5 (fun _ => ∅) lonerMatrix 0).map (Option.map fun x => x.2.1) =
        .error .overrun ∧
      hwlocSetupGroupsFromDistances false 5 (fun _ => ∅) lonerMatrix = .error .overrun := by
  decide

/-! ## The recursion -/

/-- What a call that recurses does: it had more than two objects, clustered them into
`k ≥ 2` groups of ids `ids` with no add of the factorisation outside its array, created
their Groups, and hands on their cpusets and the factorised matrix. -/
theorem groupLevel_eq_recurse {n depth k : Nat} {objs objs' : Nat → Cpuset}
    {d d' : DistMatrix α} {groups : List GroupObj}
    (h : groupLevel n objs d depth = .ok (some (groups, k, objs', d'))) :
    2 < n ∧ ∃ ids, hwlocSetupGroupFromMinDistance n d = some (k, ids) ∧ 2 ≤ k ∧
      accumulateOverruns n k ids = false ∧
      groups = (List.range k).map (makeGroup n ids objs depth) ∧
      objs' = (fun i => (makeGroup n ids objs depth i).cpuset) ∧ d' = factorizeDistances n k ids d := by
  unfold groupLevel at h
  split at h
  · cases h
  obtain ⟨k', ids, hk, -⟩ := hwlocSetupGroupFromMinDistance_spec n d
  rw [hk] at h
  dsimp only at h
  split_ifs at h with h0 h1 hov <;> cases h
  exact ⟨by omega, ids, hk, by omega, by simpa using hov, rfl, rfl, rfl⟩

/-- A level fails only at the factorisation: the clustering never runs out of fuel. -/
theorem groupLevel_ne_outOfFuel (n : Nat) (objs : Nat → Cpuset) (d : DistMatrix α)
    (depth : Nat) : groupLevel n objs d depth ≠ .error .outOfFuel := by
  unfold groupLevel
  split
  · exact fun h => nomatch h
  · obtain ⟨k, ids, h, -⟩ := hwlocSetupGroupFromMinDistance_spec n d
    rw [h]
    dsimp only
    split_ifs <;> exact fun h => nomatch h

/-- `groupLevel_call_bounds`: a call that recurses was given more than two objects and
hands between `2` and `nbobjs / 2` of them (its groups) to the recursive call. -/
theorem groupLevel_call_bounds {n depth m : Nat} {objs objs' : Nat → Cpuset}
    {d d' : DistMatrix α} {groups : List GroupObj}
    (h : groupLevel n objs d depth = .ok (some (groups, m, objs', d'))) :
    2 < n ∧ 2 ≤ m ∧ m ≤ n / 2 := by
  obtain ⟨h3, ids, hk, h2, -⟩ := groupLevel_eq_recurse h
  obtain ⟨k, ids', hk', -, -, hmem⟩ := hwlocSetupGroupFromMinDistance_spec n d
  rw [hk] at hk'
  obtain ⟨rfl, rfl⟩ := Prod.mk.inj (Option.some.inj hk')
  have := two_mul_le_of_members hmem
  exact ⟨h3, h2, by omega⟩

/-- `nbobjs < 2^(fuel+1)` objects need at most `fuel` nested calls. -/
theorem setupGroupsRec_ne_outOfFuel : ∀ (fuel n : Nat) (objs : Nat → Cpuset)
    (d : DistMatrix α) (depth : Nat), 0 < fuel → n < 2 ^ (fuel + 1) →
      hwlocSetupGroupsFromDistancesRec fuel n objs d depth ≠ .error .outOfFuel
  | 0, _, _, _, _, h, _ => absurd h (lt_irrefl 0)
  | fuel + 1, n, objs, d, depth, _, hn => by
    have hl0 := groupLevel_ne_outOfFuel n objs d depth
    rw [hwlocSetupGroupsFromDistancesRec]
    cases hl : groupLevel n objs d depth with
    | error e =>
      rw [hl] at hl0
      exact fun h => hl0 (by cases h; rfl)
    | ok l =>
      rcases l with _ | ⟨groups, m, objs', d'⟩
      · exact fun h => nomatch h
      · obtain ⟨-, h2, hm⟩ := groupLevel_call_bounds hl
        have hfuel : 0 < fuel := by
          rcases Nat.eq_zero_or_pos fuel with rfl | h
          · simp at hn; omega
          · exact h
        rw [pow_succ] at hn
        dsimp only
        rw [Ne, except_map_eq_error]
        exact setupGroupsRec_ne_outOfFuel fuel m objs' d' (depth + 1) hfuel (by omega)

theorem setupGroupsRec_mono : ∀ {fuel fuel' n depth : Nat} {objs : Nat → Cpuset}
    {d : DistMatrix α}, fuel ≤ fuel' →
      hwlocSetupGroupsFromDistancesRec fuel n objs d depth ≠ .error .outOfFuel →
      hwlocSetupGroupsFromDistancesRec fuel' n objs d depth =
        hwlocSetupGroupsFromDistancesRec fuel n objs d depth
  | 0, _, _, _, _, _, _, h => absurd rfl h
  | fuel + 1, fuel' + 1, n, depth, objs, d, hle, h => by
    simp only [hwlocSetupGroupsFromDistancesRec] at h ⊢
    cases hl : groupLevel n objs d depth with
    | error e => rfl
    | ok l =>
      rcases l with _ | ⟨groups, m, objs', d'⟩
      · rfl
      · rw [hl] at h
        dsimp only at h ⊢
        rw [Ne, except_map_eq_error] at h
        rw [setupGroupsRec_mono (by omega) h]

/-- `hwloc_setup_groups_from_distances` never runs out of the model's fuel: it returns its
Groups, or fails at the factorisation of some level. -/
theorem hwlocSetupGroupsFromDistances_ne_outOfFuel (ignoreDistances : Bool) (n : Nat)
    (objs : Nat → Cpuset) (d : DistMatrix α) :
    hwlocSetupGroupsFromDistances ignoreDistances n objs d ≠ .error .outOfFuel := by
  unfold hwlocSetupGroupsFromDistances
  split_ifs
  · exact fun h => nomatch h
  · exact setupGroupsRec_ne_outOfFuel (n + 1) n objs d 0 (Nat.succ_pos n)
      ((Nat.lt_two_pow n).trans_le (Nat.pow_le_pow_right (by norm_num) (by omega)))
  · exact fun h => nomatch h

theorem log_two_le_self (n : Nat) : Nat.log 2 n ≤ n := by
  rcases Nat.eq_zero_or_pos n with rfl | hn
  · simp
  · exact ((Nat.lt_pow_self one_lt_two _).trans_le (Nat.pow_log_le_self 2 hn.ne')).le

/-- **Every level at least halves the objects.** For every matrix: a rescan after which
the `while` loop goes on has given the group id to an object that had none;
`hwloc_setup_group_from_min_distance` returns `k` with every id in `0..k` and each id of
`1..k` carried by at least two objects, so `k ≤ ⌊nbobjs/2⌋`; every recursive call of
`hwloc__setup_groups_from_distances` receives between `2` and `⌊nbobjs/2⌋` objects; and
the recursion stops within `⌊log₂ nbobjs⌋ + 1` nested calls (depths `0..⌊log₂ nbobjs⌋`):
with that many the model's fuel never runs out, and more change nothing. -/
theorem groupings_halve_each_level (n : Nat) (d : DistMatrix α) (objs : Nat → Cpuset)
    (depth : Nat) :
    (∀ groupid firstfound f (e : Expansion),
      (rescan n d (minDistance n d) (groupid + 1) firstfound e).newfirstfound = some f →
      f < n ∧ e.groupids f = 0 ∧
        (rescan n d (minDistance n d) (groupid + 1) firstfound e).groupids f ≠ 0) ∧
    (∃ k ids, hwlocSetupGroupFromMinDistance n d = some (k, ids) ∧ (∀ j, ids j ≤ k) ∧
      (∀ c, 0 < c → c ≤ k → 2 ≤ (members ids n c).card) ∧ k ≤ n / 2) ∧
    (∀ groups m objs' d', groupLevel n objs d depth = .ok (some (groups, m, objs', d')) →
      2 ≤ m ∧ m ≤ n / 2) ∧
    hwlocSetupGroupsFromDistancesRec (Nat.log 2 n + 1) n objs d depth ≠ .error .outOfFuel ∧
      hwlocSetupGroupsFromDistancesRec (n + 1) n objs d depth =
        hwlocSetupGroupsFromDistancesRec (Nat.log 2 n + 1) n objs d depth := by
  refine ⟨fun groupid firstfound f e hf => ?_, ?_,
    fun groups m objs' d' h => (groupLevel_call_bounds h).2, ?_⟩
  · have hr : RescanFrame n (groupid + 1) e
        (rescan n d (minDistance n d) (groupid + 1) firstfound e) :=
      rescan_frame (Nat.succ_pos groupid) firstfound e
    obtain ⟨hn, h0, hg⟩ := hr.2 f hf
    exact ⟨hn, h0, by rw [hg]; exact Nat.succ_ne_zero groupid⟩
  · obtain ⟨k, ids, h, hle, -, h2⟩ := hwlocSetupGroupFromMinDistance_spec n d
    exact ⟨k, ids, h, hle, h2, by have := two_mul_le_of_members h2; omega⟩
  · have hn : n < 2 ^ (Nat.log 2 n + 1 + 1) := (Nat.lt_pow_succ_log_self one_lt_two n).trans_le
      (Nat.pow_le_pow_right two_pos (Nat.le_succ _))
    have hr := setupGroupsRec_ne_outOfFuel (Nat.log 2 n + 1) n objs d depth (Nat.succ_pos _) hn
    exact ⟨hr, setupGroupsRec_mono (by have := log_two_le_self n; omega) hr⟩

end Liblstopo
