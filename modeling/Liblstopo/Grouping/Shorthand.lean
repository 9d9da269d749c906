import Liblstopo.Grouping.Blocks
import Liblstopo.Grouping.Engine
import Liblstopo.Distances.Parse

/-!
# Grouping the matrices of the `X*Y*Z` shorthand

The shorthand of `hwloc_get_type_distances_from_string` fills cell `(i, j)` with `1` on
the diagonal, `2` within a block of `Z` objects, `4` within a block of `Y·Z`, and `8`
elsewhere. At every level of the recursion the minimal links of such a matrix are
exactly the pairs inside the blocks of that level (`BlockMinimal`), so each level groups
the blocks, and the factorised matrix of the blocks has the same shape one level up.

- `groupLevel_blockMinimal`: one level on such a matrix;
- `shorthandDistances_cell`: the generator writes the cell rule when its `nbobjs*nbobjs`
  cells fit in 32 bits.
-/

namespace Liblstopo

open Finset

variable {α : Type} [LinearOrderedField α]

/-- The Group objects of a level of `m` blocks of `z` objects: Group `a` is built from the
objects `a·z .. a·z+z-1`. -/
def blockGroups (z m : Nat) (objs : Nat → Cpuset) (depth : Nat) : List GroupObj :=
  (List.range m).map fun a =>
    ⟨depth, cpusetUnion objs (List.range' (a * z) z), List.range' (a * z) z⟩

/-- Off the diagonal, the entries within blocks of `z` objects are `lo`, those across
blocks above `lo`. -/
structure BlockMinimal (n z : Nat) (lo : α) (d : DistMatrix α) : Prop where
  within : ∀ i j, i < n → j < n → i ≠ j → i / z = j / z → d i j = lo
  across : ∀ i j, i < n → j < n → i / z ≠ j / z → lo < d i j

/-! ## Blocks of consecutive objects -/

section Blocks

variable {n m z : Nat}

theorem div_lt_of_lt_mul {j : Nat} (hn : n = m * z) (hj : j < n) : j / z < m :=
  Nat.div_lt_of_lt_mul (by rw [Nat.mul_comm]; omega)

theorem blockIds_eq_succ {a j : Nat} (hn : n = m * z) (ha : a < m) :
    blockIds n z m j = a + 1 ↔ j < n ∧ j / z = a := by
  unfold blockIds
  split
  · next h => constructor <;> intro h' <;> omega
  · next h =>
    constructor
    · intro h'; omega
    · rintro ⟨hj, rfl⟩; exact absurd ⟨hj, div_lt_of_lt_mul hn hj⟩ h

theorem blockIds_pos {j : Nat} (hn : n = m * z) (hj : j < n) : 0 < blockIds n z m j := by
  simp [blockIds, hj, div_lt_of_lt_mul hn hj]

/-- The objects with id `a + 1` are those of block `a`, in order. -/
theorem groupMembers_blockIds {a : Nat} (hn : n = m * z) (hz : 0 < z) (ha : a < m) :
    groupMembers n (blockIds n z m) a = List.range' (a * z) z := by
  have hle : (a + 1) * z ≤ n := hn ▸ Nat.mul_le_mul_right z ha
  rw [Nat.succ_mul] at hle
  have hsplit : List.range n = List.range' 0 (a * z) ++ (List.range' (a * z) z ++
      List.range' (a * z + z) (n - (a * z + z))) := by
    have h0 := List.range'_append_1 0 (a * z) (n - a * z)
    rw [Nat.zero_add, show n - a * z + a * z = n by omega] at h0
    rw [List.range'_append_1, List.range_eq_range', ← h0]
    congr 2; omega
  have hblock : ∀ j, j / z = a ↔ a * z ≤ j ∧ j < a * z + z := fun j => by
    constructor
    · rintro rfl
      have h1 := Nat.div_add_mod j z
      have h2 := Nat.mod_lt j hz
      rw [Nat.mul_comm] at h1
      omega
    · rintro ⟨h1, h2⟩
      exact le_antisymm
        (Nat.lt_succ_iff.1 ((Nat.div_lt_iff_lt_mul hz).2 (by rw [Nat.succ_mul]; exact h2)))
        ((Nat.le_div_iff_mul_le hz).2 h1)
  rw [groupMembers, hsplit, List.filter_append, List.filter_append,
    List.filter_eq_nil_iff.2 fun j hj => ?_, List.filter_eq_self.2 fun j hj => ?_,
    List.filter_eq_nil_iff.2 fun j hj => ?_, List.nil_append, List.append_nil]
  all_goals
    rw [List.mem_range'_1] at hj
    simp only [decide_eq_true_eq, blockIds_eq_succ hn ha, hblock]
    omega

theorem cpusetUnion_congr {objs objs' : Nat → Cpuset} {l : List Nat}
    (h : ∀ j ∈ l, objs j = objs' j) : cpusetUnion objs l = cpusetUnion objs' l :=
  List.foldl_ext _ _ _ fun _ j hj => by rw [h j hj]

theorem makeGroups_blocks (hn : n = m * z) (hz : 0 < z) (objs : Nat → Cpuset) (depth : Nat) :
    (List.range m).map (makeGroup n (blockIds n z m) objs depth) = blockGroups z m objs depth :=
  List.map_congr_left fun a ha => by
    rw [makeGroup, groupMembers_blockIds hn hz (List.mem_range.1 ha)]

theorem accumulateOverruns_blockIds (hn : n = m * z) :
    accumulateOverruns n m (blockIds n z m) = false := by
  rw [Bool.eq_false_iff, Ne, accumulateOverruns_iff]
  rintro ⟨j, hj, hle⟩
  rw [blockIds, if_pos ⟨hj, div_lt_of_lt_mul hn hj⟩, u32Pred_of_pos (Nat.succ_pos _),
    Nat.succ_sub_one] at hle
  exact absurd (div_lt_of_lt_mul hn hj) (not_lt.2 hle)

theorem mem_members_blockIds {a i : Nat} (hn : n = m * z) (ha : a < m) :
    i ∈ members (blockIds n z m) n (a + 1) ↔ i < n ∧ i / z = a := by
  rw [mem_members, blockIds_eq_succ hn ha]
  exact ⟨fun h => h.2, fun h => ⟨h.1, h⟩⟩

theorem card_members_blockIds {a : Nat} (hn : n = m * z) (hz : 0 < z) (ha : a < m) :
    (members (blockIds n z m) n (a + 1)).card = z := by
  rw [← groupSizes_eq_card, groupSizes, groupMembers_blockIds hn hz ha, List.length_range']

/-- The factorised cell of two blocks between which the matrix is constant holds that
constant. -/
theorem factorizeDistances_blocks_const {d : DistMatrix α} {c : α} {A B : Nat}
    (hn : n = m * z) (hz : 0 < z) (hA : A < m) (hB : B < m)
    (hc : ∀ i j, i < n → j < n → i / z = A → j / z = B → d i j = c) :
    factorizeDistances n m (blockIds n z m) d A B = c := by
  have hsum : ∑ i ∈ members (blockIds n z m) n (A + 1), ∑ j ∈ members (blockIds n z m) n (B + 1),
      d i j = ∑ _i ∈ members (blockIds n z m) n (A + 1), ∑ _j ∈ members (blockIds n z m) n (B + 1),
        c :=
    sum_congr rfl fun i hi => sum_congr rfl fun j hj => by
      rw [mem_members_blockIds hn hA] at hi
      rw [mem_members_blockIds hn hB] at hj
      exact hc i j hi.1 hj.1 hi.2 hj.2
  have hz' : (z : α) ≠ 0 := Nat.cast_ne_zero.2 (by omega)
  rw [factorizeDistances_eq_sum d (fun i hi => blockIds_pos hn hi) hA hB, hsum, sum_const, sum_const,
    groupSizes_eq_card, groupSizes_eq_card]
  simp only [card_members_blockIds hn hz hA, card_members_blockIds hn hz hB, nsmul_eq_mul,
    Nat.cast_mul]
  rw [← mul_assoc, mul_comm ((z : α) * z) c, mul_div_assoc, div_self (mul_ne_zero hz' hz'), mul_one]

end Blocks

/-! ## One level -/

section Level

variable {n m z : Nat} {lo : α} {d : DistMatrix α}

theorem BlockMinimal.minDistance_eq_lo (h : BlockMinimal n z lo d) (hz : 2 ≤ z) (hn : 2 ≤ n)
    (hlo : lo < fltMax) : minDistance n d = lo := by
  have h01 : 0 / z = 1 / z := by rw [Nat.zero_div, Nat.div_eq_of_lt (by omega)]
  refine minDistance_eq Nat.zero_lt_one hn (h.within 0 1 (by omega) hn (by omega) h01)
    (fun a b hab hb => ?_) hlo
  by_cases hs : a / z = b / z
  · exact le_of_eq (h.within a b (by omega) hb (by omega) hs).symm
  · exact le_of_lt (h.across a b (by omega) hb hs)

theorem BlockMinimal.edge (h : BlockMinimal n z lo d) (hmin : minDistance n d = lo) :
    ∀ i j, i < n → j < n → i ≠ j → (d i j = minDistance n d ↔ i / z = j / z) :=
  fun i j hi hj hij => by
    rw [hmin]
    exact ⟨fun heq => by_contra fun hne => (h.across i j hi hj hne).ne' heq, h.within i j hi hj hij⟩

theorem blockMinimal_one_block {c : α} (h : ∀ A B, A < n → B < n → A ≠ B → d A B = c) :
    BlockMinimal n n c d :=
  ⟨fun A B hA hB hAB _ => h A B hA hB hAB, fun A B hA hB hs =>
    absurd (by rw [Nat.div_eq_of_lt hA, Nat.div_eq_of_lt hB]) hs⟩

/-- **One level of blocks.** On a block-minimal matrix of `m ≥ 1` blocks of `z ≥ 2`
objects, a call of `hwloc__setup_groups_from_distances` creates nothing when there is
one block, and otherwise one Group per block, then recurses on the `m` Groups with the
factorised matrix. -/
theorem groupLevel_blockMinimal (h : BlockMinimal n z lo d) (hz : 2 ≤ z) (hn : n = m * z)
    (hm : 1 ≤ m) (hlo : lo < fltMax) (objs : Nat → Cpuset) (depth : Nat) :
    groupLevel n objs d depth = if m = 1 then .ok none else
      .ok (some (blockGroups z m objs depth, m,
        fun i => cpusetUnion objs (groupMembers n (blockIds n z m) i),
        factorizeDistances n m (blockIds n z m) d)) := by
  have hn2 : 2 ≤ n := by have := Nat.mul_le_mul hm hz; omega
  have hmin := h.minDistance_eq_lo hz hn2 hlo
  have hblocks := hwlocSetupGroupFromMinDistance_blocks hz hn (h.edge hmin) (hmin ▸ hlo.ne)
  unfold groupLevel
  by_cases h2 : n ≤ 2
  · have hm1 : m = 1 := by
      by_contra hm1
      have := Nat.mul_le_mul (show 2 ≤ m by omega) hz; omega
    rw [if_pos h2, if_pos hm1]
  · rw [if_neg h2, hblocks]
    dsimp only
    rw [if_neg (show m ≠ 0 by omega)]
    by_cases hm1 : m = 1
    · rw [if_pos hm1, if_pos hm1]
    · rw [if_neg hm1, if_neg hm1, accumulateOverruns_blockIds hn, if_neg Bool.false_ne_true,
        makeGroups_blocks hn (by omega)]
      rfl

end Level

/-! ## The shorthand's matrices -/

theorem shorthand_values_lt : (1 : α) < 2 ∧ (2 : α) < 4 ∧ (4 : α) < 8 :=
  ⟨by exact_mod_cast (show 1 < 2 by decide), by exact_mod_cast (show 2 < 4 by decide),
    by exact_mod_cast (show 4 < 8 by decide)⟩

theorem groupingDistance_comm (y z i j : Nat) :
    (groupingDistance y z i j : α) = groupingDistance y z j i := by
  simp only [groupingDistance, @eq_comm _ i j, @eq_comm _ (i / z) (j / z),
    @eq_comm _ (i / z / y) (j / z / y)]

theorem groupingDistance_of_ne {y z i j : Nat} (hij : i ≠ j) :
    (groupingDistance y z i j : α) =
      if i / z = j / z then 2 else if i / z / y = j / z / y then 4 else 8 :=
  if_neg hij

/-- The validation accepts the shorthand's matrices: they are symmetric, with `1` on the
diagonal and more elsewhere. -/
theorem validMatrix_shorthand {n y z : Nat} {d : DistMatrix α}
    (hagree : ∀ i j, i < n → j < n → d i j = groupingDistance y z i j) : validMatrix n d = true := by
  refine (validMatrix_iff n d).2 fun i j hij hj => ?_
  rw [hagree i j (by omega) hj, hagree j i hj (by omega), hagree i i (by omega) (by omega),
    groupingDistance_comm y z j i, groupingDistance_of_ne (by omega)]
  obtain ⟨h12, h24, h48⟩ : (1 : α) < 2 ∧ (2 : α) < 4 ∧ (4 : α) < 8 := shorthand_values_lt
  refine ⟨rfl, ?_⟩
  simp only [groupingDistance, if_true]
  split_ifs
  · exact h12
  · exact h12.trans h24
  · exact (h12.trans h24).trans h48

section Shorthand

variable {x y z : Nat} {d : DistMatrix α}

/-- Level `0` of `X*Y*Z`: the minimal links are the pairs within a block of `z`. -/
theorem blockMinimal_level0
    (hagree : ∀ i j, i < x * y * z → j < x * y * z → d i j = groupingDistance y z i j) :
    BlockMinimal (x * y * z) z 2 d := by
  refine ⟨fun i j hi hj hij hs => ?_, fun i j hi hj hs => ?_⟩
  · rw [hagree i j hi hj, groupingDistance_of_ne hij, if_pos hs]
  · obtain ⟨-, h24, h48⟩ : (1 : α) < 2 ∧ (2 : α) < 4 ∧ (4 : α) < 8 := shorthand_values_lt
    rw [hagree i j hi hj, groupingDistance_of_ne fun h => hs (by rw [h]), if_neg hs]
    split_ifs
    · exact h24
    · exact h24.trans h48

/-- Level `1` of `X*Y*Z`: between two distinct blocks of `z` the factorised matrix holds
`4` within a block of `y` blocks and `8` across. -/
theorem factorized_level1 (hz : 2 ≤ z)
    (hagree : ∀ i j, i < x * y * z → j < x * y * z → d i j = groupingDistance y z i j)
    {A B : Nat} (hA : A < x * y) (hB : B < x * y) (hAB : A ≠ B) :
    factorizeDistances (x * y * z) (x * y) (blockIds (x * y * z) z (x * y)) d A B =
      if A / y = B / y then 4 else 8 :=
  factorizeDistances_blocks_const rfl (by omega) hA hB fun i j hi hj hiA hjB => by
    rw [hagree i j hi hj, groupingDistance_of_ne fun h => hAB (by rw [← hiA, ← hjB, h]),
      if_neg (by rw [hiA, hjB]; exact hAB), hiA, hjB]

/-- Level `1` of `X*Y*Z`: the minimal links between the blocks of `z` are those within a
block of `y` of them. -/
theorem blockMinimal_level1 (hz : 2 ≤ z)
    (hagree : ∀ i j, i < x * y * z → j < x * y * z → d i j = groupingDistance y z i j) :
    BlockMinimal (x * y) y 4
      (factorizeDistances (x * y * z) (x * y) (blockIds (x * y * z) z (x * y)) d) := by
  refine ⟨fun A B hA hB hAB hs => ?_, fun A B hA hB hs => ?_⟩
  · rw [factorized_level1 hz hagree hA hB hAB, if_pos hs]
  · rw [factorized_level1 hz hagree hA hB fun h => hs (by rw [h]), if_neg hs]
    exact shorthand_values_lt.2.2

/-- Level `2` of `X*Y*Z`: the `x` blocks of `y` are one block of minimal links, all `8`. -/
theorem blockMinimal_level2 (hy : 0 < y) (hz : 2 ≤ z)
    (hagree : ∀ i j, i < x * y * z → j < x * y * z → d i j = groupingDistance y z i j) :
    BlockMinimal x x 8 (factorizeDistances (x * y) x (blockIds (x * y) y x)
      (factorizeDistances (x * y * z) (x * y) (blockIds (x * y * z) z (x * y)) d)) :=
  blockMinimal_one_block fun A B hA hB hAB =>
    factorizeDistances_blocks_const rfl hy hA hB fun a b ha hb haA hbB => by
      rw [factorized_level1 hz hagree ha hb fun h => hAB (by rw [← haA, ← hbB, h]),
        if_neg (by rw [haA, hbB]; exact hAB)]

/-- **The `X*Y*Z` shorthand groups in two levels.** On a matrix that agrees with the
shorthand's cells for `x, y, z ≥ 2`, the grouping creates the `x·y` blocks of `z` objects
at depth `0`, then the `x` blocks of `y` of those Groups at depth `1`, and nothing else. -/
theorem setupGroups_shorthand_xyz (hx : 2 ≤ x) (hy : 2 ≤ y) (hz : 2 ≤ z) (objs : Nat → Cpuset)
    (hagree : ∀ i j, i < x * y * z → j < x * y * z → d i j = groupingDistance y z i j) :
    hwlocSetupGroupsFromDistances false (x * y * z) objs d =
      .ok (blockGroups z (x * y) objs 0 ++
        blockGroups y x (fun a => cpusetUnion objs (List.range' (a * z) z)) 1) := by
  have hxy : 4 ≤ x * y := Nat.mul_le_mul hx hy
  have hN : 8 ≤ x * y * z := Nat.mul_le_mul hxy hz
  -- level 0 groups the blocks of z, level 1 the blocks of y of them, level 2 stops
  have hl0 := groupLevel_blockMinimal (blockMinimal_level0 hagree) hz rfl (by omega)
    (natCast_lt_fltMax (by decide)) objs 0
  rw [if_neg (by omega)] at hl0
  have hl1 := groupLevel_blockMinimal (blockMinimal_level1 hz hagree) hy rfl (by omega)
    (natCast_lt_fltMax (by decide))
    (fun i => cpusetUnion objs (groupMembers (x * y * z) (blockIds (x * y * z) z (x * y)) i)) 1
  rw [if_neg (by omega)] at hl1
  have hl2 := groupLevel_blockMinimal (blockMinimal_level2 (by omega) hz hagree) hx
    (Nat.one_mul x).symm le_rfl (natCast_lt_fltMax (by decide)) (fun i => cpusetUnion (fun i =>
      cpusetUnion objs (groupMembers (x * y * z) (blockIds (x * y * z) z (x * y)) i))
      (groupMembers (x * y) (blockIds (x * y) y x) i)) 2
  rw [if_pos rfl] at hl2
  obtain ⟨f, hf⟩ : ∃ f, x * y * z + 1 = f + 3 := ⟨x * y * z - 2, by omega⟩
  rw [hwlocSetupGroupsFromDistances, if_neg Bool.false_ne_true, if_pos (validMatrix_shorthand hagree),
    hf]
  simp only [hwlocSetupGroupsFromDistancesRec, hl0, hl1, hl2, Except.map, List.append_nil]
  refine congrArg (fun l => Except.ok (_ ++ l)) (List.map_congr_left fun b hb => ?_)
  have hb' : b < x := List.mem_range.1 hb
  refine congrArg (fun c => GroupObj.mk 1 c _) (cpusetUnion_congr fun a ha => ?_)
  rw [List.mem_range'_1] at ha
  have : a < x * y := by
    have := Nat.mul_le_mul_right y (show b + 1 ≤ x by omega); rw [Nat.succ_mul] at this; omega
  rw [groupMembers_blockIds rfl (by omega) this]

/-- **The `X*Y` shorthand groups in one level.** On a matrix that agrees with the cells
of the `X*Y` form (`z = 1`) for `x, y ≥ 2`, the grouping creates the `x` blocks of `y`
objects at depth `0` and nothing else. -/
theorem setupGroups_shorthand_xy (hx : 2 ≤ x) (hy : 2 ≤ y) (objs : Nat → Cpuset)
    (hagree : ∀ i j, i < x * y → j < x * y → d i j = groupingDistance y 1 i j) :
    hwlocSetupGroupsFromDistances false (x * y) objs d = .ok (blockGroups y x objs 0) := by
  obtain ⟨-, -, h48⟩ : (1 : α) < 2 ∧ (2 : α) < 4 ∧ (4 : α) < 8 := shorthand_values_lt
  have hxy : 4 ≤ x * y := Nat.mul_le_mul hx hy
  have hcell : ∀ i j, i < x * y → j < x * y → i ≠ j → d i j = if i / y = j / y then 4 else 8 :=
    fun i j hi hj hij => by
      rw [hagree i j hi hj, groupingDistance_of_ne hij, Nat.div_one, Nat.div_one, if_neg hij]
  have h0 : BlockMinimal (x * y) y 4 d :=
    ⟨fun i j hi hj hij hs => by rw [hcell i j hi hj hij, if_pos hs],
      fun i j hi hj hs => by rw [hcell i j hi hj fun h => hs (by rw [h]), if_neg hs]; exact h48⟩
  have hl0 := groupLevel_blockMinimal h0 hy rfl (by omega) (natCast_lt_fltMax (by decide)) objs 0
  rw [if_neg (by omega)] at hl0
  have h1 : BlockMinimal x x 8 (factorizeDistances (x * y) x (blockIds (x * y) y x) d) :=
    blockMinimal_one_block fun A B hA hB hAB =>
      factorizeDistances_blocks_const rfl (by omega) hA hB fun a b ha hb haA hbB => by
        rw [hcell a b ha hb fun h => hAB (by rw [← haA, ← hbB, h]),
          if_neg (by rw [haA, hbB]; exact hAB)]
  have hl1 := groupLevel_blockMinimal h1 hx (Nat.one_mul x).symm le_rfl
    (natCast_lt_fltMax (by decide))
    (fun i => cpusetUnion objs (groupMembers (x * y) (blockIds (x * y) y x) i)) 1
  rw [if_pos rfl] at hl1
  obtain ⟨f, hf⟩ : ∃ f, x * y + 1 = f + 2 := ⟨x * y - 1, by omega⟩
  rw [hwlocSetupGroupsFromDistances, if_neg Bool.false_ne_true, if_pos (validMatrix_shorthand hagree),
    hf]
  simp only [hwlocSetupGroupsFromDistancesRec, hl0, hl1, Except.map, List.append_nil]

end Shorthand

/-- **The Groups of the grouping shorthand.** For `x, y ≥ 2` and any objects: with
`z ≥ 2`, grouping the `x·y·z` objects of the `X*Y*Z` matrix creates exactly the `x·y`
Groups of depth `0`, Group `a` from objects `a·z .. a·z+z-1` with the union of their
cpusets, and then exactly the `x` Groups of depth `1`, Group `b` from the depth-0 Groups
`b·y .. b·y+y-1`; the `X*Y` form creates exactly the `x` Groups of `y` consecutive
objects. The same holds of the matrix the generator writes, whenever its cells fit in
the `nbobjs*nbobjs` it allocates. -/
theorem shorthand_creates_groups (x y z : Nat) (hx : 2 ≤ x) (hy : 2 ≤ y) (objs : Nat → Cpuset) :
    (2 ≤ z →
      hwlocSetupGroupsFromDistances false (x * y * z) objs
          (fun i j => (groupingDistance y z i j : α)) =
        .ok (blockGroups z (x * y) objs 0 ++
          blockGroups y x (fun a => cpusetUnion objs (List.range' (a * z) z)) 1) ∧
      (x * y * z * (x * y * z) < 2 ^ 32 →
        hwlocSetupGroupsFromDistances false (x * y * z) objs
            (flatMatrix (x * y * z) (shorthandDistances (x * y * z) y z : List α)) =
          .ok (blockGroups z (x * y) objs 0 ++
            blockGroups y x (fun a => cpusetUnion objs (List.range' (a * z) z)) 1))) ∧
    hwlocSetupGroupsFromDistances false (x * y) objs (fun i j => (groupingDistance y 1 i j : α)) =
      .ok (blockGroups y x objs 0) ∧
    (x * y * (x * y) < 2 ^ 32 →
      hwlocSetupGroupsFromDistances false (x * y) objs
          (flatMatrix (x * y) (shorthandDistances (x * y) y 1 : List α)) =
        .ok (blockGroups y x objs 0)) :=
  ⟨fun hz => ⟨setupGroups_shorthand_xyz hx hy hz objs fun _ _ _ _ => rfl,
      fun hfit => setupGroups_shorthand_xyz hx hy hz objs fun _ _ hi hj =>
        shorthandDistances_cell hfit hi hj⟩,
    setupGroups_shorthand_xy hx hy objs fun _ _ _ _ => rfl,
    fun hfit => setupGroups_shorthand_xy hx hy objs fun _ _ hi hj =>
      shorthandDistances_cell hfit hi hj⟩

/-- The spec's `2*2` shorthand: two Groups of two objects. -/
theorem shorthand_two_by_two :
    2 ≤ 2 ∧ hwlocSetupGroupsFromDistances false (2 * 2) (fun _ => ∅)
      (fun i j => (groupingDistance 2 1 i j : ℚ)) = .ok (blockGroups 2 2 (fun _ => ∅) 0) :=
  ⟨le_rfl, (shorthand_creates_groups 2 2 1 le_rfl le_rfl fun _ => ∅).2.1⟩

end Liblstopo
