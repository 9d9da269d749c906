import Liblstopo.Grouping.MinDistance

/-!
# Clustering a matrix whose minimal links form consecutive blocks

When the objects at the minimal distance from each other are exactly those of the same
block of `z` consecutive objects, every block is a clique of minimal links: the first
member's scan finds the whole block, and every later scan finds nothing. So the clustering
hands id `b + 1` to block `b` (`hwlocSetupGroupFromMinDistance_blocks`). This is the
shape of every level of the matrices the `X*Y*Z` shorthand generates.
-/

namespace Liblstopo

variable {α : Type} [LinearOrderedField α]

/-- The ids after the first `a` blocks of size `z` are grouped: block `b < a` has id
`b + 1`, the rest none. -/
def blockIds (n z a : Nat) : Nat → Nat := fun j => if j < n ∧ j / z < a then j / z + 1 else 0

/-! ## Quiet states -/

section Quiet

variable {n : Nat} {d : DistMatrix α} {minD : α} {groupid : Nat}

theorem attachMinimal_quiet {j : Nat} {e : Expansion}
    (h : ∀ k < n, e.groupids k = 0 → d j k ≠ minD) : attachMinimal n d minD groupid j e = e :=
  foldl_eq_self _ e _ fun k hk => if_neg fun hP => h k (List.mem_range.1 hk) hP.1 hP.2

/-- A rescan of a group none of whose members has an unassigned object at the minimal
distance changes nothing but `newfirstfound`, which it leaves unset. -/
theorem rescan_quiet {firstfound : Nat} {e : Expansion}
    (h : ∀ j, e.groupids j = groupid → ∀ k < n, e.groupids k = 0 → d j k ≠ minD) :
    rescan n d minD groupid firstfound e = { e with newfirstfound := none } :=
  foldl_eq_self _ _ _ fun j _ => by
    dsimp only
    split
    · next hj => exact attachMinimal_quiet (h j hj)
    · rfl

end Quiet

theorem foldlM_eq_self {β γ : Type} (f : β → γ → Option β) (b : β) :
    ∀ (l : List γ), (∀ x ∈ l, f b x = some b) → l.foldlM f b = some b
  | [], _ => rfl
  | x :: l, h => by
    rw [List.foldlM_cons, h x (List.mem_cons_self x l)]
    exact foldlM_eq_self f b l fun y hy => h y (List.mem_cons_of_mem x hy)

/-! ## One block -/

section Blocks

variable {n m z : Nat} {d : DistMatrix α}

theorem block_start {a : Nat} (hz : 2 ≤ z) (hn : n = m * z) (ha : a < m) :
    a * z + 1 < n ∧ a * z / z = a ∧ (a * z + 1) / z = a := by
  have h1 : (a + 1) * z ≤ m * z := Nat.mul_le_mul_right z ha
  refine ⟨by rw [Nat.succ_mul] at h1; omega, Nat.mul_div_cancel a (by omega),
    Nat.div_eq_of_lt_le (by omega) (by rw [Nat.succ_mul]; omega)⟩

variable (hz : 2 ≤ z) (hn : n = m * z)
  (hedge : ∀ i j, i < n → j < n → i ≠ j → (d i j = minDistance n d ↔ i / z = j / z))
include hz hn hedge

/-- With blocks `0..a-1` grouped, the scan from `a·z` groups exactly block `a`. -/
theorem attachMinimal_block {a : Nat} (ha : a < m) :
    (attachMinimal n d (minDistance n d) (a + 1) (a * z)
        ⟨Function.update (blockIds n z a) (a * z) (a + 1), 1, none⟩).groupids =
      blockIds n z (a + 1) ∧
    (attachMinimal n d (minDistance n d) (a + 1) (a * z)
        ⟨Function.update (blockIds n z a) (a * z) (a + 1), 1, none⟩).size ≠ 1 := by
  obtain ⟨hi1, hiz, hi1z⟩ := block_start hz hn ha
  rw [attachMinimal_eq]
  refine ⟨funext fun k => ?_, ?_⟩
  · dsimp only
    by_cases hki : k = a * z
    · subst hki; simp [blockIds, hiz, Nat.lt_of_succ_lt hi1]
    · rw [Function.update_noteq hki]
      by_cases hkn : k < n
      · have he := hedge (a * z) k (by omega) hkn (Ne.symm hki)
        rw [hiz] at he
        simp only [blockIds, hkn, true_and]
        by_cases hq : k / z < a
        · simp [hq, Nat.lt_succ_of_lt hq]
        · by_cases hqa : k / z = a
          · simp [hq, hqa, he.2 hqa.symm]
          · have : ¬ d (a * z) k = minDistance n d := fun h => hqa (he.1 h).symm
            simp [hq, this, show ¬ k / z < a + 1 by omega]
      · simp [blockIds, hkn]
  · dsimp only
    have hmem : a * z + 1 ∈ (Finset.range n).filter fun k =>
        Function.update (blockIds n z a) (a * z) (a + 1) k = 0 ∧
          d (a * z) k = minDistance n d := by
      rw [Finset.mem_filter, Finset.mem_range, Function.update_noteq (by omega)]
      refine ⟨hi1, by simp [blockIds, hi1z], ?_⟩
      exact (hedge (a * z) (a * z + 1) (by omega) hi1 (by omega)).2 (by rw [hiz, hi1z])
    have := Finset.card_pos.2 ⟨_, hmem⟩
    omega

omit hz hn in
/-- Once block `a` is grouped, no member of it has an unassigned object at the minimal
distance. -/
theorem blockIds_quiet {a : Nat} :
    ∀ j, blockIds n z (a + 1) j = a + 1 → ∀ k < n, blockIds n z (a + 1) k = 0 →
      d j k ≠ minDistance n d := by
  intro j hj k hk hk0 hd
  have hj' : j < n ∧ j / z = a := by
    simp only [blockIds] at hj
    split at hj
    · next h => exact ⟨h.1, by omega⟩
    · omega
  have hk' : ¬ k / z < a + 1 := by
    simp only [blockIds] at hk0
    split at hk0
    · exact absurd hk0 (Nat.succ_ne_zero _)
    · next h => exact fun h' => h ⟨hk, h'⟩
  have := (hedge j k hj'.1 hk (by rintro rfl; omega)).1 hd
  omega

/-- The expansion seeded at `a·z` ends with block `a` grouped and more than one member. -/
theorem expandGroup_block {a : Nat} (ha : a < m) :
    ∃ e, expandGroup n d (minDistance n d) (a + 1) (n + 1) (a * z)
        ⟨Function.update (blockIds n z a) (a * z) (a + 1), 1, none⟩ = some e ∧
      e.groupids = blockIds n z (a + 1) ∧ e.size ≠ 1 := by
  obtain ⟨hi1, -, -⟩ := block_start hz hn ha
  obtain ⟨hids, hsize⟩ := attachMinimal_block hz hn hedge ha
  set e1 := attachMinimal n d (minDistance n d) (a + 1) (a * z)
    ⟨Function.update (blockIds n z a) (a * z) (a + 1), 1, none⟩
  have hquiet : ∀ j, e1.groupids j = a + 1 → ∀ k < n, e1.groupids k = 0 →
      d j k ≠ minDistance n d := hids ▸ blockIds_quiet hedge
  have hrescan : rescan n d (minDistance n d) (a + 1) (a * z)
      ⟨Function.update (blockIds n z a) (a * z) (a + 1), 1, none⟩ = e1 := by
    rw [rescan, show n - a * z = (n - a * z - 1) + 1 by omega, List.range'_succ,
      List.foldl_cons, if_pos (show (Function.update (blockIds n z a) (a * z) (a + 1)) (a * z)
        = a + 1 from Function.update_same _ _ _)]
    exact foldl_eq_self _ e1 _ fun j _ => by
      split
      · next hj => exact attachMinimal_quiet (hquiet j hj)
      · rfl
  obtain ⟨n', rfl⟩ : ∃ n', n = n' + 1 := ⟨n - 1, by omega⟩
  simp only [expandGroup, hrescan]
  split
  · exact ⟨e1, rfl, hids, hsize⟩
  · simp only [expandGroup, rescan_quiet hquiet]
    exact ⟨_, rfl, hids, hsize⟩

/-- The outer loop over block `a` (its first object seeds, the others are skipped). -/
theorem seedGroup_block {a : Nat} (ha : a < m) :
    (List.range' (a * z) z).foldlM (seedGroup n d (minDistance n d))
      ⟨blockIds n z a, a + 1⟩ = some ⟨blockIds n z (a + 1), a + 1 + 1⟩ := by
  obtain ⟨hi1, hiz, -⟩ := block_start hz hn ha
  obtain ⟨e, he, hids, hsize⟩ := expandGroup_block hz hn hedge ha
  have hsplit : List.range' (a * z) z = a * z :: List.range' (a * z + 1) (z - 1) := by
    rw [← List.range'_succ]; congr 1; omega
  have hseed : seedGroup n d (minDistance n d) ⟨blockIds n z a, a + 1⟩ (a * z) =
      some ⟨blockIds n z (a + 1), a + 1 + 1⟩ := by
    unfold seedGroup
    rw [if_neg (by simp [blockIds, hiz])]
    dsimp only
    rw [he, Option.map_some', if_neg hsize, hids]
  rw [hsplit, List.foldlM_cons, hseed]
  refine foldlM_eq_self _ _ _ fun j hj => if_pos ?_
  rw [List.mem_range'_1] at hj
  have hjz : j / z = a := Nat.div_eq_of_lt_le (by omega) (by rw [Nat.succ_mul]; omega)
  have hjn : j < n := by
    have : (a + 1) * z ≤ m * z := Nat.mul_le_mul_right z ha
    rw [Nat.succ_mul] at this; omega
  simp [blockIds, hjz, hjn]

/-- **Block clustering.** If the objects at the minimal distance (below `FLT_MAX`) from
each other are exactly those in the same block of `z ≥ 2` consecutive objects, the
clustering finds the `m` blocks, in order, as groups `1..m`. -/
theorem hwlocSetupGroupFromMinDistance_blocks (hmin : minDistance n d ≠ fltMax) :
    hwlocSetupGroupFromMinDistance n d = some (m, blockIds n z m) := by
  have hall : ∀ a ≤ m, (List.range' 0 (a * z)).foldlM (seedGroup n d (minDistance n d))
      ⟨fun _ => 0, 1⟩ = some ⟨blockIds n z a, a + 1⟩ := by
    intro a
    induction a with
    | zero =>
      intro _
      have hb0 : blockIds n z 0 = fun _ => 0 := funext fun j => by simp [blockIds]
      rw [hb0, Nat.zero_mul]; rfl
    | succ a ih =>
      intro ha
      rw [Nat.succ_mul, Nat.add_comm, ← List.range'_append_1, List.foldlM_append, ih (by omega)]
      show (List.range' (0 + a * z) z).foldlM (seedGroup n d (minDistance n d))
        ⟨blockIds n z a, a + 1⟩ = _
      rw [Nat.zero_add]
      exact seedGroup_block hz hn hedge (by omega)
  unfold hwlocSetupGroupFromMinDistance
  dsimp only
  rw [if_neg hmin, show List.range n = List.range' 0 (m * z) by rw [List.range_eq_range', hn],
    hall m le_rfl, Option.map_some']
  rfl

end Blocks

end Liblstopo
