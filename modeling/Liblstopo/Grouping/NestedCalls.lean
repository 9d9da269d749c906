import Liblstopo.Grouping.Hierarchy
import Liblstopo.Grouping.Shorthand

/-!
# Every Group of a run is held together at its own level

`hwloc_setup_groups_from_distances` (distances.c, lines 517–562) checks only the matrix of
the first call: symmetric, each diagonal entry below its row. Each nested call of
`hwloc__setup_groups_from_distances` (lines 435–512) then clusters the factorised matrix
of the Groups of the call above. Exact factorisation keeps a symmetric matrix symmetric,
so every call of a run over a matrix that passed the check clusters a symmetric matrix,
and every Group the run creates, at any depth, lies in one component of the graph of the
minimal links of its own level.

- `SetupCall`, `NestedCall`: the arguments of a call, and the call it makes;
- `factorizeDistances_symm`: the factorised matrix of a symmetric matrix is symmetric;
- `nestedCalls_symm`: so every call reached from a symmetric matrix clusters one;
- `setupGroupsRec_made_at`: every Group of a run is made by one of its calls;
- `hwlocSetupGroupsFromDistances_groups_linked`: any two members of a Group a run creates
  are joined by a chain of minimal links of the matrix its call clustered.
-/

namespace Liblstopo

variable {α : Type} [LinearOrderedField α]

/-- The arguments of a call of `hwloc__setup_groups_from_distances`: the number of objects,
their cpusets, their matrix and the depth of the Groups it creates. -/
structure SetupCall (α : Type) where
  nbobjs : Nat
  objs : Nat → Cpuset
  distances : DistMatrix α
  depth : Nat

/-- Call `a` recurses into call `b` (line 511). -/
def NestedCall (a b : SetupCall α) : Prop :=
  ∃ groups, groupLevel a.nbobjs a.objs a.distances a.depth =
    .ok (some (groups, b.nbobjs, b.objs, b.distances)) ∧ b.depth = a.depth + 1

/-! ## Factorisation keeps symmetry -/

section Symm

variable {n k : Nat} {ids : Nat → Nat} {d : DistMatrix α}

/-- Symmetric between the first `n` objects. -/
def SymmBelow (n : Nat) (d : DistMatrix α) : Prop := ∀ i < n, ∀ j < n, d i j = d j i

theorem accumulateDistances_symm (hd : SymmBelow n d) (A B : Nat) :
    accumulateDistances n ids d A B = accumulateDistances n ids d B A := by
  rw [accumulateDistances_eq, accumulateDistances_eq, Finset.sum_comm]
  refine Finset.sum_congr rfl fun i hi => Finset.sum_congr rfl fun j hj => ?_
  simp only [hd j (Finset.mem_range.1 hj) i (Finset.mem_range.1 hi), and_comm]

/-- The matrix handed to the nested call is symmetric when the call's matrix is, whatever
ids the clustering gave (the cells of objects left without a group included). -/
theorem factorizeDistances_symm (hd : SymmBelow n d) (A B : Nat) :
    factorizeDistances n k ids d A B = factorizeDistances n k ids d B A := by
  unfold factorizeDistances
  rw [accumulateDistances_symm hd A B, Nat.mul_comm (groupSizes n ids A)]
  by_cases h : A < k ∧ B < k
  · rw [if_pos h, if_pos h.symm]
  · rw [if_neg h, if_neg (mt And.symm h)]

end Symm

theorem NestedCall.symm {a b : SetupCall α} (hab : NestedCall a b)
    (hd : SymmBelow a.nbobjs a.distances) : SymmBelow b.nbobjs b.distances := by
  obtain ⟨groups, h, -⟩ := hab
  obtain ⟨-, ids, -, -, -, -, -, hd'⟩ := groupLevel_eq_recurse h
  exact fun i _ j _ => hd' ▸ factorizeDistances_symm hd i j

theorem nestedCalls_symm {a b : SetupCall α} (hd : SymmBelow a.nbobjs a.distances)
    (h : Relation.ReflTransGen NestedCall a b) : SymmBelow b.nbobjs b.distances := by
  induction h with
  | refl => exact hd
  | tail _ hbc ih => exact hbc.symm ih

/-! ## Where the Groups of a run are made -/

/-- Every Group of a run that returns is the Group `i < k` of the clustering of a call the
run reaches. -/
theorem setupGroupsRec_made_at : ∀ {fuel : Nat} {a : SetupCall α} {r : List GroupObj},
    hwlocSetupGroupsFromDistancesRec fuel a.nbobjs a.objs a.distances a.depth = .ok r →
    ∀ G ∈ r, ∃ b, Relation.ReflTransGen NestedCall a b ∧
      ∃ k ids, hwlocSetupGroupFromMinDistance b.nbobjs b.distances = some (k, ids) ∧
        ∃ i < k, G = makeGroup b.nbobjs ids b.objs b.depth i
  | 0, _, _, h => by cases h
  | fuel + 1, a, r, h => by
    rw [hwlocSetupGroupsFromDistancesRec] at h
    cases hl : groupLevel a.nbobjs a.objs a.distances a.depth with
    | error e => rw [hl] at h; cases h
    | ok l =>
      rw [hl] at h
      rcases l with _ | ⟨groups, k, objs', d'⟩
      · cases h; exact fun G hG => absurd hG (List.not_mem_nil G)
      · obtain ⟨r', hr', rfl⟩ := except_map_eq_ok h
        intro G hG
        rcases List.mem_append.1 hG with hG | hG
        -- a Group of this call
        · obtain ⟨-, ids, hk, -, -, rfl, -⟩ := groupLevel_eq_recurse hl
          obtain ⟨i, hi, rfl⟩ := List.mem_map.1 hG
          exact ⟨a, .refl, k, ids, hk, i, List.mem_range.1 hi, rfl⟩
        -- a Group of a nested call
        · obtain ⟨b, hab, hb⟩ :=
            @setupGroupsRec_made_at fuel ⟨k, objs', d', a.depth + 1⟩ r' hr' G hG
          exact ⟨b, Relation.ReflTransGen.head ⟨groups, hl, rfl⟩ hab, hb⟩

/-- **Every Group a run creates is held together at its own level.** When
`hwloc_setup_groups_from_distances` (with `HWLOC_IGNORE_DISTANCES` unset) returns the
Groups `r`, each of them is the Group `c < k` of the clustering of a call the run reaches,
that call's matrix is symmetric on its objects, and any two members of the Group are
joined by a chain of links, between members, at the least distance of that matrix. -/
theorem hwlocSetupGroupsFromDistances_groups_linked (n : Nat) (objs : Nat → Cpuset)
    (d : DistMatrix α) {r : List GroupObj} (hr : hwlocSetupGroupsFromDistances false n objs d = .ok r) :
    ∀ G ∈ r, ∃ b : SetupCall α, Relation.ReflTransGen NestedCall ⟨n, objs, d, 0⟩ b ∧
      SymmBelow b.nbobjs b.distances ∧
      ∃ k ids, hwlocSetupGroupFromMinDistance b.nbobjs b.distances = some (k, ids) ∧
        ∃ c < k, G = makeGroup b.nbobjs ids b.objs b.depth c ∧
          ∀ x ∈ G.members, ∀ y ∈ G.members, Relation.ReflTransGen
            (MinLink b.distances (minDistance b.nbobjs b.distances) ids (c + 1)) x y := by
  intro G hG
  rw [hwlocSetupGroupsFromDistances, if_neg Bool.false_ne_true] at hr
  split at hr
  · next hv =>
    -- the first call's matrix passed the check, so it is symmetric on its objects
    have hd : SymmBelow n d := fun i hi j hj => by
      rcases lt_trichotomy i j with hij | rfl | hij
      · exact ((validMatrix_iff n d).1 hv i j hij hj).1
      · rfl
      · exact ((validMatrix_iff n d).1 hv j i hij hi).1.symm
    obtain ⟨b, hab, k, ids, hk, c, hc, rfl⟩ :=
      @setupGroupsRec_made_at _ _ (n + 1) ⟨n, objs, d, 0⟩ r hr G hG
    have hsym := nestedCalls_symm hd hab
    obtain ⟨k', ids', hk', -, hbeyond, -⟩ := hwlocSetupGroupFromMinDistance_spec b.nbobjs b.distances
    rw [hk] at hk'
    obtain ⟨rfl, rfl⟩ := Prod.mk.inj (Option.some.inj hk')
    -- a member of group `c + 1` is one of the call's objects
    have hlt : ∀ x, ids x = c + 1 → x < b.nbobjs := fun x hx =>
      Nat.lt_of_not_le fun h => absurd (hbeyond x h) (by omega)
    obtain ⟨s, hs⟩ := hwlocSetupGroupFromMinDistance_groupsLinked b.nbobjs b.distances hk
      (c + 1) (Nat.succ_pos c) hc
    refine ⟨b, hab, hsym, k, ids, hk, c, hc, rfl, fun x hx y hy => ?_⟩
    simp only [makeGroup, groupMembers, List.mem_filter, decide_eq_true_eq] at hx hy
    exact hs.joined (fun a a' ha ha' => hsym a (hlt a ha) a' (hlt a' ha')) hx.2 hy.2
  · cases hr; exact absurd hG (List.not_mem_nil G)

/-- Two pairs of objects, the shorthand `2*2`: the run creates two Groups, each held
together by the least distance of the matrix. -/
theorem two_pairs_groups_linked :
    hwlocSetupGroupsFromDistances false (2 * 2) (fun i => {i})
        (fun i j => (groupingDistance 2 1 i j : ℚ)) = .ok (blockGroups 2 2 (fun i => {i}) 0) ∧
      ∀ G ∈ blockGroups 2 2 (fun i => {i}) 0, ∃ b : SetupCall ℚ,
        Relation.ReflTransGen NestedCall ⟨2 * 2, fun i => {i}, fun i j => groupingDistance 2 1 i j, 0⟩ b ∧
        SymmBelow b.nbobjs b.distances ∧
        ∃ k ids, hwlocSetupGroupFromMinDistance b.nbobjs b.distances = some (k, ids) ∧
          ∃ c < k, G = makeGroup b.nbobjs ids b.objs b.depth c ∧
            ∀ x ∈ G.members, ∀ y ∈ G.members, Relation.ReflTransGen
              (MinLink b.distances (minDistance b.nbobjs b.distances) ids (c + 1)) x y := by
  have hr : hwlocSetupGroupsFromDistances false (2 * 2) (fun i => {i})
      (fun i j => (groupingDistance 2 1 i j : ℚ)) = .ok (blockGroups 2 2 (fun i => {i}) 0) :=
    setupGroups_shorthand_xy (le_refl 2) (le_refl 2) _ fun _ _ _ _ => rfl
  exact ⟨hr, hwlocSetupGroupsFromDistances_groups_linked _ _ _ hr⟩

end Liblstopo
