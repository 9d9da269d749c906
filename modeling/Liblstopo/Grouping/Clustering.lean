import Liblstopo.Grouping.MinDistance

/-!
# Grouping by minimal distance: what a whole run computes

The outer loop of `hwloc_setup_group_from_min_distance` keeps `GroupingInv`: every id is
below the next one, objects from `nbobjs` on carry none, and every id handed out so far
has at least two members (a group that stayed a singleton was cancelled). From it:

- `hwlocSetupGroupFromMinDistance_spec`: the function returns, every id lies in
  `0..k`, and each of `1..k` has at least two members;
- `two_mul_le_of_members`: hence `2·k ≤ nbobjs`;
- `hwlocSetupGroupFromMinDistance_linked`: every group is held together by links of the
  minimal distance between its own members.

The last section runs the code on a chain of minimal links met out of index order: the
rescan restarts at the first object the previous rescan found, not at the smallest, so
an object two links away is never reached from the group it belongs to.
-/

namespace Liblstopo

variable {α : Type} [LinearOrderedField α]

/-- The invariant of the outer loop (lines 380–425). -/
structure GroupingInv (n : Nat) (g : Grouping) : Prop where
  groupid_pos : 0 < g.groupid
  lt_groupid : ∀ k, g.groupids k < g.groupid
  beyond : ∀ k, n ≤ k → g.groupids k = 0
  two_le : ∀ c, 0 < c → c < g.groupid → 2 ≤ (members g.groupids n c).card

theorem GroupingInv.init (n : Nat) : GroupingInv n ⟨fun _ => 0, 1⟩ :=
  ⟨Nat.one_pos, fun _ => Nat.one_pos, fun _ _ => rfl,
    fun c hc hc1 => absurd hc1 (by dsimp only; omega)⟩

theorem members_eq_of_assignsOnly {n groupid c : Nat} {ids ids' : Nat → Nat}
    (h : AssignsOnly n groupid ids ids') (hc : c ≠ 0) (hcg : c ≠ groupid) :
    members ids' n c = members ids n c := by
  ext k
  simp only [mem_members]
  by_cases hk : ids' k = ids k
  · rw [hk]
  · obtain ⟨-, h0, hg⟩ := h k hk
    omega

theorem members_update_zero {n c i : Nat} {ids : Nat → Nat} (hc : c ≠ 0) (hi : ids i ≠ c) :
    members (Function.update ids i 0) n c = members ids n c := by
  ext k
  simp only [mem_members]
  by_cases hk : k = i
  · subst hk; simp [hi, Ne.symm hc]
  · rw [Function.update_noteq hk]

section Seed

variable {n : Nat} {d : DistMatrix α} {minD : α}

/-- What the expansion of a group seeded with `i` leaves: ids up to the new one, none from
`n` on, the older groups as they were, the seed in the new group, and `size` counting its
members. -/
structure SeedExpansion (n : Nat) (g : Grouping) (i : Nat) (e : Expansion) : Prop where
  le_groupid : ∀ k, e.groupids k ≤ g.groupid
  beyond : ∀ k, n ≤ k → e.groupids k = 0
  older : ∀ c, 0 < c → c < g.groupid → members e.groupids n c = members g.groupids n c
  seed_mem : i ∈ members e.groupids n g.groupid
  size_eq : e.size = (members e.groupids n g.groupid).card

/-- The expansion from an unassigned seed returns, and what it returns is a
`SeedExpansion`. -/
theorem expandGroup_seed (d : DistMatrix α) (minD : α) {g : Grouping} (hg : GroupingInv n g)
    {i : Nat} (hi : i < n) (h0 : g.groupids i = 0) :
    ∃ e, expandGroup n d minD g.groupid (n + 1) i
      ⟨Function.update g.groupids i g.groupid, 1, none⟩ = some e ∧ SeedExpansion n g i e := by
  set e0 : Expansion := ⟨Function.update g.groupids i g.groupid, 1, none⟩
  have hpos := hg.groupid_pos
  have hU : (members e0.groupids n 0).card < n + 1 :=
    Nat.lt_succ_of_le ((Finset.card_filter_le _ _).trans (Finset.card_range n).le)
  have hsome : (expandGroup n d minD g.groupid (n + 1) i e0).isSome :=
    expandGroup_isSome hpos (n + 1) i e0 hU
  obtain ⟨e, he⟩ := Option.isSome_iff_exists.1 hsome
  obtain ⟨hassign, hsize⟩ := expandGroup_spec hpos he
  have h0e : AssignsOnly n g.groupid g.groupids e0.groupids := fun k hk => by
    by_cases hki : k = i
    · subst hki; simp [e0, h0, hi]
    · exact absurd (Function.update_noteq hki _ _) hk
  have hall := h0e.trans hpos hassign
  have hseed : members e0.groupids n g.groupid = {i} := by
    ext k
    simp only [mem_members, Finset.mem_singleton, e0]
    by_cases hki : k = i
    · subst hki; simp [hi]
    · simp only [Function.update_noteq hki, hki, iff_false, not_and]
      exact fun _ => (hg.lt_groupid k).ne
  have hie : e.groupids i = g.groupid := by
    by_cases hc : e.groupids i = e0.groupids i
    · simp [hc, e0]
    · exact (hassign i hc).2.2
  refine ⟨e, he, fun k => ?_, fun k hk => ?_, fun c hc hcg => ?_, mem_members.2 ⟨hi, hie⟩,
    hsize (by rw [hseed]; rfl)⟩
  · by_cases hc : e.groupids k = g.groupids k
    · exact hc ▸ (hg.lt_groupid k).le
    · exact (hall k hc).2.2.le
  · by_cases hc : e.groupids k = g.groupids k
    · exact hc ▸ hg.beyond k hk
    · exact absurd (hall k hc).1 (by omega)
  · exact members_eq_of_assignsOnly hall (by omega) (by omega)

/-- A group that stayed a singleton is cancelled, and the invariant holds with the same
next id. -/
theorem SeedExpansion.cancel_inv {g : Grouping} (hg : GroupingInv n g) {i : Nat} (hi : i < n)
    {e : Expansion} (hs : SeedExpansion n g i e) (h1 : e.size = 1) :
    GroupingInv n ⟨Function.update e.groupids i 0, g.groupid⟩ := by
  have hpos := hg.groupid_pos
  have hie := (mem_members.1 hs.seed_mem).2
  have hone : members e.groupids n g.groupid = {i} := by
    obtain ⟨a, ha⟩ := Finset.card_eq_one.1 (hs.size_eq ▸ h1)
    have hmem := hs.seed_mem
    rw [ha] at hmem ⊢
    rw [Finset.mem_singleton.1 hmem]
  refine ⟨hg.groupid_pos, fun k => ?_, fun k hk => ?_, fun c hc hcg => ?_⟩ <;> dsimp only
  · by_cases hki : k = i
    · subst hki; simp [hpos]
    · rw [Function.update_noteq hki]
      refine lt_of_le_of_ne (hs.le_groupid k) fun hk => hki ?_
      by_cases hkn : k < n
      · exact Finset.mem_singleton.1 (hone ▸ mem_members.2 ⟨hkn, hk⟩)
      · have := hs.beyond k (by omega); omega
  · rw [Function.update_noteq (by omega)]; exact hs.beyond k hk
  · dsimp only at hcg
    rw [members_update_zero (by omega) (by omega), hs.older c hc hcg]
    exact hg.two_le c hc hcg

theorem SeedExpansion.keep_inv {g : Grouping} (hg : GroupingInv n g) {i : Nat}
    {e : Expansion} (hs : SeedExpansion n g i e) (h1 : ¬ e.size = 1) :
    GroupingInv n ⟨e.groupids, g.groupid + 1⟩ := by
  refine ⟨Nat.succ_pos _, fun k => Nat.lt_succ_of_le (hs.le_groupid k), hs.beyond,
    fun c hc hcg => ?_⟩
  dsimp only at hcg ⊢
  rcases Nat.lt_succ_iff_lt_or_eq.1 hcg with hcg | rfl
  · rw [hs.older c hc hcg]; exact hg.two_le c hc hcg
  · have := Finset.card_pos.2 ⟨i, hs.seed_mem⟩
    rw [← hs.size_eq] at this ⊢; omega

/-- One iteration of the outer loop succeeds and keeps `GroupingInv`. -/
theorem seedGroup_inv {g : Grouping} (hg : GroupingInv n g) {i : Nat} (hi : i < n) :
    ∃ g', seedGroup n d minD g i = some g' ∧ GroupingInv n g' := by
  unfold seedGroup
  split
  · exact ⟨g, rfl, hg⟩
  next h0 =>
  obtain ⟨e, he, hs⟩ := expandGroup_seed d minD hg hi (not_not.1 h0)
  rw [he, Option.map_some']
  refine ⟨_, rfl, ?_⟩
  split
  · next h1 => exact hs.cancel_inv hg hi h1
  · next h1 => exact hs.keep_inv hg h1

end Seed

/-- **The clustering returns, with ids in `0..k` and at least two members per id.**
For every matrix `hwloc_setup_group_from_min_distance` terminates (every expansion ends
within its `nbobjs + 1` rescans) and returns `k` such that every object's id lies in
`0..k` and each id in `1..k` is carried by at least two objects below `nbobjs`. -/
theorem hwlocSetupGroupFromMinDistance_spec (n : Nat) (d : DistMatrix α) :
    ∃ k ids, hwlocSetupGroupFromMinDistance n d = some (k, ids) ∧ (∀ j, ids j ≤ k) ∧
      (∀ j, n ≤ j → ids j = 0) ∧ ∀ c, 0 < c → c ≤ k → 2 ≤ (members ids n c).card := by
  unfold hwlocSetupGroupFromMinDistance
  dsimp only
  split
  · exact ⟨0, fun _ => 0, rfl, fun _ => le_rfl, fun _ _ => rfl, fun c hc hck => by omega⟩
  · obtain ⟨g, hg, hinv⟩ := forLoopM_induction (fun _ g => GroupingInv n g)
      (seedGroup n d (minDistance n d)) n 0 ⟨fun _ => 0, 1⟩ (GroupingInv.init n)
      fun i g _ hi h => seedGroup_inv h (by omega)
    rw [List.range_eq_range', hg, Option.map_some']
    exact ⟨_, _, rfl, fun j => Nat.le_pred_of_lt (hinv.lt_groupid j), hinv.beyond,
      fun c hc hck => hinv.two_le c hc (by omega)⟩

theorem two_mul_le_of_members {ids : Nat → Nat} {n k : Nat}
    (h : ∀ c, 0 < c → c ≤ k → 2 ≤ (members ids n c).card) : 2 * k ≤ n := by
  have hdisj : ∀ x ∈ Finset.Icc 1 k, ∀ y ∈ Finset.Icc 1 k, x ≠ y →
      Disjoint (members ids n x) (members ids n y) := fun x _ y _ hxy =>
    Finset.disjoint_filter.2 fun j _ h1 h2 => hxy (h1 ▸ h2)
  calc 2 * k = ∑ _c ∈ Finset.Icc 1 k, 2 := by simp [mul_comm]
    _ ≤ ∑ c ∈ Finset.Icc 1 k, (members ids n c).card :=
      Finset.sum_le_sum fun c hc => h c (Finset.mem_Icc.1 hc).1 (Finset.mem_Icc.1 hc).2
    _ = ((Finset.Icc 1 k).biUnion (members ids n)).card := (Finset.card_biUnion hdisj).symm
    _ ≤ (Finset.range n).card :=
      Finset.card_le_card (Finset.biUnion_subset.2 fun _ _ => Finset.filter_subset _ _)
    _ = n := Finset.card_range n

/-! ## Every group is held together by minimal links -/

/-- A link of group `c`: two of its members at the minimal distance `minD`, read from the
first to the second as the rescan reads `distances[j][k]`. -/
def MinLink (d : DistMatrix α) (minD : α) (ids : Nat → Nat) (c a b : Nat) : Prop :=
  ids a = c ∧ ids b = c ∧ d a b = minD

/-- Group `c` is held together from its member `s`: every member is reached from `s` by a
chain of links of the group. -/
def LinkedFrom (d : DistMatrix α) (minD : α) (ids : Nat → Nat) (c s : Nat) : Prop :=
  ids s = c ∧ ∀ x, ids x = c → Relation.ReflTransGen (MinLink d minD ids c) s x

/-- Every group handed out so far is held together from one of its members. -/
def GroupsLinked (d : DistMatrix α) (minD : α) (g : Grouping) : Prop :=
  ∀ c, 0 < c → c < g.groupid → ∃ s, LinkedFrom d minD g.groupids c s

section Linked

variable {n : Nat} {d : DistMatrix α} {minD : α}

omit [LinearOrderedField α] in
/-- A group that keeps its members and gains only objects at the minimal distance from a
member stays held together. -/
theorem LinkedFrom.extend {ids ids' : Nat → Nat} {c s : Nat} (h : LinkedFrom d minD ids c s)
    (hkeep : ∀ x, ids x = c → ids' x = c)
    (hnew : ∀ x, ids' x = c → ids x ≠ c → ∃ j, ids j = c ∧ d j x = minD) :
    LinkedFrom d minD ids' c s := by
  have hmono : ∀ {x}, Relation.ReflTransGen (MinLink d minD ids c) s x →
      Relation.ReflTransGen (MinLink d minD ids' c) s x :=
    Relation.ReflTransGen.mono fun a b hab => ⟨hkeep a hab.1, hkeep b hab.2.1, hab.2.2⟩
  refine ⟨hkeep s h.1, fun x hx => ?_⟩
  by_cases hold : ids x = c
  · exact hmono (h.2 x hold)
  · obtain ⟨j, hj, hjx⟩ := hnew x hx hold
    exact (hmono (h.2 j hj)).tail ⟨hkeep j hj, hx, hjx⟩

omit [LinearOrderedField α] in
/-- Where the matrix is symmetric between members, a group held together from one member
joins any two of its members by a chain of links. -/
theorem LinkedFrom.joined {ids : Nat → Nat} {c s x y : Nat}
    (hd : ∀ a b, ids a = c → ids b = c → d a b = d b a) (hs : LinkedFrom d minD ids c s)
    (hx : ids x = c) (hy : ids y = c) : Relation.ReflTransGen (MinLink d minD ids c) x y := by
  have hsymm : Symmetric (MinLink d minD ids c) := fun a b hab =>
    ⟨hab.2.1, hab.1, (hd b a hab.2.1 hab.1).trans hab.2.2⟩
  exact (Relation.ReflTransGen.symmetric hsymm (hs.2 x hx)).trans (hs.2 y hy)

omit [LinearOrderedField α] in
theorem LinkedFrom.congr {ids ids' : Nat → Nat} {c s : Nat} (h : LinkedFrom d minD ids c s)
    (hc : ∀ x, ids' x = c ↔ ids x = c) : LinkedFrom d minD ids' c s :=
  h.extend (fun x hx => (hc x).2 hx) fun x hx hold => absurd ((hc x).1 hx) hold

/-- A member's scan gives the group id only to objects at the minimal distance from that
member. -/
theorem attachMinimal_linked {groupid j s : Nat} {e : Expansion} (hg : 0 < groupid)
    (hj : e.groupids j = groupid) (h : LinkedFrom d minD e.groupids groupid s) :
    LinkedFrom d minD (attachMinimal n d minD groupid j e).groupids groupid s := by
  rw [attachMinimal_eq]
  refine h.extend (fun x hx => ?_) fun x hx hold => ⟨j, hj, ?_⟩ <;> dsimp only at hx ⊢
  · rw [if_neg fun hP => by omega]; exact hx
  · split at hx
    · next hP => exact hP.2.2
    · exact absurd hx hold

theorem rescan_linked {groupid s : Nat} (hg : 0 < groupid) (firstfound : Nat) {e : Expansion}
    (h : LinkedFrom d minD e.groupids groupid s) :
    LinkedFrom d minD (rescan n d minD groupid firstfound e).groupids groupid s :=
  foldl_invariant (fun e' : Expansion => LinkedFrom d minD e'.groupids groupid s) _ _ _ h
    fun e' j _ h' => by
      dsimp only
      split
      · next hj => exact attachMinimal_linked hg hj h'
      · exact h'

theorem expandGroup_linked {groupid s : Nat} (hg : 0 < groupid) :
    ∀ {fuel firstfound : Nat} {e e' : Expansion}, LinkedFrom d minD e.groupids groupid s →
      expandGroup n d minD groupid fuel firstfound e = some e' →
      LinkedFrom d minD e'.groupids groupid s
  | 0, _, _, _, _, h => by cases h
  | fuel + 1, firstfound, e, e', hl, h => by
    simp only [expandGroup] at h
    split at h
    · cases h; exact rescan_linked hg firstfound hl
    · exact expandGroup_linked hg (rescan_linked hg firstfound hl) h

/-- One iteration of the outer loop keeps every group held together: the older groups
keep their members, a cancelled group had only its seed, and a kept group grew from its
seed by minimal links. -/
theorem seedGroup_linked {g g' : Grouping} (hg : GroupingInv n g) (hl : GroupsLinked d minD g)
    {i : Nat} (hi : i < n) (h : seedGroup n d minD g i = some g') : GroupsLinked d minD g' := by
  unfold seedGroup at h
  split at h
  · cases h; exact hl
  next h0 =>
  obtain ⟨e, he, hs⟩ := expandGroup_seed d minD hg hi (not_not.1 h0)
  rw [he, Option.map_some', Option.some.injEq] at h
  subst h
  have holder : ∀ c, 0 < c → c < g.groupid → ∀ x, e.groupids x = c ↔ g.groupids x = c :=
    fun c hc hcg x => by
      by_cases hx : x < n
      · simpa only [mem_members, hx, true_and] using Finset.ext_iff.1 (hs.older c hc hcg) x
      · rw [hs.beyond x (by omega), hg.beyond x (by omega)]
  split
  -- the singleton is cancelled
  · intro c hc hcg
    obtain ⟨s, hs'⟩ := hl c hc hcg
    refine ⟨s, hs'.congr fun x => ?_⟩
    dsimp only
    by_cases hxi : x = i
    · subst hxi; rw [Function.update_same, not_not.1 h0]
    · rw [Function.update_noteq hxi, holder c hc hcg x]
  -- the group is kept
  · intro c hc hcg
    rcases Nat.lt_succ_iff_lt_or_eq.1 hcg with hcg | rfl
    · obtain ⟨s, hs'⟩ := hl c hc hcg
      exact ⟨s, hs'.congr (holder c hc hcg)⟩
    · refine ⟨i, expandGroup_linked hg.groupid_pos ⟨Function.update_same _ _ _, fun x hx => ?_⟩ he⟩
      by_cases hxi : x = i
      · rw [hxi]
      · exact absurd ((Function.update_noteq hxi _ _).symm.trans hx) (hg.lt_groupid x).ne

end Linked

/-- The groups of a result of `hwloc_setup_group_from_min_distance`: each of `1..k` is held
together from one of its members. -/
theorem hwlocSetupGroupFromMinDistance_groupsLinked (n : Nat) (d : DistMatrix α) {k : Nat}
    {ids : Nat → Nat} (h : hwlocSetupGroupFromMinDistance n d = some (k, ids)) :
    ∀ c, 0 < c → c ≤ k → ∃ s, LinkedFrom d (minDistance n d) ids c s := by
  unfold hwlocSetupGroupFromMinDistance at h
  dsimp only at h
  split at h
  · obtain ⟨rfl, rfl⟩ := Prod.mk.inj (Option.some.inj h)
    exact fun c hc hck => absurd hck (by omega)
  · obtain ⟨g, hg, -, hl⟩ := forLoopM_induction
      (fun _ g => GroupingInv n g ∧ GroupsLinked d (minDistance n d) g)
      (seedGroup n d (minDistance n d)) n 0 ⟨fun _ => 0, 1⟩
      ⟨GroupingInv.init n, fun c hc hc1 => absurd hc1 (by dsimp only; omega)⟩
      fun i g _ hi h => by
        obtain ⟨g', hg', hinv'⟩ : ∃ g', seedGroup n d (minDistance n d) g i = some g' ∧
            GroupingInv n g' := seedGroup_inv h.1 (by omega)
        exact ⟨g', hg', hinv', seedGroup_linked h.1 h.2 (by omega) hg'⟩
    rw [List.range_eq_range', hg, Option.map_some'] at h
    obtain ⟨rfl, rfl⟩ := Prod.mk.inj (Option.some.inj h)
    exact fun c hc hck => hl c hc (by omega)

/-- **Every group is held together by minimal links.** For every matrix, each group
`c ∈ 1..k` that `hwloc_setup_group_from_min_distance` returns has a member from which
every member of `c` is reached by a chain of links `distances[a][b] = min_distance`
between members of `c`. For a symmetric matrix any two members of a group are joined by
such a chain, so a group lies inside one component of the graph of minimal links. -/
theorem hwlocSetupGroupFromMinDistance_linked (n : Nat) (d : DistMatrix α) :
    ∃ k ids, hwlocSetupGroupFromMinDistance n d = some (k, ids) ∧
      (∀ c, 0 < c → c ≤ k → ∃ s, LinkedFrom d (minDistance n d) ids c s) ∧
      ((∀ i j, d i j = d j i) → ∀ c x y, 0 < c → ids x = c → ids y = c →
        Relation.ReflTransGen (MinLink d (minDistance n d) ids c) x y) := by
  obtain ⟨k, ids, h, hle, -⟩ := hwlocSetupGroupFromMinDistance_spec n d
  have hl := hwlocSetupGroupFromMinDistance_groupsLinked n d h
  refine ⟨k, ids, h, hl, fun hd c x y hc hx hy => ?_⟩
  obtain ⟨s, hs⟩ := hl c hc (hx ▸ hle x)
  exact hs.joined (fun a b _ _ => hd a b) hx hy

/-! ## A chain of minimal links met out of index order -/

/-- Six objects whose minimal links `0–5`, `5–2` and `2–3` form one chain; every other
distance is `2`, the diagonal `0`. -/
def chainMatrix : DistMatrix ℚ := fun i j =>
  if i = j then 0 else if (i, j) ∈ [(0, 5), (5, 0), (5, 2), (2, 5), (2, 3), (3, 2)] then 1 else 2

set_option maxRecDepth 20000 in
/-- On `chainMatrix` (symmetric, below `FLT_MAX`) the seed `0` finds `5`, whose scan
finds `2`; the next rescan starts again at `5`, the first object found, so `2` is never
scanned and `3`, at the minimal distance from `2`, ends with id `0` while `2` has id `1`. -/
theorem chain_splits_component :
    (∀ i < 6, ∀ j < 6, chainMatrix i j = chainMatrix j i ∧ chainMatrix i j < fltMax) ∧
      minDistance 6 chainMatrix = chainMatrix 2 3 ∧
      (hwlocSetupGroupFromMinDistance 6 chainMatrix).map
        (fun r => (r.1, (List.range 6).map r.2)) = some (1, [1, 0, 1, 0, 0, 1]) := by
  decide

end Liblstopo
