import Liblstopo.Grouping.Engine

/-!
# The Groups of a run form a hierarchy

`hwloc__setup_groups_from_distances` (distances.c, lines 435–512) creates one Group object
per group of its level, with the union of its members' cpusets, and recurses on the Groups;
`hwloc_insert_object_by_cpuset` then places each Group by its cpuset.

`GroupHierarchy` says what a run creates, level by level: at least two Groups a level,
each over at least two distinct objects of the level below, no object in two Groups of one
level, and the Groups of a level as the objects of the next.

- `groupLevel_hierarchy`: one call creates such a level and hands it to the next call;
- `GroupHierarchy.length_le`: at most `nbobjs - 1` Groups in all;
- `GroupHierarchy.disjoint_cpusets`: over objects of pairwise disjoint cpusets, the Groups
  of one depth have pairwise disjoint cpusets;
- `hwlocSetupGroupsFromDistances_hierarchy`: every run that returns its Groups creates a
  hierarchy.
-/

namespace Liblstopo

/-- The Group objects a run creates from `n` objects of cpusets `objs`, at recursion depth
`depth`: none, or a level of Groups over the objects followed by the Groups created over
that level, whose objects `objs'` are the level's Groups. -/
inductive GroupHierarchy : Nat → (Nat → Cpuset) → Nat → List GroupObj → Prop
  | nil (n : Nat) (objs : Nat → Cpuset) (depth : Nat) : GroupHierarchy n objs depth []
  | level {n : Nat} {objs objs' : Nat → Cpuset} {depth : Nat} {groups rest : List GroupObj}
      (two_le : 2 ≤ groups.length)
      (group : ∀ G ∈ groups, G.depth = depth ∧ 2 ≤ G.members.length ∧ G.members.Nodup ∧
        (∀ m ∈ G.members, m < n) ∧ G.cpuset = cpusetUnion objs G.members)
      (disjoint : groups.Pairwise fun G H => G.members.Disjoint H.members)
      (objs_eq : ∀ i (h : i < groups.length), objs' i = groups[i].cpuset)
      (tail : GroupHierarchy groups.length objs' (depth + 1) rest) :
      GroupHierarchy n objs depth (groups ++ rest)

/-! ## One level -/

section Level

variable {α : Type} [LinearOrderedField α]

/-- One call that recurses creates a level of the hierarchy, Groups `0..k-1` for the ids
`1..k` of the clustering, and hands the Groups' cpusets to the next call. -/
theorem groupLevel_hierarchy {n depth k : Nat} {objs objs' : Nat → Cpuset}
    {d d' : DistMatrix α} {groups : List GroupObj}
    (h : groupLevel n objs d depth = .ok (some (groups, k, objs', d'))) :
    k = groups.length ∧ 2 ≤ groups.length ∧
      (∀ G ∈ groups, G.depth = depth ∧ 2 ≤ G.members.length ∧ G.members.Nodup ∧
        (∀ m ∈ G.members, m < n) ∧ G.cpuset = cpusetUnion objs G.members) ∧
      groups.Pairwise (fun G H => G.members.Disjoint H.members) ∧
      ∀ i (hi : i < groups.length), objs' i = groups[i].cpuset := by
  obtain ⟨-, ids, hk, hk2, -, rfl, rfl, -⟩ := groupLevel_eq_recurse h
  obtain ⟨k', ids', hk', -, -, h2⟩ := hwlocSetupGroupFromMinDistance_spec n d
  rw [hk] at hk'
  obtain ⟨rfl, rfl⟩ := Prod.mk.inj (Option.some.inj hk')
  have hlen : ((List.range k).map (makeGroup n ids objs depth)).length = k := by simp
  refine ⟨hlen.symm, by omega, ?_, ?_, fun i hi => ?_⟩
  · simp only [List.mem_map, List.mem_range]
    rintro G ⟨c, hc, rfl⟩
    refine ⟨rfl, ?_, (List.nodup_range n).filter _,
      fun m hm => List.mem_range.1 (List.mem_filter.1 hm).1, rfl⟩
    show 2 ≤ groupSizes n ids c
    rw [groupSizes_eq_card]
    exact h2 (c + 1) (by omega) (by omega)
  · refine List.pairwise_map.2 ((List.pairwise_lt_range k).imp fun {a b} hab x hxa hxb => ?_)
    simp only [makeGroup, groupMembers, List.mem_filter, decide_eq_true_eq] at hxa hxb
    omega
  · simp only [List.getElem_map, List.getElem_range, makeGroup]

theorem setupGroupsRec_hierarchy : ∀ {fuel n depth : Nat} {objs : Nat → Cpuset}
    {d : DistMatrix α} {r : List GroupObj},
      hwlocSetupGroupsFromDistancesRec fuel n objs d depth = .ok r → GroupHierarchy n objs depth r
  | 0, _, _, _, _, _, h => by cases h
  | fuel + 1, n, depth, objs, d, r, h => by
    rw [hwlocSetupGroupsFromDistancesRec] at h
    cases hl : groupLevel n objs d depth with
    | error e => rw [hl] at h; cases h
    | ok l =>
      rw [hl] at h
      rcases l with _ | ⟨groups, k, objs', d'⟩
      · cases h; exact .nil n objs depth
      · obtain ⟨r', hr', rfl⟩ := except_map_eq_ok h
        obtain ⟨rfl, h2, hgroup, hdisj, hobjs⟩ := groupLevel_hierarchy hl
        exact .level h2 hgroup hdisj hobjs (setupGroupsRec_hierarchy hr')

end Level

/-! ## What a hierarchy is made of -/

section Shape

variable {n depth : Nat} {objs : Nat → Cpuset} {r : List GroupObj}

/-- A level of `k` Groups over `n` objects has `2·k ≤ n`: each Group has at least two
members and no two Groups share one. -/
theorem two_mul_length_le {groups : List GroupObj}
    (hgroup : ∀ G ∈ groups, 2 ≤ G.members.length ∧ G.members.Nodup ∧ ∀ m ∈ G.members, m < n)
    (hdisj : groups.Pairwise fun G H => G.members.Disjoint H.members) :
    2 * groups.length ≤ n := by
  have hnd : (groups.map GroupObj.members).flatten.Nodup :=
    List.nodup_flatten.2 ⟨by simpa using fun G hG => (hgroup G hG).2.1, List.pairwise_map.2 hdisj⟩
  have hsub : (groups.map GroupObj.members).flatten ⊆ List.range n := fun m hm => by
    obtain ⟨l, hl, hm⟩ := List.mem_flatten.1 hm
    obtain ⟨G, hG, rfl⟩ := List.mem_map.1 hl
    exact List.mem_range.2 ((hgroup G hG).2.2 m hm)
  calc 2 * groups.length = (groups.map fun _ => 2).sum := by simp [mul_comm]
    _ ≤ (groups.map fun G => G.members.length).sum := List.sum_le_sum fun G hG => (hgroup G hG).1
    _ = (groups.map GroupObj.members).flatten.length := by rw [List.length_flatten, List.map_map]; rfl
    _ ≤ (List.range n).length := (hnd.subperm hsub).length_le
    _ = n := List.length_range n

theorem GroupHierarchy.length_le (h : GroupHierarchy n objs depth r) : r.length ≤ n - 1 := by
  induction h with
  | nil => exact Nat.zero_le _
  | level two_le group disjoint _ _ ih =>
    have := two_mul_length_le (fun G hG =>
      ⟨(group G hG).2.1, (group G hG).2.2.1, (group G hG).2.2.2.1⟩) disjoint
    rw [List.length_append]
    omega

theorem GroupHierarchy.depth_le (h : GroupHierarchy n objs depth r) : ∀ G ∈ r, depth ≤ G.depth := by
  induction h with
  | nil => intro G hG; cases hG
  | level _ group _ _ _ ih =>
    intro G hG
    rcases List.mem_append.1 hG with hG | hG
    · exact (group G hG).1.ge
    · exact Nat.le_of_succ_le (ih G hG)

theorem cpusetUnion_disjoint {l l' : List Nat}
    (h : ∀ a ∈ l, ∀ b ∈ l', Disjoint (objs a) (objs b)) :
    Disjoint (cpusetUnion objs l) (cpusetUnion objs l') :=
  Finset.disjoint_left.2 fun x hx hx' => by
    obtain ⟨a, ha, hxa⟩ := mem_cpusetUnion.1 hx
    obtain ⟨b, hb, hxb⟩ := mem_cpusetUnion.1 hx'
    exact Finset.disjoint_left.1 (h a ha b hb) hxa hxb

/-- Over objects of pairwise disjoint cpusets, two Groups of one depth have disjoint
cpusets: they are unions over disjoint sets of objects, and the next level's objects are
again pairwise disjoint. -/
theorem GroupHierarchy.disjoint_cpusets (h : GroupHierarchy n objs depth r)
    (hobjs : ∀ i j, i < n → j < n → i ≠ j → Disjoint (objs i) (objs j)) :
    ∀ G ∈ r, ∀ H ∈ r, G.depth = H.depth → G ≠ H → Disjoint G.cpuset H.cpuset := by
  induction h with
  | nil => intro G hG; cases hG
  | @level n objs objs' depth groups rest _ group disjoint objs_eq tail ih =>
    -- two Groups of this level, by position
    have hpos : ∀ i j (hi : i < groups.length) (hj : j < groups.length), i ≠ j →
        Disjoint groups[i].cpuset groups[j].cpuset := fun i j hi hj hij => by
      have hmem : groups[i].members.Disjoint groups[j].members := by
        rcases Nat.lt_or_gt_of_ne hij with hlt | hlt
        · exact List.pairwise_iff_getElem.1 disjoint i j hi hj hlt
        · exact (List.pairwise_iff_getElem.1 disjoint j i hj hi hlt).symm
      have hG := group _ (List.getElem_mem hi)
      have hH := group _ (List.getElem_mem hj)
      rw [hG.2.2.2.2, hH.2.2.2.2]
      exact cpusetUnion_disjoint fun a ha b hb => hobjs a b (hG.2.2.2.1 a ha) (hH.2.2.2.1 b hb)
        fun hab => hmem ha (hab ▸ hb)
    intro G hG H hH hd hGH
    rcases List.mem_append.1 hG with hG | hG <;> rcases List.mem_append.1 hH with hH | hH
    · obtain ⟨i, hi, rfl⟩ := List.mem_iff_getElem.1 hG
      obtain ⟨j, hj, rfl⟩ := List.mem_iff_getElem.1 hH
      exact hpos i j hi hj fun hij => hGH (by subst hij; rfl)
    · have := tail.depth_le H hH; have := (group G hG).1; omega
    · have := tail.depth_le G hG; have := (group H hH).1; omega
    · refine ih (fun i j hi hj hij => ?_) G hG H hH hd hGH
      rw [objs_eq i hi, objs_eq j hj]
      exact hpos i j hi hj hij

end Shape

variable {α : Type} [LinearOrderedField α]

/-- **The Groups form a hierarchy.** For every matrix, `hwloc_setup_groups_from_distances`
never runs out of the model's fuel, and whenever it returns its Group objects (no level
failing at its factorisation), they come level by level, each level of at least two
Groups, each Group over at least two distinct objects of the level below (the input
objects, then the Groups of the previous depth) with the union of their cpusets as its
cpuset, and no object in two Groups of one level; at most `nbobjs - 1` Groups are created
in all; and when the input cpusets are pairwise disjoint, so are the cpusets of any two
Groups of one depth. -/
theorem hwlocSetupGroupsFromDistances_hierarchy (ignoreDistances : Bool) (n : Nat)
    (objs : Nat → Cpuset) (d : DistMatrix α) :
    hwlocSetupGroupsFromDistances ignoreDistances n objs d ≠ .error .outOfFuel ∧
    ∀ r, hwlocSetupGroupsFromDistances ignoreDistances n objs d = .ok r →
      GroupHierarchy n objs 0 r ∧ r.length ≤ n - 1 ∧
      ((∀ i j, i < n → j < n → i ≠ j → Disjoint (objs i) (objs j)) →
        ∀ G ∈ r, ∀ H ∈ r, G.depth = H.depth → G ≠ H → Disjoint G.cpuset H.cpuset) := by
  refine ⟨hwlocSetupGroupsFromDistances_ne_outOfFuel ignoreDistances n objs d, fun r hr => ?_⟩
  have h : GroupHierarchy n objs 0 r := by
    unfold hwlocSetupGroupsFromDistances at hr
    split_ifs at hr
    · cases hr; exact .nil n objs 0
    · exact setupGroupsRec_hierarchy hr
    · cases hr; exact .nil n objs 0
  exact ⟨h, h.length_le, h.disjoint_cpusets⟩

end Liblstopo
