import Liblstopo.Basic

/-!
# Grouping by minimal distance: the model

`hwloc_setup_group_from_min_distance` (distances.c, lines 357–429) as the code runs it.
It finds the least distance right of the diagonal, then scans the objects in index
order; each object not yet grouped seeds a group, which grows by rescans: a rescan
walks the members from `firstfound`, the first object the previous rescan added, and
gives the group id to every unassigned object at exactly the minimal distance from a
member. A group that found nobody is cancelled.

- `minDistance_le`, `minDistance_cases`: what the minimum scan
  computes.
- `attachMinimal_eq`: the closed form of one member's scan (lines 401–411).
- `rescan_frame`, `rescan_progress`: a rescan only hands the group id to unassigned
  objects, and a rescan that continues the `while` loop has assigned the object it
  continues from.
-/

namespace Liblstopo

variable {α : Type} [LinearOrderedField α]

/-- `float (*distances)[nbobjs][nbobjs]`: `d i j` is the distance from object `i` to
object `j`. -/
abbrev DistMatrix (α : Type) := Nat → Nat → α

/-- One comparison of the minimum scan: `if (v < min) min = v`. -/
def keepSmaller (m v : α) : α := if v < m then v else m

/-- "find the minimal distance" (lines 369–373): the least entry right of the diagonal,
starting from `FLT_MAX`. -/
def minDistance (n : Nat) (d : DistMatrix α) : α :=
  (List.range n).foldl (fun m i =>
    (List.range' (i + 1) (n - (i + 1))).foldl (fun m j => keepSmaller m (d i j)) m) fltMax

/-- The locals of one group's expansion: `groupids`, the `size` counter and
`newfirstfound` (`none` for `-1`). -/
structure Expansion where
  groupids : Nat → Nat
  size : Nat
  newfirstfound : Option Nat

/-- One `k` of the scan from member `j`: an unassigned object at the minimal distance
joins the group, and the first one found becomes `newfirstfound`. -/
def attachStep (d : DistMatrix α) (minD : α) (groupid j : Nat) (e : Expansion) (k : Nat) :
    Expansion :=
  if e.groupids k = 0 ∧ d j k = minD then
    ⟨Function.update e.groupids k groupid, e.size + 1, some (e.newfirstfound.getD k)⟩
  else e

/-- Lines 401–411: the scan of all `k` from member `j`. -/
def attachMinimal (n : Nat) (d : DistMatrix α) (minD : α) (groupid j : Nat) (e : Expansion) :
    Expansion :=
  (List.range n).foldl (attachStep d minD groupid j) e

/-- Lines 398–411: one rescan, over the members from `firstfound` on. -/
def rescan (n : Nat) (d : DistMatrix α) (minD : α) (groupid firstfound : Nat)
    (e : Expansion) : Expansion :=
  (List.range' firstfound (n - firstfound)).foldl (fun e j =>
    if e.groupids j = groupid then attachMinimal n d minD groupid j e else e)
    { e with newfirstfound := none }

/-- The `while (firstfound != -1)` loop of lines 393–413, with `fuel` bounding the number
of rescans; `none` when the fuel runs out. -/
def expandGroup (n : Nat) (d : DistMatrix α) (minD : α) (groupid : Nat) :
    Nat → Nat → Expansion → Option Expansion
  | 0, _, _ => none
  | fuel + 1, firstfound, e =>
    let e' := rescan n d minD groupid firstfound e
    match e'.newfirstfound with
    | none => some e'
    | some f => expandGroup n d minD groupid fuel f e'

/-- The state the outer `for (i ...)` loop carries: `groupids` and the next id. -/
structure Grouping where
  groupids : Nat → Nat
  groupid : Nat

/-- One `i` of lines 380–425: skip a grouped object; otherwise seed a group with it,
expand it (`nbobjs + 1` rescans always suffice, see `expandGroup_isSome`), and cancel
it if it stayed a singleton. -/
def seedGroup (n : Nat) (d : DistMatrix α) (minD : α) (g : Grouping) (i : Nat) :
    Option Grouping :=
  if g.groupids i ≠ 0 then some g else
  (expandGroup n d minD g.groupid (n + 1) i
      ⟨Function.update g.groupids i g.groupid, 1, none⟩).map fun e =>
    if e.size = 1 then ⟨Function.update e.groupids i 0, g.groupid⟩
    else ⟨e.groupids, g.groupid + 1⟩

/-- `hwloc_setup_group_from_min_distance`: the number of groups and the group ids
(`0` for an object in no group). -/
def hwlocSetupGroupFromMinDistance (n : Nat) (d : DistMatrix α) :
    Option (Nat × (Nat → Nat)) :=
  let minD := minDistance n d
  if minD = fltMax then some (0, fun _ => 0) else
  ((List.range n).foldlM (seedGroup n d minD) ⟨fun _ => 0, 1⟩).map
    fun g => (g.groupid - 1, g.groupids)

/-! ## The minimum scan -/

theorem keepSmaller_le_left (m v : α) : keepSmaller m v ≤ m := by
  unfold keepSmaller; split
  · exact le_of_lt ‹_›
  · exact le_rfl

theorem keepSmaller_le_right (m v : α) : keepSmaller m v ≤ v := by
  unfold keepSmaller; split
  · exact le_rfl
  · exact le_of_not_lt ‹_›

theorem keepSmaller_cases (m v : α) : keepSmaller m v = m ∨ keepSmaller m v = v := by
  unfold keepSmaller; split <;> simp

/-- Folding `keepSmaller` over a list gives a value below the start and below every
key, and equal to one of them. -/
theorem foldl_keepSmaller {β : Type} (v : β → α) :
    ∀ (l : List β) (m : α), l.foldl (fun m x => keepSmaller m (v x)) m ≤ m ∧
      (∀ x ∈ l, l.foldl (fun m x => keepSmaller m (v x)) m ≤ v x) ∧
      (l.foldl (fun m x => keepSmaller m (v x)) m = m ∨
        ∃ x ∈ l, l.foldl (fun m x => keepSmaller m (v x)) m = v x)
  | [], m => by simp
  | x :: l, m => by
    obtain ⟨h1, h2, h3⟩ := foldl_keepSmaller v l (keepSmaller m (v x))
    simp only [List.foldl_cons, List.mem_cons, forall_eq_or_imp, exists_eq_or_imp]
    refine ⟨h1.trans (keepSmaller_le_left m _), ⟨h1.trans (keepSmaller_le_right m _), h2⟩, ?_⟩
    rcases h3 with h3 | h3
    · rw [h3]; exact (keepSmaller_cases m (v x)).imp id Or.inl
    · exact Or.inr (Or.inr h3)

/-- The pairs `(i, j)` the minimum scan visits, in its order. -/
def upperPairs (n : Nat) : List (Nat × Nat) :=
  (List.range n).flatMap fun i => (List.range' (i + 1) (n - (i + 1))).map (Prod.mk i)

theorem mem_upperPairs {n : Nat} {p : Nat × Nat} : p ∈ upperPairs n ↔ p.1 < p.2 ∧ p.2 < n := by
  obtain ⟨i, j⟩ := p
  simp only [upperPairs, List.mem_flatMap, List.mem_range, List.mem_map, List.mem_range'_1,
    Prod.mk.injEq]
  constructor
  · rintro ⟨a, ha, b, hb, rfl, rfl⟩; omega
  · rintro ⟨h1, h2⟩; exact ⟨i, by omega, j, by omega, rfl, rfl⟩

theorem minDistance_eq_foldl (n : Nat) (d : DistMatrix α) :
    minDistance n d = (upperPairs n).foldl (fun m p => keepSmaller m (d p.1 p.2)) fltMax := by
  simp only [minDistance, upperPairs, foldl_flatMap', List.foldl_map]

theorem minDistance_le {n : Nat} {d : DistMatrix α} {i j : Nat} (hij : i < j) (hj : j < n) :
    minDistance n d ≤ d i j := by
  rw [minDistance_eq_foldl]
  exact (foldl_keepSmaller (fun p : Nat × Nat => d p.1 p.2) _ _).2.1 (i, j)
    (mem_upperPairs.2 ⟨hij, hj⟩)

theorem minDistance_cases (n : Nat) (d : DistMatrix α) :
    minDistance n d = fltMax ∨ ∃ i j, i < j ∧ j < n ∧ minDistance n d = d i j := by
  rw [minDistance_eq_foldl]
  refine (foldl_keepSmaller (fun p : Nat × Nat => d p.1 p.2) _ _).2.2.imp id ?_
  rintro ⟨⟨i, j⟩, hp, h⟩
  exact ⟨i, j, (mem_upperPairs.1 hp).1, (mem_upperPairs.1 hp).2, h⟩

/-- The minimum scan returns `m` when `m` is an entry right of the diagonal, no such entry
is smaller, and `m` is below `FLT_MAX`. -/
theorem minDistance_eq {n : Nat} {d : DistMatrix α} {m : α} {i j : Nat} (hij : i < j)
    (hj : j < n) (hm : d i j = m) (hle : ∀ a b, a < b → b < n → m ≤ d a b) (hmax : m < fltMax) :
    minDistance n d = m := by
  refine le_antisymm (hm ▸ minDistance_le hij hj) ?_
  rcases minDistance_cases n d with h | ⟨a, b, hab, hb, h⟩
  · rw [h]; exact hmax.le
  · rw [h]; exact hle a b hab hb

/-! ## One member's scan -/

section Attach

variable (d : DistMatrix α) (minD : α) (groupid j : Nat)

/-- The scan from member `j` over distinct candidates `ks`, in closed form: each
candidate that was unassigned and at the minimal distance gets the group id, `size`
grows by their number, and `newfirstfound`, if unset, becomes the first of them. -/
theorem foldl_attachStep :
    ∀ (ks : List Nat) (e : Expansion), ks.Nodup →
      ks.foldl (attachStep d minD groupid j) e =
        ⟨fun k => if k ∈ ks ∧ e.groupids k = 0 ∧ d j k = minD then groupid else e.groupids k,
          e.size + (ks.filter fun k => e.groupids k = 0 ∧ d j k = minD).length,
          e.newfirstfound <|> ks.find? fun k => e.groupids k = 0 ∧ d j k = minD⟩
  | [], e, _ => by simp
  | k :: ks, e, hnd => by
    obtain ⟨hk, hks⟩ := List.nodup_cons.1 hnd
    rw [List.foldl_cons, foldl_attachStep ks _ hks]
    by_cases hP : e.groupids k = 0 ∧ d j k = minD
    · have hsame : ∀ k' ∈ ks, (Function.update e.groupids k groupid k' = 0 ∧ d j k' = minD) ↔
          (e.groupids k' = 0 ∧ d j k' = minD) := fun k' hk' => by
        rw [Function.update_noteq (ne_of_mem_of_not_mem hk' hk)]
      have hstep : attachStep d minD groupid j e k =
          ⟨Function.update e.groupids k groupid, e.size + 1, some (e.newfirstfound.getD k)⟩ :=
        if_pos hP
      rw [hstep, Expansion.mk.injEq]
      refine ⟨funext fun k' => ?_, ?_, ?_⟩
      · by_cases h : k' = k
        · subst h; simp [hk, hP]
        · by_cases hm : k' ∈ ks
          · simp [h, hm, hsame k' hm]
          · simp [h, hm]
      · have hf : ks.filter (fun k' => decide (Function.update e.groupids k groupid k' = 0) &&
              decide (d j k' = minD)) =
            ks.filter (fun k' => decide (e.groupids k' = 0) && decide (d j k' = minD)) :=
          List.filter_congr fun k' hk' => by
            rw [Function.update_noteq (ne_of_mem_of_not_mem hk' hk)]
        simp [List.filter_cons, hP, hf]; omega
      · simp only [List.find?_cons, hP, and_self, decide_True]
        cases e.newfirstfound <;> rfl
    · have hstep : attachStep d minD groupid j e k = e := if_neg hP
      rw [hstep, Expansion.mk.injEq]
      refine ⟨funext fun k' => ?_, by simp [List.filter_cons, hP], by simp [List.find?_cons, hP]⟩
      by_cases h : k' = k
      · subst h; simp [hk, hP]
      · simp [h]

theorem attachMinimal_eq (n : Nat) (e : Expansion) :
    attachMinimal n d minD groupid j e =
      ⟨fun k => if k < n ∧ e.groupids k = 0 ∧ d j k = minD then groupid else e.groupids k,
        e.size + ((Finset.range n).filter fun k => e.groupids k = 0 ∧ d j k = minD).card,
        e.newfirstfound <|> (List.range n).find? fun k => e.groupids k = 0 ∧ d j k = minD⟩ := by
  rw [attachMinimal, foldl_attachStep d minD groupid j _ e (List.nodup_range n)]
  simp only [List.mem_range]
  rfl

end Attach

/-! ## Rescans -/

/-- The objects below `n` that carry id `c` (`c = 0`: the unassigned ones). -/
def members (ids : Nat → Nat) (n c : Nat) : Finset Nat :=
  (Finset.range n).filter fun k => ids k = c

@[simp] theorem mem_members {ids : Nat → Nat} {n c k : Nat} :
    k ∈ members ids n c ↔ k < n ∧ ids k = c := by
  simp [members]

/-- `ids'` differs from `ids` only at unassigned objects below `n`, which now carry
`groupid`. -/
def AssignsOnly (n groupid : Nat) (ids ids' : Nat → Nat) : Prop :=
  ∀ k, ids' k ≠ ids k → k < n ∧ ids k = 0 ∧ ids' k = groupid

theorem AssignsOnly.refl (n groupid : Nat) (ids : Nat → Nat) : AssignsOnly n groupid ids ids :=
  fun _ h => absurd rfl h

theorem AssignsOnly.trans {n groupid : Nat} {ids₁ ids₂ ids₃ : Nat → Nat} (hg : 0 < groupid)
    (h₁ : AssignsOnly n groupid ids₁ ids₂) (h₂ : AssignsOnly n groupid ids₂ ids₃) :
    AssignsOnly n groupid ids₁ ids₃ := fun k hk => by
  by_cases h : ids₃ k = ids₂ k
  · exact (h₁ k (h ▸ hk)).imp_right fun h' => ⟨h'.1, h ▸ h'.2⟩
  · obtain ⟨hn, h0, hgk⟩ := h₂ k h
    by_cases h' : ids₂ k = ids₁ k
    · exact ⟨hn, h' ▸ h0, hgk⟩
    · have := (h₁ k h').2.2; omega

theorem AssignsOnly.members_zero_subset {n groupid : Nat} {ids ids' : Nat → Nat}
    (hg : 0 < groupid) (h : AssignsOnly n groupid ids ids') :
    members ids' n 0 ⊆ members ids n 0 := fun k hk => by
  rw [mem_members] at hk ⊢
  by_cases hc : ids' k = ids k
  · exact ⟨hk.1, hc ▸ hk.2⟩
  · have := (h k hc).2.2; omega

section Rescan

variable {n : Nat} {d : DistMatrix α} {minD : α} {groupid : Nat}

/-- What holds of a state `e'` reached during a rescan that started from `e`: only
unassigned objects changed, to the group id, and `newfirstfound`, once set, is one
of them. -/
def RescanFrame (n groupid : Nat) (e e' : Expansion) : Prop :=
  AssignsOnly n groupid e.groupids e'.groupids ∧
    ∀ f, e'.newfirstfound = some f → f < n ∧ e.groupids f = 0 ∧ e'.groupids f = groupid

theorem attachMinimal_rescanFrame (hg : 0 < groupid) {e e' : Expansion} (j : Nat)
    (h : RescanFrame n groupid e e') :
    RescanFrame n groupid e (attachMinimal n d minD groupid j e') := by
  have hfresh : ∀ k, e'.groupids k = 0 → e.groupids k = 0 := fun k hk => by
    by_cases hc : e'.groupids k = e.groupids k
    · exact hc ▸ hk
    · have := (h.1 k hc).2.2; omega
  rw [attachMinimal_eq]
  refine ⟨fun k hk => ?_, fun f hf => ?_⟩
  · dsimp only at hk ⊢
    split at hk
    · next hP => rw [if_pos hP]; exact ⟨hP.1, hfresh k hP.2.1, rfl⟩
    · next hP => rw [if_neg hP]; exact h.1 k hk
  · dsimp only at hf ⊢
    cases hnf : e'.newfirstfound with
    | some f' =>
      rw [hnf] at hf
      cases hf
      obtain ⟨hn, h0, hgf⟩ := h.2 f hnf
      rw [if_neg fun hP => by omega]
      exact ⟨hn, h0, hgf⟩
    | none =>
      rw [hnf] at hf
      obtain ⟨hP, hn, -⟩ := List.find?_range_eq_some.1 hf
      simp only [decide_eq_true_eq] at hP
      rw [if_pos ⟨List.mem_range.1 hn, hP⟩]
      exact ⟨List.mem_range.1 hn, hfresh f hP.1, rfl⟩

/-- `rescan_frame`: a rescan only hands the group id to unassigned objects below `n`, and
the object it reports as `newfirstfound` is one of them. -/
theorem rescan_frame (hg : 0 < groupid) (firstfound : Nat) (e : Expansion) :
    RescanFrame n groupid e (rescan n d minD groupid firstfound e) := by
  refine foldl_invariant (RescanFrame n groupid e) _ _ _
    ⟨AssignsOnly.refl n groupid _, fun f hf => by cases hf⟩ fun e' j _ h => ?_
  dsimp only
  split
  · exact attachMinimal_rescanFrame hg j h
  · exact h

/-- `rescan_progress`: a rescan after which the `while` loop goes on has given the group
id to an object that had none, so fewer objects are left unassigned. -/
theorem rescan_progress (hg : 0 < groupid) {firstfound f : Nat} {e : Expansion}
    (hf : (rescan n d minD groupid firstfound e).newfirstfound = some f) :
    (members (rescan n d minD groupid firstfound e).groupids n 0).card <
      (members e.groupids n 0).card := by
  obtain ⟨hframe, hnf⟩ : RescanFrame n groupid e (rescan n d minD groupid firstfound e) :=
    rescan_frame hg firstfound e
  obtain ⟨hn, h0, hgf⟩ := hnf f hf
  refine Finset.card_lt_card ⟨hframe.members_zero_subset hg, fun hsub => ?_⟩
  have := (mem_members.1 (hsub (mem_members.2 ⟨hn, h0⟩))).2
  omega

/-- The `while` loop ends, with no more rescans than there are unassigned objects
plus one. -/
theorem expandGroup_isSome (hg : 0 < groupid) :
    ∀ (fuel firstfound : Nat) (e : Expansion), (members e.groupids n 0).card < fuel →
      (expandGroup n d minD groupid fuel firstfound e).isSome
  | 0, _, _, h => absurd h (Nat.not_lt_zero _)
  | fuel + 1, firstfound, e, h => by
    simp only [expandGroup]
    split
    · rfl
    · next f hf =>
      exact expandGroup_isSome hg fuel f _ (by have := rescan_progress hg hf; omega)

/-- The `size` counter keeps counting the group's members through a member's scan. -/
theorem attachMinimal_size (hg : 0 < groupid) (j : Nat) {e : Expansion}
    (h : e.size = (members e.groupids n groupid).card) :
    (attachMinimal n d minD groupid j e).size =
      (members (attachMinimal n d minD groupid j e).groupids n groupid).card := by
  rw [attachMinimal_eq]
  dsimp only
  have hsplit : members (fun k => if k < n ∧ e.groupids k = 0 ∧ d j k = minD then groupid
      else e.groupids k) n groupid = members e.groupids n groupid ∪
        (Finset.range n).filter (fun k => e.groupids k = 0 ∧ d j k = minD) := by
    ext k
    simp only [mem_members, Finset.mem_union, Finset.mem_filter, Finset.mem_range]
    by_cases hP : k < n ∧ e.groupids k = 0 ∧ d j k = minD
    · simp [hP]
    · rw [if_neg hP]; exact ⟨Or.inl, fun h => h.resolve_right hP⟩
  have hdisj : Disjoint (members e.groupids n groupid)
      ((Finset.range n).filter (fun k => e.groupids k = 0 ∧ d j k = minD)) :=
    Finset.disjoint_filter.2 fun k _ h1 h2 => by have := h2.1; omega
  rw [hsplit, Finset.card_union_of_disjoint hdisj, h]

theorem rescan_size (hg : 0 < groupid) (firstfound : Nat) {e : Expansion}
    (h : e.size = (members e.groupids n groupid).card) :
    (rescan n d minD groupid firstfound e).size =
      (members (rescan n d minD groupid firstfound e).groupids n groupid).card :=
  foldl_invariant (fun e' : Expansion => e'.size = (members e'.groupids n groupid).card) _ _ _ h
    fun e' j _ h' => by
      dsimp only
      split
      · exact attachMinimal_size hg j h'
      · exact h'

/-- A finished expansion only gave the group id to objects that had none, and its `size`
counts the group's members. -/
theorem expandGroup_spec (hg : 0 < groupid) :
    ∀ {fuel firstfound : Nat} {e e' : Expansion},
      expandGroup n d minD groupid fuel firstfound e = some e' →
      AssignsOnly n groupid e.groupids e'.groupids ∧
        (e.size = (members e.groupids n groupid).card →
          e'.size = (members e'.groupids n groupid).card)
  | 0, _, _, _, h => by cases h
  | fuel + 1, firstfound, e, e', h => by
    simp only [expandGroup] at h
    have hr : RescanFrame n groupid e (rescan n d minD groupid firstfound e) :=
      rescan_frame hg firstfound e
    split at h
    · cases h
      exact ⟨hr.1, rescan_size hg firstfound⟩
    · obtain ⟨h1, h2⟩ := expandGroup_spec hg h
      exact ⟨hr.1.trans hg h1, fun hs => h2 (rescan_size hg firstfound hs)⟩

end Rescan

end Liblstopo
