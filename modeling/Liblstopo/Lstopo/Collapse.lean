import Liblstopo.Basic

/-!
# Collapsing identical PCI devices

`lstopo_add_collapse_attributes` (lstopo-core.c, lines 109–144) walks the PCI devices in
the order `hwloc_get_next_pcidev` yields them. A device without I/O or Misc children
becomes the `collapser`; each device after it that has no such children either, the
collapser's parent and its vendor, device, subvendor and subdevice ids is marked `-1`
and counted in `collapsed`. A device that does not match ends the run when at least two
were counted, marking the collapser with their number; otherwise the collapser stays.

- `CollapseInv`: the loop's invariant after each prefix of the walk, from which the final
  store never dereferences a NULL collapser;
- `lstopoAddCollapseAttributes_marks`: every store is `-1` on a device that collapses
  into one before it, or a count of at least `2` on a device without I/O or Misc
  children;
- `lstopoAddCollapseAttributes_counts`: the counts stored add up, less one each, to the
  number of devices marked `-1`: every collapsed device is counted once;
- `lstopoAddCollapseAttributes_nodup`: no device is stored into twice.
-/

namespace Liblstopo

/-- What the pass reads of a PCI device: its address, its parent's, its numbers of I/O and
Misc children, and its PCI ids. -/
structure PciDev where
  ptr : Nat
  parent : Nat
  ioArity : Nat
  miscArity : Nat
  vendorId : Nat
  deviceId : Nat
  subvendorId : Nat
  subdeviceId : Nat
  deriving DecidableEq, Repr

/-- `!obj->io_arity && !obj->misc_arity`. -/
def PciDev.noIoMisc (d : PciDev) : Bool := d.ioArity = 0 && d.miscArity = 0

/-- The test of lines 116–121: `obj` has no I/O or Misc children, and the parent and the
ids of `collapser`. -/
def PciDev.collapsesInto (obj collapser : PciDev) : Bool :=
  obj.noIoMisc && obj.parent = collapser.parent && obj.vendorId = collapser.vendorId &&
    obj.deviceId = collapser.deviceId && obj.subvendorId = collapser.subvendorId &&
    obj.subdeviceId = collapser.subdeviceId

/-- The loop's locals `collapser` (`none` for NULL) and `collapsed`, and the stores to
`pci_collapsed` made so far, as device address and value, in order. -/
structure CollapseState where
  collapser : Option PciDev
  collapsed : Nat
  marks : List (Nat × Int)

/-- Lines 132–136: start a new collapsing at `obj` if it has no I/O or Misc children. -/
def startCollapsing (obj : PciDev) (st : CollapseState) : CollapseState :=
  if obj.noIoMisc then { st with collapser := some obj, collapsed := 1 } else st

/-- One iteration of the loop of lines 114–137. -/
def collapseStep (st : CollapseState) (obj : PciDev) : CollapseState :=
  match st.collapser with
  | none => startCollapsing obj st
  | some c =>
    if obj.collapsesInto c then
      { st with collapsed := st.collapsed + 1, marks := st.marks ++ [(obj.ptr, -1)] }
    else if st.collapsed > 1 then
      startCollapsing obj ⟨none, 0, st.marks ++ [(c.ptr, (st.collapsed : Int))]⟩
    else startCollapsing obj st

/-- `lstopo_add_collapse_attributes` on the devices `pcidevs`: its stores to
`pci_collapsed`, in order. The last store (lines 138–141) goes through `collapser`, which
`CollapseInv` shows is not NULL there. -/
def lstopoAddCollapseAttributes (pcidevs : List PciDev) : List (Nat × Int) :=
  let st := pcidevs.foldl collapseStep ⟨none, 0, []⟩
  if st.collapsed > 1 then
    match st.collapser with
    | some c => st.marks ++ [(c.ptr, (st.collapsed : Int))]
    | none => st.marks
  else st.marks

/-! ## The loop's invariant -/

/-- The sum, over the stored counts, of the count less one. -/
def countedSum (marks : List (Nat × Int)) : Int :=
  ((marks.filter fun m => decide (2 ≤ m.2)).map fun m => m.2 - 1).sum

/-- The number of devices marked `-1`. -/
def minusOnes (marks : List (Nat × Int)) : Nat :=
  (marks.filter fun m => decide (m.2 = -1)).length

@[simp] theorem countedSum_append (l l' : List (Nat × Int)) :
    countedSum (l ++ l') = countedSum l + countedSum l' := by
  simp [countedSum]

@[simp] theorem minusOnes_append (l l' : List (Nat × Int)) :
    minusOnes (l ++ l') = minusOnes l + minusOnes l' := by
  simp [minusOnes]

@[simp] theorem countedSum_singleton (p : Nat) (v : Int) :
    countedSum [(p, v)] = if 2 ≤ v then v - 1 else 0 := by
  unfold countedSum; split <;> simp [*]

@[simp] theorem minusOnes_singleton (p : Nat) (v : Int) :
    minusOnes [(p, v)] = if v = -1 then 1 else 0 := by
  unfold minusOnes; split <;> simp [*]

/-- What a store to `pci_collapsed` made while walking `done` can be: `-1` on a device
that collapses into a device before it, or a count of at least `2` on a device without
I/O or Misc children. -/
def CollapseMark (done : List PciDev) (m : Nat × Int) : Prop :=
  (∃ c d, [c, d].Sublist done ∧ d.collapsesInto c ∧ m = (d.ptr, -1)) ∨
    (∃ c ∈ done, c.noIoMisc ∧ 2 ≤ m.2 ∧ m.1 = c.ptr)

theorem CollapseMark.snoc {done : List PciDev} {m : Nat × Int} (x : PciDev)
    (h : CollapseMark done m) : CollapseMark (done ++ [x]) m :=
  h.imp (fun ⟨c, d, hs, hcd, hm⟩ => ⟨c, d, hs.trans (List.sublist_append_left done [x]), hcd, hm⟩)
    fun ⟨c, hc, hleaf, hv, hm⟩ => ⟨c, List.mem_append_left _ hc, hleaf, hv, hm⟩

/-- The invariant of the loop after walking `done`: there is a collapser exactly when
`collapsed` is not `0`, and then it is a device of `done` without I/O or Misc children;
every store so far is a `CollapseMark`; and the stored counts and the current one, less
one each, add up to the number of `-1` marks. -/
structure CollapseInv (done : List PciDev) (st : CollapseState) : Prop where
  collapser_iff : st.collapser = none ↔ st.collapsed = 0
  collapser_mem : ∀ c, st.collapser = some c → c ∈ done ∧ c.noIoMisc
  marks_spec : ∀ m ∈ st.marks, CollapseMark done m
  counts : countedSum st.marks + ((st.collapsed - 1 : Nat) : Int) = minusOnes st.marks

section Step

variable {done : List PciDev} {st : CollapseState} {obj : PciDev}

theorem CollapseInv.snoc (hinv : CollapseInv done st) (x : PciDev) :
    CollapseInv (done ++ [x]) st :=
  ⟨hinv.collapser_iff, fun c hc => (hinv.collapser_mem c hc).imp_left (List.mem_append_left _),
    fun m hm => (hinv.marks_spec m hm).snoc x, hinv.counts⟩

theorem startCollapsing_inv (hinv : CollapseInv (done ++ [obj]) st) (h1 : st.collapsed ≤ 1) :
    CollapseInv (done ++ [obj]) (startCollapsing obj st) := by
  unfold startCollapsing
  split
  · next hn =>
    refine ⟨by simp, fun c hc => ?_, hinv.marks_spec, ?_⟩
    · cases hc; exact ⟨List.mem_append_right _ (List.mem_singleton_self obj), hn⟩
    · have := hinv.counts; dsimp only at this ⊢; omega
  · exact hinv

theorem collapseStep_inv (hinv : CollapseInv done st) (obj : PciDev) :
    CollapseInv (done ++ [obj]) (collapseStep st obj) := by
  have hcounts := hinv.counts
  have hinv' := hinv.snoc obj
  unfold collapseStep
  split
  -- no collapser yet
  · next hc => exact startCollapsing_inv hinv' (by have := hinv.collapser_iff.1 hc; omega)
  · next c hc =>
    have hpos : st.collapsed ≠ 0 := fun h => by
      rw [hinv.collapser_iff.2 h] at hc; cases hc
    obtain ⟨hcmem, hcleaf⟩ := hinv'.collapser_mem c hc
    split
    -- the device collapses into the collapser: it is marked -1
    · next hmatch =>
      refine ⟨by simp [hc], hinv'.collapser_mem, fun m hm => ?_, ?_⟩
      · rcases List.mem_append.1 hm with hm | hm
        · exact hinv'.marks_spec m hm
        · exact Or.inl ⟨c, obj, (List.singleton_sublist.2 (hinv.collapser_mem c hc).1).append
            (List.Sublist.refl [obj]), hmatch, List.mem_singleton.1 hm⟩
      · simp only [countedSum_append, minusOnes_append, countedSum_singleton,
          minusOnes_singleton, if_pos rfl, show ¬ (2 : Int) ≤ -1 by decide, if_false]
        push_cast; omega
    · split
      -- a run of more than one ends: the collapser is marked with its count
      · next hgt =>
        refine startCollapsing_inv ⟨by simp, fun c' hc' => (nomatch hc'), fun m hm => ?_, ?_⟩
          (Nat.zero_le 1)
        · rcases List.mem_append.1 hm with hm | hm
          · exact hinv'.marks_spec m hm
          · exact Or.inr ⟨c, hcmem, hcleaf, by rw [List.mem_singleton.1 hm]; dsimp only; omega,
              by rw [List.mem_singleton.1 hm]⟩
        · simp only [countedSum_append, minusOnes_append, countedSum_singleton,
            minusOnes_singleton, if_pos (show (2 : Int) ≤ st.collapsed by omega),
            if_neg (show (st.collapsed : Int) ≠ -1 by omega)]
          omega
      -- a run of one ends unmarked
      · next hgt => exact startCollapsing_inv hinv' (by omega)

end Step

theorem collapseLoop_inv (pcidevs : List PciDev) :
    CollapseInv pcidevs (pcidevs.foldl collapseStep ⟨none, 0, []⟩) := by
  induction pcidevs using List.reverseRecOn with
  | nil => exact ⟨by simp, fun _ h => (nomatch h), fun _ h => (nomatch h), by simp [countedSum, minusOnes]⟩
  | append_singleton done obj ih =>
    rw [List.foldl_append, List.foldl_cons, List.foldl_nil]
    exact collapseStep_inv ih obj

/-! ## What the pass stores -/

/-- **Every store is `-1` on a device after one it collapses into, or a count of at
least `2` on a device without I/O or Misc children.** -/
theorem lstopoAddCollapseAttributes_marks (pcidevs : List PciDev) :
    ∀ m ∈ lstopoAddCollapseAttributes pcidevs, CollapseMark pcidevs m := by
  have hinv := collapseLoop_inv pcidevs
  unfold lstopoAddCollapseAttributes
  dsimp only
  generalize List.foldl collapseStep ⟨none, 0, []⟩ pcidevs = st at hinv ⊢
  split
  · next hgt =>
    split
    · next c hc =>
      intro m hm
      rcases List.mem_append.1 hm with hm | hm
      · exact hinv.marks_spec m hm
      · obtain ⟨hcmem, hcleaf⟩ := hinv.collapser_mem c hc
        exact Or.inr ⟨c, hcmem, hcleaf, by rw [List.mem_singleton.1 hm]; dsimp only; omega,
          by rw [List.mem_singleton.1 hm]⟩
    · exact hinv.marks_spec
  · exact hinv.marks_spec

/-- A device at address `ptr` with `io` I/O children, under the object at address `0`,
with the ids `1:1` and the subsystem ids `1:1`. -/
def pciDevAt (ptr io : Nat) : PciDev := ⟨ptr, 0, io, 0, 1, 1, 1, 1⟩

/-- A device with I/O children ends a run only once two devices were counted. After a
single collapser, such a device leaves the collapser in place, so the next identical
device is collapsed into it across the one in between. After a run of two, the same
device ends the run and the next identical device stays apart. -/
theorem collapse_across_device_with_children :
    (pciDevAt 2 1).noIoMisc = false ∧
      lstopoAddCollapseAttributes [pciDevAt 1 0, pciDevAt 2 1, pciDevAt 3 0] = [(3, -1), (1, 2)] ∧
      lstopoAddCollapseAttributes [pciDevAt 1 0, pciDevAt 4 0, pciDevAt 2 1, pciDevAt 3 0] =
        [(4, -1), (1, 2)] := by
  decide

/-- **Every collapsed device is counted once.** The counts the pass stores, less one
each, add up to the number of devices it marks `-1`. -/
theorem lstopoAddCollapseAttributes_counts (pcidevs : List PciDev) :
    countedSum (lstopoAddCollapseAttributes pcidevs) = minusOnes (lstopoAddCollapseAttributes pcidevs) := by
  have hinv := collapseLoop_inv pcidevs
  unfold lstopoAddCollapseAttributes
  dsimp only
  generalize List.foldl collapseStep ⟨none, 0, []⟩ pcidevs = st at hinv ⊢
  have hcounts := hinv.counts
  split
  · next hgt =>
    split
    · next c hc =>
      simp only [countedSum_append, minusOnes_append, countedSum_singleton, minusOnes_singleton,
        if_pos (show (2 : Int) ≤ st.collapsed by omega),
        if_neg (show (st.collapsed : Int) ≠ -1 by omega)]
      omega
    · next hc => exact absurd (hinv.collapser_iff.1 hc) (by omega)
  · next hgt => omega

/-! ## No device is stored twice -/

/-- Where there are no duplicate addresses among the devices walked: no address is
stored twice, and the collapser's has not been stored yet. -/
structure CollapseFresh (st : CollapseState) : Prop where
  nodup : (st.marks.map Prod.fst).Nodup
  collapser_fresh : ∀ c, st.collapser = some c → c.ptr ∉ st.marks.map Prod.fst

section Fresh

variable {done : List PciDev} {st : CollapseState} {obj : PciDev}

theorem startCollapsing_fresh (hf : CollapseFresh st) (hobj : obj.ptr ∉ st.marks.map Prod.fst) :
    CollapseFresh (startCollapsing obj st) := by
  unfold startCollapsing
  split
  · exact ⟨hf.nodup, fun c hc => by cases hc; exact hobj⟩
  · exact hf

/-- One iteration keeps the stores free of duplicates, for a device whose address is
not among those walked before. -/
theorem collapseStep_fresh (hinv : CollapseInv done st) (hf : CollapseFresh st)
    (hnew : obj.ptr ∉ done.map PciDev.ptr) : CollapseFresh (collapseStep st obj) := by
  have hmarks : ∀ m ∈ st.marks, m.1 ∈ done.map PciDev.ptr := fun m hm => by
    rcases hinv.marks_spec m hm with ⟨c, d, hs, -, rfl⟩ | ⟨c, hc, -, -, h⟩
    · exact List.mem_map.2 ⟨d, hs.subset (by simp), rfl⟩
    · exact List.mem_map.2 ⟨c, hc, h.symm⟩
  have hobj : obj.ptr ∉ st.marks.map Prod.fst := fun h => by
    obtain ⟨m, hm, he⟩ := List.mem_map.1 h
    exact hnew (he ▸ hmarks m hm)
  unfold collapseStep
  split
  · exact startCollapsing_fresh hf hobj
  · next c hc =>
    have hcne : c.ptr ≠ obj.ptr := fun h =>
      hnew (h ▸ List.mem_map.2 ⟨c, (hinv.collapser_mem c hc).1, rfl⟩)
    split
    · refine ⟨?_, fun c' hc' => ?_⟩
      · rw [List.map_append, List.map_singleton, ← List.concat_eq_append]
        exact hf.nodup.concat hobj
      · rw [hc] at hc'; cases hc'
        simp only [List.map_append, List.map_singleton, List.mem_append, List.mem_singleton,
          not_or]
        exact ⟨hf.collapser_fresh c hc, hcne⟩
    · split
      · refine startCollapsing_fresh ⟨?_, fun c' hc' => (nomatch hc')⟩ ?_
        · rw [List.map_append, List.map_singleton, ← List.concat_eq_append]
          exact hf.nodup.concat (hf.collapser_fresh c hc)
        · simp only [List.map_append, List.map_singleton, List.mem_append, List.mem_singleton,
            not_or]
          exact ⟨hobj, Ne.symm hcne⟩
      · exact startCollapsing_fresh hf hobj

end Fresh

/-- The loop over devices with distinct addresses stores into each at most once. -/
theorem collapseLoop_fresh :
    ∀ pcidevs : List PciDev, (pcidevs.map PciDev.ptr).Nodup →
      CollapseFresh (pcidevs.foldl collapseStep ⟨none, 0, []⟩) := by
  intro pcidevs
  induction pcidevs using List.reverseRecOn with
  | nil => intro _; exact ⟨List.nodup_nil, fun _ h => nomatch h⟩
  | append_singleton done obj ih =>
    intro hnd
    rw [List.map_append, List.map_singleton] at hnd
    rw [List.foldl_append, List.foldl_cons, List.foldl_nil]
    exact collapseStep_fresh (collapseLoop_inv done) (ih (List.nodup_append.1 hnd).1)
      fun h => (List.nodup_append.1 hnd).2.2 h (List.mem_singleton_self _)

/-- **No device is stored twice.** When the devices have distinct addresses, the pass
stores into each record at most once. -/
theorem lstopoAddCollapseAttributes_nodup (pcidevs : List PciDev)
    (hptr : (pcidevs.map PciDev.ptr).Nodup) :
    ((lstopoAddCollapseAttributes pcidevs).map Prod.fst).Nodup := by
  have hf := collapseLoop_fresh pcidevs hptr
  unfold lstopoAddCollapseAttributes
  dsimp only
  generalize List.foldl collapseStep ⟨none, 0, []⟩ pcidevs = st at hf ⊢
  split
  · split
    · next c hc =>
      rw [List.map_append, List.map_singleton, ← List.concat_eq_append]
      exact hf.nodup.concat (hf.collapser_fresh c hc)
    · exact hf.nodup
  · exact hf.nodup

end Liblstopo
