import Liblstopo.Lstopo.Collapse

/-!
# lstopo's userdata and output

`lstopo_prepare` (lstopo-core.c, lines 146–153) pushes an `lstopo_obj_userdata` record on
the `userdata` of every object of the tree, chained to what the object had, then lets
`lstopo_add_collapse_attributes` store into the records of PCI devices; `lstopo_destroy`
(lines 155–159) pops one record per object. `open_output` (lines 53–69) picks where the
output goes.

- `lstopoDestroyUserdata_populate`: popping after pushing gives every object its userdata
  back;
- `lstopoDestroy_prepare`: so does `lstopo_destroy` after `lstopo_prepare`, whatever the
  collapse pass stored;
- `lstopoDestroy_prepare_nested`: nested prepare/destroy pairs restore userdata in stack
  order;
- `userdataAt_prepare`, `userdataAt_prepare_stored`: after `lstopo_prepare` each object's
  `pci_collapsed` is the value the collapse pass stored for it, or `0`;
- `userdataAt_prepare_marked`: a nonzero `pci_collapsed` is found only on a device that
  collapses into an earlier one (`-1`) or on a device without I/O or Misc children (a count);
- `openOutput_eq_stdout`, `openOutput_eq_fopen`: when the output goes to standard output,
  and that an existing file is opened only with `overwrite` set.
-/

namespace Liblstopo

variable {β : Type}

/-- An object's `userdata` pointer: NULL, a pointer lstopo did not set, or an
`lstopo_obj_userdata` record, with its `pci_collapsed` and its `common.next`. -/
inductive Userdata (β : Type) where
  | null
  | foreign (p : β)
  | lstopo (pciCollapsed : Int) (next : Userdata β)
  deriving DecidableEq, Repr

/-- An object as the userdata passes see it: its address, its `userdata`, and the lists of
children that `first_child`, `io_first_child` and `misc_first_child` start and
`next_sibling` links. -/
structure HwlocObj (β : Type) where
  ptr : Nat
  userdata : Userdata β
  children : List (HwlocObj β)
  ioChildren : List (HwlocObj β)
  miscChildren : List (HwlocObj β)

mutual
/-- `lstopo_populate_userdata` (lines 71–88): push a record with `pci_collapsed = 0` on the
object, then on its normal, I/O and Misc children. -/
def lstopoPopulateUserdata : HwlocObj β → HwlocObj β
  | ⟨ptr, u, cs, io, misc⟩ =>
    ⟨ptr, .lstopo 0 u, populateChildren cs, populateChildren io, populateChildren misc⟩
/-- One of the child loops of `lstopo_populate_userdata`. -/
def populateChildren : List (HwlocObj β) → List (HwlocObj β)
  | [] => []
  | o :: os => lstopoPopulateUserdata o :: populateChildren os
end

/-- The first lines of `lstopo_destroy_userdata`: pop the record if `userdata` is not NULL;
`none` when the pointer is not lstopo's, which the code would read as its record. -/
def popUserdata : Userdata β → Option (Userdata β)
  | .null => some .null
  | .foreign _ => none
  | .lstopo _ next => some next

mutual
/-- `lstopo_destroy_userdata` (lines 90–107). -/
def lstopoDestroyUserdata : HwlocObj β → Option (HwlocObj β)
  | ⟨ptr, u, cs, io, misc⟩ => do
    let u ← popUserdata u
    let cs ← destroyChildren cs
    let io ← destroyChildren io
    let misc ← destroyChildren misc
    pure ⟨ptr, u, cs, io, misc⟩
/-- One of the child loops of `lstopo_destroy_userdata`. -/
def destroyChildren : List (HwlocObj β) → Option (List (HwlocObj β))
  | [] => some []
  | o :: os => do
    let o ← lstopoDestroyUserdata o
    let os ← destroyChildren os
    pure (o :: os)
end

/-- `((struct lstopo_obj_userdata *)userdata)->pci_collapsed = v`; a pointer that is not
lstopo's is left alone. -/
def setPciCollapsedUserdata (v : Int) : Userdata β → Userdata β
  | .lstopo _ next => .lstopo v next
  | u => u

mutual
/-- The store of `v` into the record of the object at address `p`. -/
def setPciCollapsed (p : Nat) (v : Int) : HwlocObj β → HwlocObj β
  | ⟨ptr, u, cs, io, misc⟩ =>
    ⟨ptr, if ptr = p then setPciCollapsedUserdata v u else u, setPciCollapsedChildren p v cs,
      setPciCollapsedChildren p v io, setPciCollapsedChildren p v misc⟩
/-- The store of `v` below a list of siblings. -/
def setPciCollapsedChildren (p : Nat) (v : Int) : List (HwlocObj β) → List (HwlocObj β)
  | [] => []
  | o :: os => setPciCollapsed p v o :: setPciCollapsedChildren p v os
end

/-- What `lstopo_prepare` reads of `struct lstopo_output` besides the topology. -/
structure LstopoOutput where
  collapse : Int

/-- `lstopo_init`, as far as `lstopo_prepare` reads it: collapsing is on. -/
def lstopoInit : LstopoOutput := { collapse := 1 }

/-- `lstopo_prepare` on the tree of root `root`, with `pcidevs` the devices
`hwloc_get_next_pcidev` yields. -/
def lstopoPrepare (loutput : LstopoOutput) (pcidevs : List PciDev) (root : HwlocObj β) :
    HwlocObj β :=
  let root := lstopoPopulateUserdata root
  if loutput.collapse ≠ 0 then
    (lstopoAddCollapseAttributes pcidevs).foldl (fun t m => setPciCollapsed m.1 m.2 t) root
  else root

/-- `lstopo_destroy` on the tree of root `root`. -/
def lstopoDestroy (root : HwlocObj β) : Option (HwlocObj β) := lstopoDestroyUserdata root

/-! ## Push and pop -/

mutual
/-- Popping after pushing gives every object of the tree its userdata back. -/
theorem lstopoDestroyUserdata_populate :
    ∀ o : HwlocObj β, lstopoDestroyUserdata (lstopoPopulateUserdata o) = some o
  | ⟨ptr, u, cs, io, misc⟩ => by
    rw [lstopoPopulateUserdata, lstopoDestroyUserdata, destroyChildren_populate cs,
      destroyChildren_populate io, destroyChildren_populate misc]
    rfl
theorem destroyChildren_populate :
    ∀ os : List (HwlocObj β), destroyChildren (populateChildren os) = some os
  | [] => rfl
  | o :: os => by
    rw [populateChildren, destroyChildren, lstopoDestroyUserdata_populate o,
      destroyChildren_populate os]
    rfl
end

theorem popUserdata_setPciCollapsedUserdata (v : Int) (u : Userdata β) :
    popUserdata (setPciCollapsedUserdata v u) = popUserdata u := by
  cases u <;> rfl

mutual
/-- Popping drops what was stored in the record. -/
theorem lstopoDestroyUserdata_setPciCollapsed (p : Nat) (v : Int) :
    ∀ o : HwlocObj β, lstopoDestroyUserdata (setPciCollapsed p v o) = lstopoDestroyUserdata o
  | ⟨ptr, u, cs, io, misc⟩ => by
    have hu : popUserdata (if ptr = p then setPciCollapsedUserdata v u else u) = popUserdata u := by
      split
      · exact popUserdata_setPciCollapsedUserdata v u
      · rfl
    rw [setPciCollapsed, lstopoDestroyUserdata, lstopoDestroyUserdata, hu,
      destroyChildren_setPciCollapsed p v cs, destroyChildren_setPciCollapsed p v io,
      destroyChildren_setPciCollapsed p v misc]
theorem destroyChildren_setPciCollapsed (p : Nat) (v : Int) :
    ∀ os : List (HwlocObj β),
      destroyChildren (setPciCollapsedChildren p v os) = destroyChildren os
  | [] => rfl
  | o :: os => by
    rw [setPciCollapsedChildren, destroyChildren, destroyChildren,
      lstopoDestroyUserdata_setPciCollapsed p v o, destroyChildren_setPciCollapsed p v os]
end

theorem lstopoDestroyUserdata_foldl_setPciCollapsed :
    ∀ (marks : List (Nat × Int)) (t : HwlocObj β),
      lstopoDestroyUserdata (marks.foldl (fun t m => setPciCollapsed m.1 m.2 t) t) =
        lstopoDestroyUserdata t
  | [], _ => rfl
  | m :: marks, t => by
    rw [List.foldl_cons, lstopoDestroyUserdata_foldl_setPciCollapsed marks,
      lstopoDestroyUserdata_setPciCollapsed]

/-- **`lstopo_destroy` undoes `lstopo_prepare`.** Whatever the output settings and the PCI
devices, destroying after preparing gives every object of the tree the userdata it had
before. -/
theorem lstopoDestroy_prepare (loutput : LstopoOutput) (pcidevs : List PciDev)
    (root : HwlocObj β) : lstopoDestroy (lstopoPrepare loutput pcidevs root) = some root := by
  unfold lstopoDestroy lstopoPrepare
  dsimp only
  split
  · rw [lstopoDestroyUserdata_foldl_setPciCollapsed, lstopoDestroyUserdata_populate]
  · exact lstopoDestroyUserdata_populate root

/-- **`lstopo_destroy` undoes `lstopo_prepare`, in stack order.** Destroying after
preparing gives every object of the tree the userdata it had before, whatever that
was; and after the prepares `outer` then the prepares `inner`, each with its own output
settings and devices, as many destroys as `inner` has give back the tree as it was after
`outer`: each destroy pops the record the last prepare still in place pushed. -/
theorem lstopoDestroy_prepare_nested (loutput : LstopoOutput) (pcidevs : List PciDev)
    (root : HwlocObj β) :
    lstopoDestroy (lstopoPrepare loutput pcidevs root) = some root ∧
      ∀ outer inner : List (LstopoOutput × List PciDev),
        (fun o => Option.bind o lstopoDestroy)^[inner.length]
            (some ((outer ++ inner).foldl (fun t r => lstopoPrepare r.1 r.2 t) root)) =
          some (outer.foldl (fun t r => lstopoPrepare r.1 r.2 t) root) := by
  refine ⟨lstopoDestroy_prepare loutput pcidevs root, fun outer inner => ?_⟩
  induction inner using List.reverseRecOn with
  | nil => rw [List.append_nil]; rfl
  | append_singleton inner r ih =>
    rw [List.length_append, List.length_singleton, Function.iterate_succ_apply, ← List.append_assoc,
      List.foldl_append, List.foldl_cons, List.foldl_nil, Option.some_bind, lstopoDestroy_prepare, ih]

/-! ## Where the output goes -/

/-- Where `open_output` sends the output: standard output, nowhere (NULL with `errno` set
to `EEXIST`), or the stream of `fopen(filename, "w")`. -/
inductive OutputStream where
  | stdout
  | eexist
  | fopen (filename : List Char)
  deriving DecidableEq, Repr

/-- `strrchr(s, c)`: the position of the last `c` in `s`. -/
def strrchr : List Char → Char → Option Nat
  | [], _ => none
  | x :: s, c =>
    match strrchr s c with
    | some i => some (i + 1)
    | none => if x = c then some 0 else none

/-- `open_output(filename, overwrite)` (lines 53–69); `stat` tells whether `stat` finds a
file of that name. -/
def openOutput (filename : Option (List Char)) (overwrite : Int) (stat : List Char → Bool) :
    OutputStream :=
  match filename with
  | none => .stdout
  | some f =>
    if f = ['-'] then .stdout
    else if f.head? = some '-' ∧ strrchr f '.' = some 1 then .stdout
    else if stat f = true ∧ overwrite = 0 then .eexist
    else .fopen f

theorem strrchr_eq_none {s : List Char} {c : Char} : strrchr s c = none ↔ c ∉ s := by
  induction s with
  | nil => simp [strrchr]
  | cons x s ih =>
    cases h : strrchr s c with
    | some i =>
      have hc : c ∈ s := by by_contra hc; rw [ih.2 hc] at h; cases h
      simp [strrchr, h, hc]
    | none =>
      simp only [strrchr, h]
      by_cases hx : x = c
      · subst hx; simp
      · simp [hx, Ne.symm hx, ih.1 h]

theorem strrchr_cons_eq_succ {x : Char} {s : List Char} {c : Char} {k : Nat} :
    strrchr (x :: s) c = some (k + 1) ↔ strrchr s c = some k := by
  cases h : strrchr s c with
  | some i => simp [strrchr, h]
  | none => simp only [strrchr, h]; split <;> simp

theorem strrchr_cons_eq_zero {y : Char} {s : List Char} {c : Char} :
    strrchr (y :: s) c = some 0 ↔ y = c ∧ c ∉ s := by
  cases h : strrchr s c with
  | some i =>
    have hc : c ∈ s := by by_contra hc; rw [strrchr_eq_none.2 hc] at h; cases h
    simp [strrchr, h, hc]
  | none => simp only [strrchr, h, strrchr_eq_none.1 h]; split <;> simp [*]

/-- **Standard output** is chosen for no name, for `-`, and for `-.` followed by a
format extension without another dot. -/
theorem openOutput_eq_stdout (filename : Option (List Char)) (overwrite : Int)
    (stat : List Char → Bool) :
    openOutput filename overwrite stat = .stdout ↔
      filename = none ∨ filename = some ['-'] ∨
        ∃ ext, '.' ∉ ext ∧ filename = some ('-' :: '.' :: ext) := by
  have hdash : ∀ f : List Char, (f.head? = some '-' ∧ strrchr f '.' = some 1) ↔
      ∃ ext, '.' ∉ ext ∧ f = '-' :: '.' :: ext := fun f => by
    match f with
    | [] => simp
    | [x] => simp [strrchr]
    | x :: y :: s =>
      rw [strrchr_cons_eq_succ, strrchr_cons_eq_zero]
      simp only [List.head?_cons, Option.some.injEq, List.cons.injEq]
      constructor
      · rintro ⟨rfl, rfl, hs⟩; exact ⟨s, hs, rfl, rfl, rfl⟩
      · rintro ⟨ext, hs, rfl, rfl, rfl⟩; exact ⟨rfl, rfl, hs⟩
  cases filename with
  | none => simp [openOutput]
  | some f =>
    have hrhs : (some f = none ∨ some f = some ['-'] ∨
        ∃ ext, '.' ∉ ext ∧ some f = some ('-' :: '.' :: ext)) ↔
          (f = ['-'] ∨ (f.head? = some '-' ∧ strrchr f '.' = some 1)) := by
      rw [hdash]; simp
    rw [hrhs]
    simp only [openOutput]
    split_ifs with h1 h2 h3
    · simp [h1]
    · simp [h2]
    · simp [h1, h2]
    · simp [h1, h2]

/-- A name with a second dot after `-.` is a file name, even though its extension names a
format. -/
example : openOutput (some "-.tar.gz".toList) 1 (fun _ => false) = .fopen "-.tar.gz".toList := by
  decide

/-- **An existing file is truncated only with `overwrite` set.** When `open_output` opens a
file, it is the one named, not `-`, and if `stat` finds it, `overwrite` is not `0`. -/
theorem openOutput_eq_fopen {filename : Option (List Char)} {overwrite : Int}
    {stat : List Char → Bool} {f : List Char}
    (h : openOutput filename overwrite stat = .fopen f) :
    filename = some f ∧ f ≠ ['-'] ∧ (stat f = true → overwrite ≠ 0) := by
  cases filename with
  | none => cases h
  | some g =>
    simp only [openOutput] at h
    split_ifs at h with h1 h2 h3
    cases h
    exact ⟨rfl, h1, fun hs ho => h3 ⟨hs, ho⟩⟩

/-! ## Where the collapse pass stores -/

mutual
/-- The `userdata` of the first object at address `p`, in the order the passes visit
objects. -/
def userdataAt (p : Nat) : HwlocObj β → Option (Userdata β)
  | ⟨ptr, u, cs, io, misc⟩ =>
    if ptr = p then some u
    else (userdataAtChildren p cs).orElse fun _ =>
      (userdataAtChildren p io).orElse fun _ => userdataAtChildren p misc
/-- The same below a list of siblings. -/
def userdataAtChildren (p : Nat) : List (HwlocObj β) → Option (Userdata β)
  | [] => none
  | o :: os => (userdataAt p o).orElse fun _ => userdataAtChildren p os
end

/-- The value of `pci_collapsed` that the stores `marks` leave at address `p`, starting
from `v`. -/
def lastStored (p : Nat) (marks : List (Nat × Int)) (v : Int) : Int :=
  marks.foldl (fun acc m => if m.1 = p then m.2 else acc) v

theorem orElse_map {γ δ : Type} (f : γ → δ) (a : Option γ) (b : Unit → Option γ) :
    (a.orElse b).map f = (a.map f).orElse fun u => (b u).map f := by
  cases a <;> rfl

mutual
theorem userdataAt_populate (p : Nat) :
    ∀ o : HwlocObj β, userdataAt p (lstopoPopulateUserdata o) = (userdataAt p o).map (.lstopo 0)
  | ⟨ptr, u, cs, io, misc⟩ => by
    rw [lstopoPopulateUserdata, userdataAt, userdataAt, userdataAtChildren_populate p cs,
      userdataAtChildren_populate p io, userdataAtChildren_populate p misc]
    split
    · rfl
    · rw [orElse_map, orElse_map]
theorem userdataAtChildren_populate (p : Nat) :
    ∀ os : List (HwlocObj β),
      userdataAtChildren p (populateChildren os) = (userdataAtChildren p os).map (.lstopo 0)
  | [] => rfl
  | o :: os => by
    rw [populateChildren, userdataAtChildren, userdataAtChildren, userdataAt_populate p o,
      userdataAtChildren_populate p os, orElse_map]
end

mutual
theorem userdataAt_setPciCollapsed (p q : Nat) (v : Int) :
    ∀ o : HwlocObj β, userdataAt p (setPciCollapsed q v o) =
      (userdataAt p o).map (if q = p then setPciCollapsedUserdata v else id)
  | ⟨ptr, u, cs, io, misc⟩ => by
    rw [setPciCollapsed, userdataAt, userdataAt, userdataAtChildren_setPciCollapsed p q v cs,
      userdataAtChildren_setPciCollapsed p q v io, userdataAtChildren_setPciCollapsed p q v misc]
    split
    · next h => subst h; by_cases hq : ptr = q <;> simp [hq, Ne.symm]
    · rw [orElse_map, orElse_map]
theorem userdataAtChildren_setPciCollapsed (p q : Nat) (v : Int) :
    ∀ os : List (HwlocObj β), userdataAtChildren p (setPciCollapsedChildren q v os) =
      (userdataAtChildren p os).map (if q = p then setPciCollapsedUserdata v else id)
  | [] => rfl
  | o :: os => by
    rw [setPciCollapsedChildren, userdataAtChildren, userdataAtChildren,
      userdataAt_setPciCollapsed p q v o, userdataAtChildren_setPciCollapsed p q v os, orElse_map]
end

/-- A run of stores leaves at address `p` the last value stored for it. -/
theorem userdataAt_foldl_setPciCollapsed (p : Nat) :
    ∀ (marks : List (Nat × Int)) (t : HwlocObj β) (a : Int) (x : Option (Userdata β)),
      userdataAt p t = x.map (.lstopo a) →
        userdataAt p (marks.foldl (fun t m => setPciCollapsed m.1 m.2 t) t) =
          x.map (.lstopo (lastStored p marks a))
  | [], _, _, _, h => h
  | m :: marks, t, a, x, h => by
    refine userdataAt_foldl_setPciCollapsed p marks _ _ x ?_
    rw [userdataAt_setPciCollapsed, h, Option.map_map]
    by_cases hm : m.1 = p
    · simp only [hm, if_true]; cases x <;> rfl
    · simp only [hm, if_false]; cases x <;> rfl

theorem lastStored_mem (p : Nat) (marks : List (Nat × Int)) (a : Int) :
    lastStored p marks a = a ∨ ∃ m ∈ marks, m.1 = p ∧ lastStored p marks a = m.2 :=
  foldl_invariant (fun v : Int => v = a ∨ ∃ m ∈ marks, m.1 = p ∧ v = m.2) _ marks a (Or.inl rfl)
    fun v m hmem hv => by
      dsimp only
      split
      · next hp => exact Or.inr ⟨m, hmem, hp, rfl⟩
      · exact hv

/-- **The collapse stores land in the records.** After `lstopo_prepare`, the object at
address `p` keeps its old userdata under lstopo's record, whose `pci_collapsed` is the last
value the collapse pass stored for `p`, or `0`; so it is `0`, `-1`, or a count of at
least `2`. -/
theorem userdataAt_prepare (loutput : LstopoOutput) (pcidevs : List PciDev) (root : HwlocObj β)
    (p : Nat) :
    userdataAt p (lstopoPrepare loutput pcidevs root) = (userdataAt p root).map
      (.lstopo (if loutput.collapse ≠ 0 then lastStored p (lstopoAddCollapseAttributes pcidevs) 0
        else 0)) ∧
    (lastStored p (lstopoAddCollapseAttributes pcidevs) 0 = 0 ∨
      lastStored p (lstopoAddCollapseAttributes pcidevs) 0 = -1 ∨
      2 ≤ lastStored p (lstopoAddCollapseAttributes pcidevs) 0) := by
  refine ⟨?_, ?_⟩
  · unfold lstopoPrepare
    dsimp only
    split
    · exact userdataAt_foldl_setPciCollapsed p _ _ 0 _ (userdataAt_populate p root)
    · exact userdataAt_populate p root
  · rcases lastStored_mem p (lstopoAddCollapseAttributes pcidevs) 0 with h | ⟨m, hm, -, h⟩
    · exact Or.inl h
    · rw [h]
      rcases lstopoAddCollapseAttributes_marks pcidevs m hm with ⟨c, d, -, -, rfl⟩ | ⟨c, -, -, h, -⟩
      · exact Or.inr (Or.inl rfl)
      · exact Or.inr (Or.inr h)

theorem lastStored_of_not_mem {p : Nat} {a : Int} :
    ∀ {marks : List (Nat × Int)}, p ∉ marks.map Prod.fst → lastStored p marks a = a
  | [], _ => rfl
  | m :: marks, h => by
    simp only [List.map_cons, List.mem_cons, not_or] at h
    simp only [lastStored, List.foldl_cons, if_neg (Ne.symm h.1)]
    exact lastStored_of_not_mem h.2

/-- Where each address is stored at most once, what is left at `p` is what was stored
there. -/
theorem lastStored_of_mem {p : Nat} {v a : Int} :
    ∀ {marks : List (Nat × Int)}, (marks.map Prod.fst).Nodup → (p, v) ∈ marks →
      lastStored p marks a = v
  | [], _, h => nomatch h
  | m :: marks, hnd, h => by
    rw [List.map_cons, List.nodup_cons] at hnd
    simp only [lastStored, List.foldl_cons]
    rcases List.mem_cons.1 h with rfl | h
    · rw [if_pos rfl]; exact lastStored_of_not_mem hnd.1
    · have hp : m.1 ≠ p := fun he => hnd.1 (he ▸ List.mem_map.2 ⟨(p, v), h, rfl⟩)
      rw [if_neg hp]; exact lastStored_of_mem hnd.2 h

/-- **Each record holds what the pass stored for its device.** With distinct device
addresses and collapsing on, the object at an address the pass stored `v` at holds its old
userdata under a record with `pci_collapsed = v`. -/
theorem userdataAt_prepare_stored (loutput : LstopoOutput) (pcidevs : List PciDev)
    (root : HwlocObj β) (hptr : (pcidevs.map PciDev.ptr).Nodup) (hcollapse : loutput.collapse ≠ 0)
    {p : Nat} {v : Int} (hm : (p, v) ∈ lstopoAddCollapseAttributes pcidevs) :
    userdataAt p (lstopoPrepare loutput pcidevs root) = (userdataAt p root).map (.lstopo v) := by
  rw [(userdataAt_prepare loutput pcidevs root p).1, if_pos hcollapse,
    lastStored_of_mem (lstopoAddCollapseAttributes_nodup pcidevs hptr) hm]

/-- **lstopo marks only devices that collapse.** After `lstopo_prepare`, an object whose new
record holds a nonzero `pci_collapsed` is a device of the walk: `-1` on a device that
collapses into a device before it, a count of at least `2` on a device without I/O or Misc
children. -/
theorem userdataAt_prepare_marked (loutput : LstopoOutput) (pcidevs : List PciDev)
    (root : HwlocObj β) {p : Nat} {v : Int} {u : Userdata β}
    (h : userdataAt p (lstopoPrepare loutput pcidevs root) = some (.lstopo v u)) (hv : v ≠ 0) :
    (v = -1 ∧ ∃ c d, [c, d].Sublist pcidevs ∧ d.collapsesInto c ∧ d.ptr = p) ∨
      (2 ≤ v ∧ ∃ c ∈ pcidevs, c.noIoMisc ∧ c.ptr = p) := by
  rw [(userdataAt_prepare loutput pcidevs root p).1] at h
  obtain ⟨_, -, hrec⟩ := Option.map_eq_some'.1 h
  injection hrec with hval
  subst hval
  split at hv
  · rcases lastStored_mem p (lstopoAddCollapseAttributes pcidevs) 0 with h0 | ⟨m, hm, hp, hval⟩
    · exact absurd h0 hv
    rw [if_pos ‹_›, hval]
    rcases lstopoAddCollapseAttributes_marks pcidevs m hm with ⟨c, d, hs, hcd, rfl⟩ | ⟨c, hc, hleaf, h2, hc'⟩
    · exact Or.inl ⟨rfl, c, d, hs, hcd, hp⟩
    · exact Or.inr ⟨h2, c, hc, hleaf, hc'.symm.trans hp⟩
  · exact absurd rfl hv

/-- A bridge at address `0` with two identical PCI devices, at addresses `1` and `3`, below
it; no object has userdata yet. -/
def twoDeviceTree : HwlocObj Unit :=
  ⟨0, .null, [], [⟨1, .null, [], [], []⟩, ⟨3, .null, [], [], []⟩], []⟩

/-- With collapsing on, the second of two identical devices finds `-1` in its record. -/
theorem second_device_collapsed :
    ([pciDevAt 1 0, pciDevAt 3 0].map PciDev.ptr).Nodup ∧ lstopoInit.collapse ≠ 0 ∧
      ((3 : Nat), (-1 : Int)) ∈ lstopoAddCollapseAttributes [pciDevAt 1 0, pciDevAt 3 0] ∧
      userdataAt 3 (lstopoPrepare lstopoInit [pciDevAt 1 0, pciDevAt 3 0] twoDeviceTree) =
        some (.lstopo (-1) .null) := by
  have hptr : ([pciDevAt 1 0, pciDevAt 3 0].map PciDev.ptr).Nodup := by decide
  have hon : lstopoInit.collapse ≠ 0 := by decide
  have hm : ((3 : Nat), (-1 : Int)) ∈ lstopoAddCollapseAttributes [pciDevAt 1 0, pciDevAt 3 0] := by
    decide
  exact ⟨hptr, hon, hm, userdataAt_prepare_stored lstopoInit _ twoDeviceTree hptr hon hm⟩

/-- The record of the second device holds `-1`, and that device collapses into the first. -/
theorem second_device_marked :
    userdataAt 3 (lstopoPrepare lstopoInit [pciDevAt 1 0, pciDevAt 3 0] twoDeviceTree) =
        some (.lstopo (-1) .null) ∧ (-1 : Int) ≠ 0 ∧
      ∃ c d, [c, d].Sublist [pciDevAt 1 0, pciDevAt 3 0] ∧ d.collapsesInto c ∧ d.ptr = 3 := by
  have h : userdataAt 3 (lstopoPrepare lstopoInit [pciDevAt 1 0, pciDevAt 3 0] twoDeviceTree) =
      some (.lstopo (-1) .null) := by
    decide
  have hv : (-1 : Int) ≠ 0 := by decide
  rcases userdataAt_prepare_marked lstopoInit _ twoDeviceTree h hv with ⟨-, hcd⟩ | ⟨h2, -⟩
  · exact ⟨h, hv, hcd⟩
  · exact absurd h2 (by decide)

end Liblstopo
