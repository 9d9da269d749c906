import Liblstopo.Distances.Store
import Liblstopo.Libc

/-!
# Distances from the environment

`hwloc_get_type_distances_from_string` (distances.c, lines 96–176) reads
`index[0],...,index[N-1]:BODY`, where `BODY` is `X*Y`, `X*Y*Z` or `N*N` values, and hands
what it read to `hwloc_topology__set_distance_matrix`; `hwloc_store_distances_from_env`
runs it on `HWLOC_<type>_DISTANCES` for every type. The model keeps the code's steps:
the counting loop over `strspn` runs of decimal digits, the index loop over `strtoul`
with base `0`, the `sscanf` for the shorthand and the `strtof` loop for the values, with
`strtof` a parameter.

- `hwlocGetTypeDistancesFromString_rejected`: every diagnostic leaves the store as it was;
- `parseIndexes_decimal`: tokens without a leading zero are read as decimal numbers and
  the index loop ends at `BODY`;
- `shorthandDistances_cell`, `shorthand_writes_past_calloc`: the generator writes the
  shorthand's cells when `nbobjs*nbobjs` fits in 32 bits, and past its buffer beyond;
- `hwlocGetTypeDistancesFromString_values`, `short_bodies_install`: the values loop in
  closed form, and the short bodies it accepts.
-/

namespace Liblstopo

variable {τ α : Type} [DecidableEq τ] [LinearOrderedField α]

/-! ## The model -/

/-- The counting loop (lines 107–119): each round skips a run of decimal digits and goes
on past a comma. The number of tokens, and where the loop stopped. -/
def countIndexes : List Char → Nat × List Char
  | [] => (1, [])
  | c :: cs =>
    if c.isDigit then countIndexes cs
    else if c = ',' then
      let r := countIndexes cs
      (r.1 + 1, r.2)
    else (1, c :: cs)

/-- The index loop (lines 132–135): `indexes[i] = strtoul(tmp, &next, 0)`, stored in an
`unsigned`, then `tmp = next+1`. The indexes and the final `tmp`. -/
def parseIndexes : Nat → List Char → List Nat × List Char
  | 0, tmp => ([], tmp)
  | k + 1, tmp =>
    let r := parseIndexes k (strtoul 0 tmp).2.tail
    ((strtoul 0 tmp).1 % 2 ^ 32 :: r.1, r.2)

/-- The shorthand's cell `(i, j)` (lines 150–157). -/
def groupingDistance (y z i j : Nat) : α :=
  if i = j then 1 else if i / z = j / z then 2 else if i / z / y = j / z / y then 4 else 8

/-- Lines 148–157: the zeroed `nbobjs*nbobjs` cells, cell `(i, j)` written at
`i*nbobjs+j` (an unsigned index). `List.set` drops a write past the end, where the code
writes past the `calloc` of line 128: the model follows the generator for fewer than
`65536` objects, where every write lands inside (`shorthandDistances_cell`). -/
def shorthandDistances (nbobjs y z : Nat) : List α :=
  (List.range nbobjs).foldl (fun l i => (List.range nbobjs).foldl (fun l j =>
    l.set ((i * nbobjs + j) % 2 ^ 32) (groupingDistance y z i j)) l)
    (List.replicate (matrixCells nbobjs) 0)

/-- The values loop (lines 161–171) from read `i` on, `k` reads left:
`distances[i] = strtof(tmp, &next)`, `tmp = next+1`, and a stop when `next` is the end of
the string before the last of the `total` values. -/
def readDistances (strtof : List Char → α × List Char) (total : Nat) :
    Nat → Nat → List Char → Except DistancesDiag (List α)
  | 0, _, _ => .ok []
  | k + 1, i, tmp =>
    if (strtof tmp).2 = [] ∧ i ≠ total - 1 then .error (.notEnoughValues (i + 1) total)
    else (readDistances strtof total k (i + 1) (strtof tmp).2.tail).map ((strtof tmp).1 :: ·)

/-- Lines 102–172: the diagnostic, or what the function hands to the setter (`nbobjs`,
the indexes and the distances). -/
def parseTypeDistances (strtof : List Char → α × List Char) (string : List Char) :
    Except DistancesDiag (Nat × List Nat × List α) :=
  let nbobjs := (countIndexes string).1
  if (countIndexes string).2.head? ≠ some ':' then .error .missingColon else
  let (indexes, tmp) := parseIndexes nbobjs string
  match sscanfGrouping tmp with
  | (cnt, x, y, z) =>
    if 2 ≤ cnt then
      if x * y * z % 2 ^ 32 ≠ nbobjs then
        .error (.invalidGrouping x y z (x * y * z % 2 ^ 32) nbobjs)
      else .ok (nbobjs, indexes, shorthandDistances nbobjs y z)
    else (readDistances strtof (matrixCells nbobjs) (matrixCells nbobjs) 0 tmp).map
      fun distances => (nbobjs, indexes, distances)

/-- `hwloc_get_type_distances_from_string`: the store and the diagnostic printed. -/
def hwlocGetTypeDistancesFromString (strtof : List Char → α × List Char)
    (s : DistancesStore τ α) (type : τ) (string : List Char) :
    DistancesStore τ α × Option DistancesDiag :=
  match parseTypeDistances strtof string with
  | .error e => (s, some e)
  | .ok (nbobjs, indexes, distances) =>
    let r := hwlocTopologySetDistanceMatrixInternal s type nbobjs indexes distances
    (r.1, if r.2 < 0 then some .invalidDistances else none)

/-- `hwloc_store_distances_from_env`: the parser on the value of `HWLOC_<type>_DISTANCES`
for every type where it is set. A parse changes only its own type's slot, so the loop
over the types is the parse of each slot from the store it started with. -/
def hwlocStoreDistancesFromEnv (strtof : List Char → α × List Char)
    (env : τ → Option (List Char)) (s : DistancesStore τ α) :
    DistancesStore τ α × (τ → Option DistancesDiag) :=
  (fun t => match env t with
    | some string => (hwlocGetTypeDistancesFromString strtof s t string).1 t
    | none => s t,
   fun t => (env t).bind fun string => (hwlocGetTypeDistancesFromString strtof s t string).2)

/-! ## What the parser hands to the setter -/

theorem parseIndexes_length : ∀ (k : Nat) (tmp : List Char), (parseIndexes k tmp).1.length = k
  | 0, _ => rfl
  | k + 1, tmp => by simp [parseIndexes, parseIndexes_length k]

theorem shorthandDistances_length (nbobjs y z : Nat) :
    (shorthandDistances nbobjs y z : List α).length = matrixCells nbobjs :=
  foldl_invariant (fun l : List α => l.length = matrixCells nbobjs) _ _ _
    (List.length_replicate _ _) fun _ _ _ hl =>
      foldl_invariant (fun l : List α => l.length = matrixCells nbobjs) _ _ _ hl
        fun _ _ _ hl => (List.length_set _ _ _).trans hl

omit [LinearOrderedField α] in
theorem readDistances_length (strtof : List Char → α × List Char) (total : Nat) :
    ∀ (k i : Nat) (tmp : List Char) (ds : List α),
      readDistances strtof total k i tmp = .ok ds → ds.length = k
  | 0, _, _, _, h => by cases h; rfl
  | k + 1, i, tmp, ds, h => by
    unfold readDistances at h
    split at h
    · cases h
    · obtain ⟨ds', hr, rfl⟩ := except_map_eq_ok h
      rw [List.length_cons, readDistances_length strtof total k (i + 1) _ ds' hr]

theorem parseTypeDistances_lengths {strtof : List Char → α × List Char} {string : List Char}
    {nbobjs : Nat} {indexes : List Nat} {distances : List α}
    (h : parseTypeDistances strtof string = .ok (nbobjs, indexes, distances)) :
    indexes.length = nbobjs ∧ distances.length = matrixCells nbobjs := by
  unfold parseTypeDistances at h
  split at h
  · cases h
  · dsimp only at h
    split at h
    · split at h
      · cases h
      · cases h; exact ⟨parseIndexes_length _ _, shorthandDistances_length _ _ _⟩
    · obtain ⟨ds, hr, he⟩ := except_map_eq_ok h
      cases he
      exact ⟨parseIndexes_length _ _, readDistances_length strtof _ _ 0 _ _ hr⟩

/-! ## The shorthand's cells -/

theorem cell_index_inj {n i j r c : Nat} (hj : j < n) (hc : c < n) (h : i * n + j = r * n + c) :
    i = r ∧ j = c := by
  have h1 : (i * n + j) / n = i := by
    rw [Nat.mul_comm, Nat.mul_add_div (by omega), Nat.div_eq_of_lt hj, Nat.add_zero]
  have h2 : (r * n + c) / n = r := by
    rw [Nat.mul_comm, Nat.mul_add_div (by omega), Nat.div_eq_of_lt hc, Nat.add_zero]
  have hir : i = r := by rw [← h1, h, h2]
  subst hir; exact ⟨rfl, by omega⟩

theorem cell_index_lt {n i j : Nat} (hi : i < n) (hj : j < n) : i * n + j < n * n := by
  have : (i + 1) * n ≤ n * n := Nat.mul_le_mul_right n hi
  rw [Nat.succ_mul] at this; omega

/-- The cells `i*nbobjs+j`, at their `unsigned` indexes, all lie in the `nbobjs*nbobjs`
cells allocated only if that product does not wrap. -/
theorem cells_fit_of_cover {nbobjs : Nat}
    (h : ∀ i j, i < nbobjs → j < nbobjs → (i * nbobjs + j) % 2 ^ 32 < matrixCells nbobjs) :
    nbobjs * nbobjs < 2 ^ 32 := by
  have hlt : matrixCells nbobjs < 2 ^ 32 := Nat.mod_lt _ (by norm_num)
  by_contra hc
  have hn : 0 < nbobjs := Nat.pos_of_ne_zero fun h0 => by subst h0; omega
  -- the cell at index `2^32 - 1` is one of them, and lies outside
  have hi : (2 ^ 32 - 1) / nbobjs < nbobjs := (Nat.div_lt_iff_lt_mul hn).2 (by omega)
  have h' := h _ _ hi (Nat.mod_lt (2 ^ 32 - 1) hn)
  rw [Nat.div_add_mod'] at h'
  omega

/-- **`nbobjs*nbobjs` wraps from `65536` objects on.** The cells allocated for a matrix,
`nbobjs*nbobjs` in `unsigned` arithmetic, are at least `nbobjs²` and hold every cell
`i*nbobjs+j` exactly when `nbobjs < 2^16`. From `2^16` on, the cell at index `2^32 - 1`
lies outside (at `nbobjs = 65536` nothing is allocated at all). -/
theorem allocated_cells_cover_iff (nbobjs : Nat) :
    (nbobjs * nbobjs ≤ matrixCells nbobjs ↔ nbobjs < 2 ^ 16) ∧
      ((∀ i j, i < nbobjs → j < nbobjs → (i * nbobjs + j) % 2 ^ 32 < matrixCells nbobjs) ↔
        nbobjs < 2 ^ 16) := by
  have hsq : nbobjs < 2 ^ 16 ↔ nbobjs * nbobjs < 2 ^ 32 := by
    rw [show (2 : Nat) ^ 32 = 2 ^ 16 * 2 ^ 16 by norm_num, Nat.mul_self_lt_mul_self_iff]
  have hlt : matrixCells nbobjs < 2 ^ 32 := Nat.mod_lt _ (by norm_num)
  rw [hsq]
  refine ⟨⟨fun h => by omega, fun h => (matrixCells_of_lt h).ge⟩,
    ⟨cells_fit_of_cover, fun h i j hi hj => ?_⟩⟩
  have := cell_index_lt hi hj
  rw [matrixCells_of_lt h, Nat.mod_eq_of_lt (by omega)]
  exact this

/-- The writes of lines 150–157 in loop order: the index `i*nbobjs+j` of cell `(i, j)`, in
`unsigned` arithmetic, and the value written there. -/
def shorthandWrites (nbobjs y z : Nat) : List (Nat × α) :=
  (allPairs nbobjs).map fun p => ((p.1 * nbobjs + p.2) % 2 ^ 32, groupingDistance y z p.1 p.2)

theorem shorthandDistances_eq_writes (nbobjs y z : Nat) :
    (shorthandDistances nbobjs y z : List α) = (shorthandWrites nbobjs y z).foldl
      (fun l w => l.set w.1 w.2) (List.replicate (matrixCells nbobjs) 0) := by
  simp only [shorthandDistances, shorthandWrites, allPairs, foldl_flatMap', List.foldl_map]

theorem length_shorthandWrites (nbobjs y z : Nat) :
    (shorthandWrites nbobjs y z : List (Nat × α)).length = nbobjs * nbobjs := by
  simp [shorthandWrites, allPairs, List.length_flatMap, Function.comp_def, List.map_const',
    List.sum_replicate]

/-- **`2*2*16384` writes past its buffer.** With `65536` indexes the product test passes,
but `calloc(nbobjs*nbobjs, sizeof(float))` (line 128) allocates no cell, `65536·65536`
wrapping to `0`: the generator still makes its `2^32` writes, each outside that buffer,
and the matrix handed on has no cell for the grouping to read. -/
theorem shorthand_writes_past_calloc :
    2 * 2 * 16384 % 2 ^ 32 = 65536 ∧ matrixCells 65536 = 0 ∧
      (shorthandWrites 65536 2 16384 : List (Nat × ℚ)).length = 2 ^ 32 ∧
      (∀ w ∈ (shorthandWrites 65536 2 16384 : List (Nat × ℚ)), matrixCells 65536 ≤ w.1) ∧
      (shorthandDistances 65536 2 16384 : List ℚ) = [] := by
  have hcells : matrixCells 65536 = 0 := by decide
  refine ⟨by decide, hcells, length_shorthandWrites 65536 2 16384,
    fun w _ => hcells ▸ Nat.zero_le w.1, List.eq_nil_of_length_eq_zero ?_⟩
  rw [shorthandDistances_length, hcells]

/-- The generator fills every cell with the shorthand's rule when its `nbobjs*nbobjs`
cells fit in 32 bits (beyond, `i*nbobjs+j` wraps and the writes leave the buffer). -/
theorem shorthandDistances_cell {nbobjs y z i j : Nat} (hfit : nbobjs * nbobjs < 2 ^ 32)
    (hi : i < nbobjs) (hj : j < nbobjs) :
    flatMatrix nbobjs (shorthandDistances nbobjs y z) i j = (groupingDistance y z i j : α) := by
  have hk := cell_index_lt hi hj
  have hlen : (List.replicate (matrixCells nbobjs) (0 : α)).length = nbobjs * nbobjs := by
    rw [List.length_replicate, matrixCells_of_lt hfit]
  rw [flatMatrix, shorthandDistances_eq_writes, getD_foldl_set 0 _ _ _ _ (hlen ▸ hk), if_pos]
  · exact ⟨_, List.mem_map.2 ⟨(i, j), mem_allPairs.2 ⟨hi, hj⟩, rfl⟩,
      Nat.mod_eq_of_lt (show i * nbobjs + j < 2 ^ 32 by omega)⟩
  · intro w hw hwk
    obtain ⟨⟨a, b⟩, hab, rfl⟩ := List.mem_map.1 hw
    obtain ⟨ha, hb⟩ : a < nbobjs ∧ b < nbobjs := mem_allPairs.1 hab
    dsimp only at hwk ⊢
    rw [Nat.mod_eq_of_lt (show a * nbobjs + b < 2 ^ 32 by have := cell_index_lt ha hb; omega)]
      at hwk
    obtain ⟨rfl, rfl⟩ := cell_index_inj hb hj hwk
    rfl

/-! ## What the store receives -/

section Install

variable (strtof : List Char → α × List Char) (s : DistancesStore τ α) (type : τ)
  (string : List Char)

theorem hwlocGetTypeDistancesFromString_of_error {e : DistancesDiag}
    (h : parseTypeDistances strtof string = .error e) :
    hwlocGetTypeDistancesFromString strtof s type string = (s, some e) := by
  rw [hwlocGetTypeDistancesFromString, h]

/-- A parse that succeeds installs the matrix iff its indexes are distinct, and otherwise
prints "invalid" and leaves the store as it was. -/
theorem hwlocGetTypeDistancesFromString_of_ok {nbobjs : Nat} {indexes : List Nat}
    {distances : List α} (h : parseTypeDistances strtof string = .ok (nbobjs, indexes, distances)) :
    hwlocGetTypeDistancesFromString strtof s type string =
      if indexes.Nodup then
        (Function.update s type (installMatrix (s type) nbobjs indexes distances), none)
      else (s, some .invalidDistances) := by
  obtain ⟨hdup, hok⟩ := hwlocTopologySetDistanceMatrixInternal_spec s type nbobjs indexes distances
    (parseTypeDistances_lengths h).1
  rw [hwlocGetTypeDistancesFromString, h]
  split_ifs with hn
  · simp only [hok hn]; rfl
  · simp only [hdup hn]; rfl

/-- **A rejected string changes nothing.** Whatever the diagnostic (missing colon, bad
grouping product, too few values, duplicate indexes), the store is left as it was. -/
theorem hwlocGetTypeDistancesFromString_rejected
    (h : (hwlocGetTypeDistancesFromString strtof s type string).2 ≠ none) :
    (hwlocGetTypeDistancesFromString strtof s type string).1 = s := by
  cases hp : parseTypeDistances strtof string with
  | error e => rw [hwlocGetTypeDistancesFromString_of_error strtof s type string hp]
  | ok r =>
    obtain ⟨nbobjs, indexes, distances⟩ := r
    rw [hwlocGetTypeDistancesFromString_of_ok strtof s type string hp] at h ⊢
    split_ifs at h ⊢ with hn
    · exact absurd rfl h
    · rfl

theorem hwlocGetTypeDistancesFromString_inv (hs : ∀ t, SlotInv (s t)) (t : τ) :
    SlotInv ((hwlocGetTypeDistancesFromString strtof s type string).1 t) := by
  unfold hwlocGetTypeDistancesFromString
  split
  · exact hs t
  · next h =>
    exact hwlocTopologySetDistanceMatrixInternal_inv hs (parseTypeDistances_lengths h).1
      (parseTypeDistances_lengths h).2 t

end Install

theorem hwlocStoreDistancesFromEnv_inv (strtof : List Char → α × List Char)
    (env : τ → Option (List Char)) {s : DistancesStore τ α} (hs : ∀ t, SlotInv (s t)) (t : τ) :
    SlotInv ((hwlocStoreDistancesFromEnv strtof env s).1 t) := by
  unfold hwlocStoreDistancesFromEnv
  dsimp only
  split
  · exact hwlocGetTypeDistancesFromString_inv strtof s t _ hs t
  · exact hs t

/-- The environment's string for a type either leaves that slot of every store as it is or
installs one matrix in it, the same whatever the store. -/
theorem hwlocStoreDistancesFromEnv_slot (strtof : List Char → α × List Char)
    (env : τ → Option (List Char)) (t : τ) :
    (∀ s : DistancesStore τ α, (hwlocStoreDistancesFromEnv strtof env s).1 t = s t) ∨
      ∃ nbobjs indexes distances, ∀ s : DistancesStore τ α,
        (hwlocStoreDistancesFromEnv strtof env s).1 t = installMatrix (s t) nbobjs indexes distances := by
  unfold hwlocStoreDistancesFromEnv
  dsimp only
  cases env t with
  | none => exact Or.inl fun _ => rfl
  | some string =>
    dsimp only
    cases hp : parseTypeDistances strtof string with
    | error e =>
      exact Or.inl fun s => by rw [hwlocGetTypeDistancesFromString_of_error strtof s t string hp]
    | ok r =>
      obtain ⟨nbobjs, indexes, distances⟩ := r
      by_cases hn : indexes.Nodup
      · exact Or.inr ⟨nbobjs, indexes, distances, fun s => by
          rw [hwlocGetTypeDistancesFromString_of_ok strtof s t string hp, if_pos hn]
          exact Function.update_same _ _ _⟩
      · exact Or.inl fun s => by
          rw [hwlocGetTypeDistancesFromString_of_ok strtof s t string hp, if_neg hn]

/-! ## The index loop -/

/-- The text `t₀,t₁,...` of a list of index tokens. -/
def joinTokens : List (List Char) → List Char
  | [] => []
  | [t] => t
  | t :: t' :: ts => t ++ ',' :: joinTokens (t' :: ts)

theorem countIndexes_digits (r : List Char) :
    ∀ t : List Char, (∀ c ∈ t, c.isDigit = true) → countIndexes (t ++ r) = countIndexes r
  | [], _ => rfl
  | c :: t, h => by
    simp only [List.cons_append, countIndexes, h c (List.mem_cons_self c t), if_true]
    exact countIndexes_digits r t fun c' hc' => h c' (List.mem_cons_of_mem c hc')

/-- The counting loop counts the tokens and stops at the colon. -/
theorem countIndexes_joinTokens (body : List Char) :
    ∀ toks : List (List Char), toks ≠ [] → (∀ t ∈ toks, ∀ c ∈ t, c.isDigit = true) →
      countIndexes (joinTokens toks ++ ':' :: body) = (toks.length, ':' :: body)
  | [t], _, h => by
    rw [joinTokens, countIndexes_digits _ t (h t (List.mem_singleton_self t))]
    rfl
  | t :: t' :: ts, _, h => by
    have ih := countIndexes_joinTokens body (t' :: ts) (List.cons_ne_nil t' ts)
      fun u hu => h u (List.mem_cons_of_mem t hu)
    rw [joinTokens, List.append_assoc, List.cons_append,
      countIndexes_digits _ t (h t (List.mem_cons_self t _))]
    simp only [countIndexes, ih]
    rfl

/-- The index loop reads each token as the decimal number it spells and ends at
`BODY`. -/
theorem parseIndexes_joinTokens (body : List Char) :
    ∀ toks : List (List Char), toks ≠ [] →
      (∀ t ∈ toks, DecimalToken t ∧ decimalValue t < 2 ^ 32) →
        parseIndexes toks.length (joinTokens toks ++ ':' :: body) = (toks.map decimalValue, body)
  | [t], _, h => by
    obtain ⟨ht, hv⟩ := h t (List.mem_singleton_self t)
    simp only [joinTokens, List.length_singleton, parseIndexes,
      strtoul_decimalToken ht (by unfold ulongMax; omega) (Or.inr rfl), Nat.mod_eq_of_lt hv]
    rfl
  | t :: t' :: ts, _, h => by
    obtain ⟨ht, hv⟩ := h t (List.mem_cons_self t _)
    have ih := parseIndexes_joinTokens body (t' :: ts) (List.cons_ne_nil t' ts)
      fun u hu => h u (List.mem_cons_of_mem t hu)
    rw [joinTokens, List.append_assoc, List.cons_append, List.length_cons, parseIndexes,
      strtoul_decimalToken ht (by unfold ulongMax; omega) (Or.inl rfl)]
    simp only [Nat.mod_eq_of_lt hv, List.tail_cons, ih, List.map_cons]

/-- **Decimal indexes.** For index tokens written in decimal without leading zeros, each
below `2^32`: the counting loop finds as many indexes as there are tokens, and the index
loop reads each token as the decimal number it spells and ends at `BODY`. -/
theorem parseIndexes_decimal (body : List Char) (toks : List (List Char)) (hne : toks ≠ [])
    (htoks : ∀ t ∈ toks, DecimalToken t ∧ decimalValue t < 2 ^ 32) :
    countIndexes (joinTokens toks ++ ':' :: body) = (toks.length, ':' :: body) ∧
      parseIndexes toks.length (joinTokens toks ++ ':' :: body) = (toks.map decimalValue, body) :=
  ⟨countIndexes_joinTokens body toks hne fun t ht => (htoks t ht).1.1,
    parseIndexes_joinTokens body toks hne htoks⟩

/-- The indexes `5,12` are counted and read as written. -/
theorem decimal_indexes_read :
    [['5'], ['1', '2']] ≠ [] ∧
      (∀ t ∈ [['5'], ['1', '2']], DecimalToken t ∧ decimalValue t < 2 ^ 32) ∧
      countIndexes (joinTokens [['5'], ['1', '2']] ++ ':' :: "1,2,2,1".toList) =
        (2, ':' :: "1,2,2,1".toList) ∧
      parseIndexes 2 (joinTokens [['5'], ['1', '2']] ++ ':' :: "1,2,2,1".toList) =
        ([5, 12], "1,2,2,1".toList) := by
  have hne : [['5'], ['1', '2']] ≠ [] := List.cons_ne_nil _ _
  have htoks : ∀ t ∈ [['5'], ['1', '2']], DecimalToken t ∧ decimalValue t < 2 ^ 32 := by
    simp only [DecimalToken]; decide
  exact ⟨hne, htoks, parseIndexes_decimal "1,2,2,1".toList _ hne htoks⟩


/-- The counting loop takes `010` and `08` for decimal tokens, but `strtoul` with base `0`
reads `010` as the octal number `8`, and reads `08` as `0`, stopping before the `8`, which
`tmp = next+1` then skips: the next read starts at the comma, and the loop ends in the
middle of the index list instead of at `BODY`. -/
theorem parseIndexes_reads_octal :
    countIndexes "010:1".toList = (1, ":1".toList) ∧
      parseIndexes 1 "010:1".toList = ([8], "1".toList) ∧
      countIndexes "08,1:2".toList = (2, ":2".toList) ∧
      parseIndexes 2 "08,1:2".toList = ([0, 0], "1:2".toList) := by
  decide

/-! ## The shorthand -/

/-- With four indexes, `2147483650*2` passes the product test, since
`2147483650·2 = 2^32 + 4` wraps to `4`: no diagnostic is printed and the store receives
the matrix of `2*2`. -/
theorem grouping_product_wraps :
    2147483650 * 2 * 1 ≠ 4 ∧
      (hwlocGetTypeDistancesFromString strtofDecimal
        (hwlocTopologyDistancesInit : DistancesStore Unit ℚ) () "0,1,2,3:2147483650*2".toList).2 =
        none ∧
      ((hwlocGetTypeDistancesFromString strtofDecimal
        (hwlocTopologyDistancesInit : DistancesStore Unit ℚ) () "0,1,2,3:2147483650*2".toList).1
          ()).distances = some (shorthandDistances 4 2 1) := by
  decide

/-! ## The values loop in closed form -/

/-- Where read `k` of the values loop starts: each read starts one character past where
the previous one stopped. -/
def valuesCursor (strtof : List Char → α × List Char) : Nat → List Char → List Char
  | 0, tmp => tmp
  | k + 1, tmp => valuesCursor strtof k (strtof tmp).2.tail

/-- The first `total` reads from `tmp`, each one character past the previous stop. -/
def scannedValues (strtof : List Char → α × List Char) (total : Nat) (tmp : List Char) :
    List α :=
  (List.range total).map fun k => (strtof (valuesCursor strtof k tmp)).1

/-- No read before the last of `total` stops at the end of the string. -/
def ScanReachesAll (strtof : List Char → α × List Char) (total : Nat) (tmp : List Char) :
    Prop :=
  ∀ k, k + 1 < total → (strtof (valuesCursor strtof k tmp)).2 ≠ []

omit [LinearOrderedField α] in
/-- The values loop from read `i` with `k` reads left succeeds iff none of its reads stops
at the end of the string unless it is read `total - 1`, and then returns the reads. -/
theorem readDistances_eq_ok (strtof : List Char → α × List Char) (total : Nat) :
    ∀ (k i : Nat) (tmp : List Char) (ds : List α),
      readDistances strtof total k i tmp = .ok ds ↔
        (∀ m < k, i + m ≠ total - 1 → (strtof (valuesCursor strtof m tmp)).2 ≠ []) ∧
          ds = (List.range k).map fun m => (strtof (valuesCursor strtof m tmp)).1
  | 0, i, tmp, ds => by
    simp only [readDistances, Except.ok.injEq, List.range_zero, List.map_nil, eq_comm,
      Nat.not_lt_zero, false_implies, implies_true, true_and]
  | k + 1, i, tmp, ds => by
    have ih := readDistances_eq_ok strtof total k (i + 1) (strtof tmp).2.tail
    rw [readDistances]
    split
    · next hstop =>
      refine iff_of_false (fun h => nomatch h) fun ⟨h, _⟩ => h 0 (Nat.succ_pos k) hstop.2 hstop.1
    · next hstop =>
      constructor
      · intro h
        obtain ⟨ds', hr, rfl⟩ := except_map_eq_ok h
        obtain ⟨hall, rfl⟩ := (ih ds').1 hr
        refine ⟨fun m hm hne => ?_, by rw [List.range_succ_eq_map, List.map_cons, List.map_map]; rfl⟩
        cases m with
        | zero => exact fun h0 => hstop ⟨h0, hne⟩
        | succ m => exact hall m (by omega) (by omega)
      · rintro ⟨hall, rfl⟩
        rw [(ih _).2 ⟨fun m hm hne => hall (m + 1) (by omega) (by omega), rfl⟩,
          List.range_succ_eq_map, List.map_cons, List.map_map]
        rfl

/-- **Explicit values.** For a string whose counting loop stops at a colon after
`nbobjs` tokens and whose `BODY`, from where the index loop stopped, is no shorthand
for `sscanf`: the matrix is installed, holding the `nbobjs*nbobjs` reads of `strtof`
(each one character past the previous stop), iff the indexes are distinct and no read
before the last stops at the end of the string; otherwise the store is left as it was. -/
theorem hwlocGetTypeDistancesFromString_values (strtof : List Char → α × List Char)
    (s : DistancesStore τ α) (type : τ) {string rest tmp : List Char} {nbobjs : Nat}
    {indexes : List Nat} (hcount : countIndexes string = (nbobjs, ':' :: rest))
    (hidx : parseIndexes nbobjs string = (indexes, tmp)) (hbody : (sscanfGrouping tmp).1 < 2) :
    (hwlocGetTypeDistancesFromString strtof s type string =
        (Function.update s type (installMatrix (s type) nbobjs indexes
          (scannedValues strtof (matrixCells nbobjs) tmp)), none) ↔
      indexes.Nodup ∧ ScanReachesAll strtof (matrixCells nbobjs) tmp) ∧
    (¬ (indexes.Nodup ∧ ScanReachesAll strtof (matrixCells nbobjs) tmp) →
      (hwlocGetTypeDistancesFromString strtof s type string).1 = s) := by
  have hparse : parseTypeDistances strtof string =
      (readDistances strtof (matrixCells nbobjs) (matrixCells nbobjs) 0 tmp).map
        fun distances => (nbobjs, indexes, distances) := by
    unfold parseTypeDistances
    simp only [hcount, hidx, List.head?_cons, ne_eq, not_true_eq_false, if_false]
    rw [if_neg (by omega)]
  have hread := readDistances_eq_ok strtof (matrixCells nbobjs) (matrixCells nbobjs) 0 tmp
  by_cases hscan : ScanReachesAll strtof (matrixCells nbobjs) tmp
  · have hok : readDistances strtof (matrixCells nbobjs) (matrixCells nbobjs) 0 tmp =
        .ok (scannedValues strtof (matrixCells nbobjs) tmp) :=
      (hread _).2 ⟨fun m _ hne => hscan m (by omega), rfl⟩
    rw [hwlocGetTypeDistancesFromString_of_ok strtof s type string (by rw [hparse, hok]; rfl)]
    by_cases hn : indexes.Nodup <;> simp [hn, hscan]
  · obtain ⟨e, he⟩ : ∃ e, readDistances strtof (matrixCells nbobjs) (matrixCells nbobjs) 0 tmp =
        .error e := by
      cases h : readDistances strtof (matrixCells nbobjs) (matrixCells nbobjs) 0 tmp with
      | error e => exact ⟨e, rfl⟩
      | ok ds => exact absurd (fun k hk => ((hread ds).1 h).1 k (by omega) (by omega)) hscan
    rw [hwlocGetTypeDistancesFromString_of_error strtof s type string (by rw [hparse, he]; rfl)]
    simp [hscan]

/-- Two indexes and four values, read in order. -/
theorem values_read_from_body :
    countIndexes "0,1:1,2,3,4".toList = (2, ':' :: "1,2,3,4".toList) ∧
      parseIndexes 2 "0,1:1,2,3,4".toList = ([0, 1], "1,2,3,4".toList) ∧
      (sscanfGrouping "1,2,3,4".toList).1 < 2 ∧
      (hwlocGetTypeDistancesFromString strtofDecimal (hwlocTopologyDistancesInit : DistancesStore Unit ℚ)
          () "0,1:1,2,3,4".toList =
        (Function.update hwlocTopologyDistancesInit () (installMatrix
          ((hwlocTopologyDistancesInit : DistancesStore Unit ℚ) ()) 2 [0, 1]
          (scannedValues strtofDecimal (matrixCells 2) "1,2,3,4".toList)), none) ↔
        [0, 1].Nodup ∧ ScanReachesAll (strtofDecimal : List Char → ℚ × List Char) (matrixCells 2)
          "1,2,3,4".toList) :=
  ⟨by decide, by decide, by decide, (hwlocGetTypeDistancesFromString_values strtofDecimal
    hwlocTopologyDistancesInit ()
    (show countIndexes "0,1:1,2,3,4".toList = (2, ':' :: "1,2,3,4".toList) by decide)
    (by decide) (by decide)).1⟩

/-- **The values loop takes a short body for a full one.** Its end-of-string check (line
166) is skipped at the last read, and a read that finds no number stores `0`: with one
index the empty `BODY` installs a matrix, and with two indexes `1,2,3,`, three literals and
a trailing comma, installs four values, while `1,2,3` is refused for too few values. -/
theorem short_bodies_install :
    (hwlocGetTypeDistancesFromString strtofDecimal (hwlocTopologyDistancesInit : DistancesStore Unit ℚ)
        () "0:".toList).2 = none ∧
      ((hwlocGetTypeDistancesFromString strtofDecimal
        (hwlocTopologyDistancesInit : DistancesStore Unit ℚ) () "0:".toList).1 ()).indexes =
        some [0] ∧
      (hwlocGetTypeDistancesFromString strtofDecimal (hwlocTopologyDistancesInit : DistancesStore Unit ℚ)
        () "0,1:1,2,3,".toList).2 = none ∧
      (((hwlocGetTypeDistancesFromString strtofDecimal
        (hwlocTopologyDistancesInit : DistancesStore Unit ℚ) () "0,1:1,2,3,".toList).1 ()).distances.map
          List.length) = some 4 ∧
      (hwlocGetTypeDistancesFromString strtofDecimal (hwlocTopologyDistancesInit : DistancesStore Unit ℚ)
        () "0,1:1,2,3".toList).2 = some (.notEnoughValues 3 4) := by
  decide

end Liblstopo
