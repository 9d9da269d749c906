import Mathlib

/-!
# Shared vocabulary of the distances code

The C types the distance code works with, as the model sees them:

- a `float` is a value of a linear ordered field `α` (exact arithmetic), with
  `FLT_MAX` and `FLT_MIN` the two `<float.h>` constants the code starts its scans at;
- an `unsigned` is a natural number, with the wrap of `x - 1u` made explicit where
  the code subtracts from a value that may be `0`;
- a cpuset is the finite set of processing units it covers;
- a C `for (i = s; i < s + len; i++)` loop is a `foldl` over `List.range' s len`,
  and `forLoop_induction` is the one invariant rule every loop proof goes through.
-/

namespace Liblstopo

/-- `hwloc_cpuset_t`: the processing units an object covers. -/
abbrev Cpuset := Finset Nat

/-- `FLT_MAX`, the largest finite `float`, `(2 − 2⁻²³)·2¹²⁷`. -/
def fltMax {α : Type} [LinearOrderedField α] : α :=
  340282346638528859811704183484516925440

/-- `FLT_MIN`, the least positive normal `float`, `2⁻¹²⁶`. -/
def fltMin {α : Type} [LinearOrderedField α] : α :=
  1 / 85070591730234615865843651857942052864

/-- `g - 1` on an `unsigned g`: wraps to `UINT_MAX` when `g = 0`. -/
def u32Pred (g : Nat) : Nat := if g = 0 then 2 ^ 32 - 1 else g - 1

@[simp] theorem u32Pred_zero : u32Pred 0 = 2 ^ 32 - 1 := rfl

theorem u32Pred_of_pos {g : Nat} (h : 0 < g) : u32Pred g = g - 1 := by
  simp [u32Pred, Nat.pos_iff_ne_zero.mp h]

theorem natCast_lt_fltMax {α : Type} [LinearOrderedField α] {n : Nat}
    (h : n < 340282346638528859811704183484516925440) : (n : α) < fltMax := by
  unfold fltMax; exact_mod_cast h

/-! ## Loops -/

/-- The invariant rule for `for (i = s; i < s + len; i++) b = f(b, i)`: a property
indexed by the loop counter that holds on entry and is kept by every iteration holds
on exit. -/
theorem forLoop_induction {β : Type} (P : Nat → β → Prop) (f : β → Nat → β) :
    ∀ (len s : Nat) (b : β), P s b →
      (∀ i b, s ≤ i → i < s + len → P i b → P (i + 1) (f b i)) →
      P (s + len) ((List.range' s len).foldl f b)
  | 0, s, b, h0, _ => h0
  | len + 1, s, b, h0, hs => by
      rw [List.range'_succ, List.foldl_cons, Nat.add_comm len 1, ← Nat.add_assoc]
      exact forLoop_induction P f len (s + 1) (f b s) (hs s b le_rfl (by omega) h0)
        fun i b hi hi' => hs i b (by omega) (by omega)

/-- The same rule for a loop whose body may fail (`Option`): if every iteration from a
state with the property succeeds into one with the property, the loop succeeds. -/
theorem forLoopM_induction {β : Type} (P : Nat → β → Prop) (f : β → Nat → Option β) :
    ∀ (len s : Nat) (b : β), P s b →
      (∀ i b, s ≤ i → i < s + len → P i b → ∃ b', f b i = some b' ∧ P (i + 1) b') →
      ∃ b', (List.range' s len).foldlM f b = some b' ∧ P (s + len) b'
  | 0, s, b, h0, _ => ⟨b, rfl, h0⟩
  | len + 1, s, b, h0, hs => by
      obtain ⟨b', hb', hP⟩ := hs s b le_rfl (by omega) h0
      rw [List.range'_succ, List.foldlM_cons, hb', show s + (len + 1) = s + 1 + len by omega]
      exact forLoopM_induction P f len (s + 1) b' hP
        fun i b hi hi' => hs i b (by omega) (by omega)

theorem foldl_invariant {β γ : Type} (Q : β → Prop) (f : β → γ → β) :
    ∀ (l : List γ) (b : β), Q b → (∀ b x, x ∈ l → Q b → Q (f b x)) → Q (l.foldl f b)
  | [], _, h0, _ => h0
  | x :: l, b, h0, hs =>
      foldl_invariant Q f l (f b x) (hs b x (List.mem_cons_self x l) h0)
        fun b y hy => hs b y (List.mem_cons_of_mem x hy)

theorem foldl_eq_self {β γ : Type} (f : β → γ → β) (b : β) :
    ∀ (l : List γ), (∀ x ∈ l, f b x = b) → l.foldl f b = b
  | [], _ => rfl
  | x :: l, h => by
      rw [List.foldl_cons, h x (List.mem_cons_self x l)]
      exact foldl_eq_self f b l fun y hy => h y (List.mem_cons_of_mem x hy)

theorem foldl_prod_mk {β γ δ : Type} (f : β → δ → β) (g : γ → δ → γ) :
    ∀ (l : List δ) (b : β) (c : γ),
      l.foldl (fun bc x => (f bc.1 x, g bc.2 x)) (b, c) = (l.foldl f b, l.foldl g c)
  | [], _, _ => rfl
  | x :: l, b, c => foldl_prod_mk f g l (f b x) (g c x)

theorem foldl_flatMap' {β γ δ : Type} (f : δ → γ → δ) (g : β → List γ) :
    ∀ (l : List β) (b : δ), (l.flatMap g).foldl f b = l.foldl (fun b a => (g a).foldl f b) b
  | [], _ => rfl
  | a :: l, b => by
    rw [List.flatMap_cons, List.foldl_append, List.foldl_cons, foldl_flatMap' f g l]

/-- Every pair `(i, j)` of `i, j < n`, in the order of two nested loops. -/
def allPairs (n : Nat) : List (Nat × Nat) :=
  (List.range n).flatMap fun i => (List.range n).map (Prod.mk i)

theorem mem_allPairs {n : Nat} {p : Nat × Nat} : p ∈ allPairs n ↔ p.1 < n ∧ p.2 < n := by
  obtain ⟨i, j⟩ := p
  simp only [allPairs, List.mem_flatMap, List.mem_range, List.mem_map, Prod.mk.injEq]
  constructor
  · rintro ⟨a, ha, b, hb, rfl, rfl⟩; exact ⟨ha, hb⟩
  · rintro ⟨hi, hj⟩; exact ⟨i, hi, j, hj, rfl, rfl⟩

/-! ## Writes into an array -/

theorem length_foldl_set {β : Type} :
    ∀ (ws : List (Nat × β)) (m : List β), (ws.foldl (fun m w => m.set w.1 w.2) m).length = m.length
  | [], _ => rfl
  | w :: ws, m => by rw [List.foldl_cons, length_foldl_set ws, List.length_set]

/-- A cell after a run of writes `m[w.1] = w.2` in which every write to it writes `v`:
`v` if one does, and what it held otherwise. -/
theorem getD_foldl_set {β : Type} (d v : β) (k : Nat) :
    ∀ (ws : List (Nat × β)) (m : List β), k < m.length → (∀ w ∈ ws, w.1 = k → w.2 = v) →
      (ws.foldl (fun m w => m.set w.1 w.2) m).getD k d =
        if ∃ w ∈ ws, w.1 = k then v else m.getD k d
  | [], m, _, _ => by simp
  | w :: ws, m, hk, hv => by
    rw [List.foldl_cons, getD_foldl_set d v k ws _ (by rw [List.length_set]; exact hk)
      fun w' hw' => hv w' (List.mem_cons_of_mem w hw')]
    by_cases hw : w.1 = k
    · have hset : (m.set w.1 w.2).getD k d = v := by
        rw [List.getD_eq_getElem?_getD, hw, List.getElem?_set_self hk, Option.getD_some]
        exact hv w (List.mem_cons_self w ws) hw
      rw [hset, ite_self]
      simp only [List.mem_cons, exists_eq_or_imp, hw, true_or, if_true]
    · have hset : (m.set w.1 w.2).getD k d = m.getD k d := by
        rw [List.getD_eq_getElem?_getD, List.getElem?_set_ne hw, ← List.getD_eq_getElem?_getD]
      rw [hset]
      simp only [List.mem_cons, exists_eq_or_imp, hw, false_or]

/-- The invariant rule for a loop that may fail: a property of the accumulator that holds
on entry and is kept by every step that succeeds holds on a successful exit. -/
theorem foldlM_invariant {β γ : Type} (Q : β → Prop) (f : β → γ → Option β) :
    ∀ (l : List γ) (b b' : β), Q b → (∀ b x b', x ∈ l → Q b → f b x = some b' → Q b') →
      l.foldlM f b = some b' → Q b'
  | [], _, _, h0, _, h => by cases h; exact h0
  | x :: l, b, b', h0, hs, h => by
    rw [List.foldlM_cons] at h
    cases hx : f b x with
    | none => rw [hx] at h; cases h
    | some c =>
      rw [hx] at h
      exact foldlM_invariant Q f l c b' (hs b x c (List.mem_cons_self x l) h0 hx)
        (fun b y b' hy => hs b y b' (List.mem_cons_of_mem x hy)) h

theorem foldlM_isSome {β γ : Type} (f : β → γ → Option β) (P : γ → Prop)
    (hf : ∀ b x, (f b x).isSome ↔ P x) :
    ∀ (l : List γ) (b : β), (l.foldlM f b).isSome ↔ ∀ x ∈ l, P x
  | [], _ => by simp
  | x :: l, b => by
    rw [List.foldlM_cons, List.forall_mem_cons, ← hf b x]
    cases f b x with
    | none => simp
    | some c => simp only [Option.some_bind, Option.isSome_some, true_and]; exact foldlM_isSome f P hf l c

/-- The outcomes of the fallible parts of the model are compared by `decide`. -/
instance instDecidableEqExcept {ε β : Type} [DecidableEq ε] [DecidableEq β] :
    DecidableEq (Except ε β)
  | .error a, .error b => if h : a = b then isTrue (h ▸ rfl) else isFalse fun e => h (by cases e; rfl)
  | .ok a, .ok b => if h : a = b then isTrue (h ▸ rfl) else isFalse fun e => h (by cases e; rfl)
  | .error _, .ok _ => isFalse fun e => nomatch e
  | .ok _, .error _ => isFalse fun e => nomatch e

theorem except_map_eq_ok {ε β γ : Type} {e : Except ε β} {f : β → γ} {c : γ}
    (h : e.map f = .ok c) : ∃ b, e = .ok b ∧ f b = c := by
  cases e with
  | error _ => cases h
  | ok b => cases h; exact ⟨b, rfl, rfl⟩

theorem except_map_eq_error {ε β γ : Type} {e : Except ε β} {f : β → γ} {x : ε} :
    e.map f = .error x ↔ e = .error x := by
  cases e <;> simp [Except.map]

end Liblstopo
