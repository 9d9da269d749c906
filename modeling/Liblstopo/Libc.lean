import Liblstopo.Basic

/-!
# The C library scanners the parser calls

`strspn`, `strtoul`, the `%u` conversion of `sscanf`, and a decimal `strtof`, as the C
standard and glibc define them on a NUL-terminated string, which the model takes as the
list of its characters before the NUL. Each returns the value it read and the rest of the
string from the first character it did not consume (`*endptr`); a scan that reads no digit
consumes nothing.

Not modelled: locales other than "C", and the hexadecimal, `inf` and `nan` forms of
`strtof` (the parser takes `strtof` as a parameter, and its laws hold for any).
-/

namespace Liblstopo

/-- `isspace` in the "C" locale. -/
def isCSpace (c : Char) : Bool :=
  c = ' ' || c = '\t' || c = '\n' || c = '\x0b' || c = '\x0c' || c = '\r'

/-- The value of a digit in bases up to 36 (`36` for a character that is no digit). -/
def digitValue (c : Char) : Nat :=
  if c.isDigit then c.toNat - '0'.toNat
  else if 'a' ≤ c ∧ c ≤ 'z' then c.toNat - 'a'.toNat + 10
  else if 'A' ≤ c ∧ c ≤ 'Z' then c.toNat - 'A'.toNat + 10
  else 36

/-- The longest prefix of digits valid in `base`, as values, and the rest. -/
def spanDigits (base : Nat) : List Char → List Nat × List Char
  | [] => ([], [])
  | c :: cs =>
    if digitValue c < base then
      let r := spanDigits base cs
      (digitValue c :: r.1, r.2)
    else ([], c :: cs)

/-- The number the digits spell in `base`. -/
def digitsValue (base : Nat) (ds : List Nat) : Nat := ds.foldl (fun v d => v * base + d) 0

/-- `ULONG_MAX` on an LP64 system. -/
def ulongMax : Nat := 2 ^ 64 - 1

/-- An optional sign: whether it was `-`, and the rest. -/
def scanSign : List Char → Bool × List Char
  | '-' :: r => (true, r)
  | '+' :: r => (false, r)
  | r => (false, r)

/-- The base `strtoul` settles on for `base == 0` and where its digits start: `0x` or
`0X` before a hexadecimal digit is base 16, another leading `0` base 8 (that `0` is an
octal digit), anything else base 10. -/
def detectBase : List Char → Nat × List Char
  | '0' :: c :: c' :: r =>
    if (c = 'x' ∨ c = 'X') ∧ digitValue c' < 16 then (16, c' :: r) else (8, '0' :: c :: c' :: r)
  | '0' :: r => (8, '0' :: r)
  | r => (10, r)

/-- `strtoul(s, &end, base)` for `base` `0` or `10`: leading white space, a sign, the
digits; `ULONG_MAX` on overflow, a negated value wraps modulo `2⁶⁴`; no digits give `0`
and leave `end` at `s`. -/
def strtoul (base : Nat) (s : List Char) : Nat × List Char :=
  let (neg, s2) := scanSign (s.dropWhile isCSpace)
  let (b, s3) := if base = 0 then detectBase s2 else (base, s2)
  let (ds, rest) := spanDigits b s3
  if ds = [] then (0, s) else
  let v := digitsValue b ds
  if ulongMax < v then (ulongMax, rest)
  else ((if neg then (2 ^ 64 - v) % 2 ^ 64 else v), rest)

/-- `%u` of `sscanf`: skip white space, read an optionally signed decimal integer as
`strtoul` with base `10` does, and store it in an `unsigned`; `none` on a matching
failure. -/
def scanUnsigned (s : List Char) : Option (Nat × List Char) :=
  let (neg, s2) := scanSign (s.dropWhile isCSpace)
  let (ds, rest) := spanDigits 10 s2
  if ds = [] then none else
  let v := digitsValue 10 ds
  let v := if ulongMax < v then ulongMax else if neg then (2 ^ 64 - v) % 2 ^ 64 else v
  some (v % 2 ^ 32, rest)

/-- `sscanf(s, "%u*%u*%u", &x, &y, &z)` with `z` preset to `1`: the number of conversions
(`0` standing also for `EOF`) and `x`, `y`, `z` (`0` where never assigned, `z` staying
`1`). -/
def sscanfGrouping (s : List Char) : Nat × Nat × Nat × Nat :=
  match scanUnsigned s with
  | none => (0, 0, 0, 1)
  | some (x, '*' :: r) =>
    match scanUnsigned r with
    | none => (1, x, 0, 1)
    | some (y, '*' :: r') =>
      match scanUnsigned r' with
      | none => (2, x, y, 1)
      | some (z, _) => (3, x, y, z)
    | some (y, _) => (2, x, y, 1)
  | some (x, _) => (1, x, 0, 1)

/-- A decimal `strtof`: white space, a sign, digits with an optional fraction (at least
one digit in all), an optional exponent; the exact value. No digits give `0` and leave
`end` at `s`. -/
def strtofDecimal {α : Type} [LinearOrderedField α] (s : List Char) : α × List Char :=
  let (neg, s2) := scanSign (s.dropWhile isCSpace)
  let (ip, s3) := spanDigits 10 s2
  let (fp, s4) := match s3 with
    | '.' :: r => spanDigits 10 r
    | r => ([], r)
  if ip ++ fp = [] then (0, s) else
  let (e, s5) : Int × List Char := match s4 with
    | c :: r =>
      if c = 'e' ∨ c = 'E' then
        let (eneg, r') := scanSign r
        let (eds, r'') := spanDigits 10 r'
        if eds = [] then (0, s4)
        else ((if eneg then -(digitsValue 10 eds : Int) else digitsValue 10 eds), r'')
      else (0, s4)
    | [] => (0, [])
  let m : α := (digitsValue 10 (ip ++ fp) : α) * (10 : α) ^ (e - fp.length)
  ((if neg then -m else m), s5)

/-! ## Reading a run of decimal digits -/

theorem isDigit_iff (c : Char) : c.isDigit = true ↔ 48 ≤ c.toNat ∧ c.toNat ≤ 57 := by
  simp only [Char.isDigit, Bool.and_eq_true, decide_eq_true_eq, UInt32.le_def, BitVec.le_def]
  rfl

theorem digitValue_lt_ten {c : Char} (h : c.isDigit = true) : digitValue c < 10 := by
  have := (isDigit_iff c).1 h
  simp only [digitValue, h, if_true]
  exact (show '0'.toNat = 48 from rfl) ▸ (by omega)

theorem isCSpace_of_isDigit {c : Char} (h : c.isDigit = true) : isCSpace c = false := by
  have := (isDigit_iff c).1 h
  simp only [isCSpace, Bool.or_eq_false_iff, decide_eq_false_iff_not]
  refine ⟨⟨⟨⟨⟨?_, ?_⟩, ?_⟩, ?_⟩, ?_⟩, ?_⟩ <;> rintro rfl <;> exact absurd this (by decide)

theorem scanSign_of_ne {c : Char} {r : List Char} (h1 : c ≠ '-') (h2 : c ≠ '+') :
    scanSign (c :: r) = (false, c :: r) := by
  unfold scanSign; split <;> simp_all

theorem detectBase_of_ne {c : Char} {r : List Char} (h : c ≠ '0') :
    detectBase (c :: r) = (10, c :: r) := by
  unfold detectBase; split <;> simp_all

theorem detectBase_zero {c : Char} {r : List Char} (h1 : c ≠ 'x') (h2 : c ≠ 'X') :
    detectBase ('0' :: c :: r) = (8, '0' :: c :: r) := by
  cases r with
  | nil => rfl
  | cons c' r => simp [detectBase, h1, h2]

theorem spanDigits_append {base : Nat} {sep : Char} (r : List Char) (hsep : base ≤ digitValue sep) :
    ∀ t : List Char, (∀ c ∈ t, digitValue c < base) →
      spanDigits base (t ++ sep :: r) = (t.map digitValue, sep :: r)
  | [], _ => by simp [spanDigits, Nat.not_lt.2 hsep]
  | c :: t, h => by
    simp [spanDigits, h c (List.mem_cons_self c t),
      spanDigits_append r hsep t fun c' hc' => h c' (List.mem_cons_of_mem c hc')]

/-- The number a run of decimal digits spells (`0` for the empty run). -/
def decimalValue (t : List Char) : Nat := digitsValue 10 (t.map digitValue)

/-- A run of decimal digits with no leading zero, unless it is `0` itself. -/
def DecimalToken (t : List Char) : Prop :=
  (∀ c ∈ t, c.isDigit = true) ∧ (t.head? = some '0' → t = ['0'])

/-- `strtoul` with base `0` reads such a token, followed by a comma or a colon, as the
decimal number it spells and stops at the separator. -/
theorem strtoul_decimalToken {t r : List Char} {sep : Char} (ht : DecimalToken t)
    (hv : decimalValue t ≤ ulongMax) (hsep : sep = ',' ∨ sep = ':') :
    strtoul 0 (t ++ sep :: r) = (decimalValue t, sep :: r) := by
  obtain ⟨hdv, hsp, hm, hp, h0, hx, hX⟩ : digitValue sep = 36 ∧ isCSpace sep = false ∧
      sep ≠ '-' ∧ sep ≠ '+' ∧ sep ≠ '0' ∧ sep ≠ 'x' ∧ sep ≠ 'X' := by
    rcases hsep with rfl | rfl <;> decide
  cases t with
  | nil =>
    have hspan := spanDigits_append r (show 10 ≤ digitValue sep by omega) [] nofun
    simp only [List.nil_append, List.map_nil] at hspan ⊢
    simp only [strtoul, List.dropWhile_cons_of_neg (show ¬ isCSpace sep = true by simp [hsp]),
      scanSign_of_ne hm hp, eq_self_iff_true, if_true, detectBase_of_ne h0, hspan]
    rfl
  | cons c cs =>
    obtain ⟨hd, hz⟩ := ht
    have hc := hd c (List.mem_cons_self c cs)
    have hsign : scanSign (c :: cs ++ sep :: r) = (false, c :: cs ++ sep :: r) :=
      scanSign_of_ne (by rintro rfl; exact absurd hc (by decide))
        (by rintro rfl; exact absurd hc (by decide))
    by_cases hc0 : c = '0'
    · subst hc0
      obtain rfl : cs = [] := by simpa using hz rfl
      have hspan := spanDigits_append r (show 8 ≤ digitValue sep by omega) ['0'] (by decide)
      simp only [List.cons_append, List.nil_append] at hspan hsign ⊢
      simp only [strtoul, List.dropWhile_cons_of_neg (show ¬ isCSpace '0' = true by decide),
        hsign, eq_self_iff_true, if_true, detectBase_zero hx hX, hspan]
      rfl
    · have hspan := spanDigits_append r (show 10 ≤ digitValue sep by omega) (c :: cs)
        fun c' hc' => digitValue_lt_ten (hd c' hc')
      simp only [List.cons_append] at hspan hsign ⊢
      simp only [strtoul, List.dropWhile_cons_of_neg (show ¬ isCSpace c = true by simp [isCSpace_of_isDigit hc]), hsign,
        eq_self_iff_true, if_true, detectBase_of_ne hc0, hspan]
      simp only [decimalValue, List.map_cons] at hv ⊢
      simp [Nat.not_lt.2 hv]

end Liblstopo
