import Liblstopo.Distances.Normalize
import Liblstopo.Lstopo.Core

/-!
# The drawing callback of example.c

`callback` (example.c, lines 15–54) draws one object through `loutput->methods`. For a
package, a core, a processing unit or a cache it paints a box of the type's colour over
the object's rectangle and writes the type's label one grid unit in; for a NUMA node it
paints a second box inside the first, one grid unit in and `fontsize` plus two grid units
tall, and writes the label inside that; for any other type it draws nothing and returns
`-1`. The model returns the calls the callback makes, in order, with their arguments as it
computes them in `unsigned` arithmetic.

- `callback_boxes_inside`: every box it draws lies in the object's rectangle exactly when
  the object is not a NUMA node, or is at least two grid units wide and `fontsize` plus
  three grid units tall. A NUMA node less than two grid units wide gets an inner box whose
  width `width-2*gridsize` wraps to almost `2^32`.
-/

namespace Liblstopo

/-- The types `callback` tells apart: the labels of its `switch`, and `other` for every type
that takes the `default` branch. -/
inductive ExampleObjType
  | package | core | pu | numanode
  | l1cache | l2cache | l3cache | l4cache | l5cache | l1icache | l2icache | l3icache
  | other
  deriving DecidableEq, Repr

/-- A call of `methods->box` or `methods->text`, with its arguments after `loutput`: the
colour, the depth, and the rectangle, or the text's size, position and string. -/
inductive DrawCall
  | box (r g b depth x width y height : Nat)
  | text (r g b size depth x y : Nat) (s : List Char)
  deriving DecidableEq, Repr

/-- `a + b` on `unsigned` values. -/
def u32Add (a b : Nat) : Nat := (a + b) % 2 ^ 32

/-- The branch of packages, cores, processing units and caches: a box of colour `(r, g, b)`
over the object, and the label at `(x+gridsize, y+gridsize)`. -/
def labelledBox (fontsize gridsize r g b depth x width y height : Nat) (label : List Char) :
    List DrawCall :=
  [.box r g b depth x width y height,
    .text 0 0 0 fontsize depth (u32Add x gridsize) (u32Add y gridsize) label]

/-- `callback(loutput, obj, depth, x, width, y, height)` (lines 15–54), with `fontsize` and
`gridsize` read from `loutput` and `type` from `obj`: the calls it makes and its return
value. -/
def callback (fontsize gridsize : Nat) (type : ExampleObjType) (depth x width y height : Nat) :
    List DrawCall × Int :=
  match type with
  | .package => (labelledBox fontsize gridsize 0xff 0 0 depth x width y height "toto package".toList, 0)
  | .core => (labelledBox fontsize gridsize 0 0xff 0 depth x width y height "titi core".toList, 0)
  | .pu => (labelledBox fontsize gridsize 0 0 0xff depth x width y height "tutu pu".toList, 0)
  | .numanode =>
    ([.box 0xd2 0xe7 0xa4 depth x width y height,
      .box 0xff 0 0xff depth (u32Add x gridsize) (u32Sub width (2 * gridsize % 2 ^ 32))
        (u32Add y gridsize) (u32Add fontsize (2 * gridsize % 2 ^ 32)),
      .text 0 0 0 fontsize depth (u32Add x (2 * gridsize % 2 ^ 32))
        (u32Add y (2 * gridsize % 2 ^ 32)) "numanuma".toList], 0)
  | .l1cache | .l2cache | .l3cache | .l4cache | .l5cache | .l1icache | .l2icache | .l3icache =>
    (labelledBox fontsize gridsize 0xff 0xff 0 depth x width y height "$$$$$".toList, 0)
  | .other => ([], -1)

/-- A box call lies in the rectangle `[x, x + width) × [y, y + height)`; a text call is not
a box. -/
def BoxInside (x width y height : Nat) : DrawCall → Prop
  | .box _ _ _ _ x₁ w₁ y₁ h₁ => x ≤ x₁ ∧ x₁ + w₁ ≤ x + width ∧ y ≤ y₁ ∧ y₁ + h₁ ≤ y + height
  | .text .. => True

instance (x width y height : Nat) : DecidablePred (BoxInside x width y height) := fun c =>
  match c with
  | .box _ _ _ _ x₁ w₁ y₁ h₁ => inferInstanceAs
    (Decidable (x ≤ x₁ ∧ x₁ + w₁ ≤ x + width ∧ y ≤ y₁ ∧ y₁ + h₁ ≤ y + height))
  | .text .. => inferInstanceAs (Decidable True)

section Callback

variable (fontsize gridsize depth x width y height : Nat)

theorem labelledBox_inside (r g b : Nat) (label : List Char) :
    ∀ c ∈ labelledBox fontsize gridsize r g b depth x width y height label,
      BoxInside x width y height c := by
  simp [labelledBox, BoxInside]

/-- **The boxes stay in the object's rectangle unless a NUMA node is too small.** When the
sums the callback forms stay below `2^32`, every box it draws lies in the rectangle iff the
object is not a NUMA node, or is at least `2*gridsize` wide and `fontsize+3*gridsize` tall.
Narrower, the inner box's width `width-2*gridsize` wraps and the box runs past the right
edge; shorter, the inner box runs past the bottom edge. -/
theorem callback_boxes_inside (type : ExampleObjType)
    (hx : x + width + 2 * gridsize < 2 ^ 32) (hy : y + height + fontsize + 3 * gridsize < 2 ^ 32) :
    (∀ c ∈ (callback fontsize gridsize type depth x width y height).1, BoxInside x width y height c) ↔
      (type = .numanode → 2 * gridsize ≤ width ∧ fontsize + 3 * gridsize ≤ height) := by
  cases type
  case numanode =>
    have h2g : 2 * gridsize % 2 ^ 32 = 2 * gridsize := Nat.mod_eq_of_lt (by omega)
    simp only [callback, List.mem_cons, List.mem_singleton, List.not_mem_nil, or_false,
      forall_eq_or_imp, forall_eq, BoxInside, h2g, u32Add, u32Sub, and_true, true_implies]
    rw [Nat.mod_eq_of_lt (show x + gridsize < 2 ^ 32 by omega),
      Nat.mod_eq_of_lt (show y + gridsize < 2 ^ 32 by omega),
      Nat.mod_eq_of_lt (show fontsize + 2 * gridsize < 2 ^ 32 by omega)]
    -- the inner box's width wraps exactly when the node is narrower than two grid units
    by_cases hw : 2 * gridsize ≤ width
    · rw [show width + 2 ^ 32 - 2 * gridsize = width - 2 * gridsize + 2 ^ 32 by omega,
        Nat.add_mod_right, Nat.mod_eq_of_lt (by omega)]
      omega
    · rw [Nat.mod_eq_of_lt (show width + 2 ^ 32 - 2 * gridsize < 2 ^ 32 by omega)]
      omega
  case other => simp [callback]
  all_goals
    exact iff_of_true (labelledBox_inside fontsize gridsize depth x width y height _ _ _ _)
      fun h => nomatch h

/-- A NUMA node `6` wide with a grid of `5`: the inner box is `2^32 - 4` wide. -/
example : (callback 10 5 .numanode 0 0 6 0 100).1[1]? = some (.box 0xff 0 0xff 0 5 (2 ^ 32 - 4) 5 20) := by
  decide

/-- So that NUMA node's inner box leaves its rectangle. -/
theorem narrow_numa_box_outside :
    (0 + 6 + 2 * 5 < 2 ^ 32 ∧ 0 + 100 + 10 + 3 * 5 < 2 ^ 32) ∧
      ¬ ∀ c ∈ (callback 10 5 .numanode 0 0 6 0 100).1, BoxInside 0 6 0 100 c :=
  ⟨⟨by norm_num, by norm_num⟩, fun h => absurd
    ((callback_boxes_inside 10 5 0 0 6 0 100 .numanode (by norm_num) (by norm_num)).1 h rfl).1
    (by norm_num)⟩

end Callback

end Liblstopo
