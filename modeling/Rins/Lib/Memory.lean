import Mathlib.Algebra.Order.Ring.Int
import Mathlib.Data.List.Basic
import Mathlib.Tactic.Common

/-!
# Memory — windows of a flat memory

A block of memory is a function from offsets to cells; offsets are integers, so that pointer
arithmetic that leaves the block on either side can be written down.  The only two operations are

* `read m off n`    : the `n` cells from offset `off` on, as a list;
* `write m off src` : the memory after the list `src` was copied to offset `off`.

`memcpy` is a `write` of a `read` of another block, `memmove` a `write` of a `read` of the same one.
-/

namespace Rins
namespace Lib
namespace Memory

variable {α : Type*}

/-- The `n` cells starting at offset `off`. -/
def read (m : Int → α) (off : Int) (n : Nat) : List α :=
  (List.range n).map fun i : Nat => m (off + (i : Int))

/-- The memory after `src` was copied to offset `off`. -/
def write (m : Int → α) (off : Int) (src : List α) : Int → α :=
  fun i => if off ≤ i then (src[(i - off).toNat]?).getD (m i) else m i

/-! ## Reading -/

@[simp] theorem length_read (m : Int → α) (off : Int) (n : Nat) : (read m off n).length = n := by
  simp [read]

@[simp] theorem read_zero (m : Int → α) (off : Int) : read m off 0 = [] := rfl

/-- Two adjacent windows are one window. -/
theorem read_add (m : Int → α) (off : Int) (n k : Nat) :
    read m off (n + k) = read m off n ++ read m (off + n) k := by
  simp [read, List.range_add, Function.comp_def, add_assoc]

theorem drop_read (m : Int → α) (off : Int) (n k : Nat) :
    (read m off n).drop k = read m (off + k) (n - k) := by
  rcases le_total k n with hkn | hnk
  · have hsplit : read m off n = read m off k ++ read m (off + k) (n - k) := by
      rw [← read_add, Nat.add_sub_cancel' hkn]
    rw [hsplit, List.drop_left' (length_read m off k)]
  -- all cells are dropped
  · have hzero : n - k = 0 := Nat.sub_eq_zero_of_le hnk
    simp [hzero, hnk]

theorem take_read (m : Int → α) (off : Int) {n k : Nat} (hkn : k ≤ n) :
    (read m off n).take k = read m off k := by
  have hsplit : read m off n = read m off k ++ read m (off + k) (n - k) := by
    rw [← read_add, Nat.add_sub_cancel' hkn]
  rw [hsplit, List.take_left' (length_read m off k)]

/-! ## Writing -/

/-- A window that was just written reads back as what was written. -/
@[simp] theorem read_write_same (m : Int → α) (off : Int) (src : List α) :
    read (write m off src) off src.length = src := by
  apply List.ext_getElem
  · simp
  · intro i hi₁ hi₂
    simp [read, write, hi₂]

/-- A write does not change a window that ends at or before it. -/
theorem read_write_before (m : Int → α) {off o : Int} {n : Nat} (src : List α)
    (h : off + n ≤ o) : read (write m o src) off n = read m off n := by
  unfold read
  apply List.map_congr_left
  intro i hi
  have hlt : i < n := List.mem_range.1 hi
  have hno : ¬ o ≤ off + (i : Int) := by omega
  simp [write, hno]

/-- Copying a list behind a window extends the window by the list. -/
theorem read_write_append (m : Int → α) (off : Int) (n : Nat) (src : List α) :
    read (write m (off + n) src) off (n + src.length) = read m off n ++ src := by
  rw [read_add, read_write_same, read_write_before m src (le_refl _)]

end Memory
end Lib
end Rins
