import Mathlib.Algebra.BigOperators.Group.Finset.Piecewise
import Mathlib.Algebra.BigOperators.Group.List.Basic
import Mathlib.Data.Multiset.AddSub

/-!
# Ledger — totals over places of which one changes

Things move between places: the values of a finite family, the entries of a list.  What all places
hold together is a sum; these lemmas say how the sum changes when one place is overwritten.
-/

namespace Rins
namespace Lib

variable {ι α M : Type*} [AddCommMonoid M]

/-- Overwriting one value of a finite family exchanges it in the total. -/
theorem sum_update_add [Fintype ι] [DecidableEq ι] (f : ι → M) (i : ι) (m : M) :
    ∑ j, Function.update f i m j + f i = ∑ j, f j + m := by
  have hi : i ∈ Finset.univ := Finset.mem_univ i
  calc
    ∑ j, Function.update f i m j + f i
        = m + ∑ j ∈ Finset.univ \ {i}, f j + f i := by
          rw [Finset.sum_update_of_mem hi]
    _ = f i + ∑ j ∈ Finset.univ \ {i}, f j + m := by
          rw [add_right_comm, add_comm m, add_right_comm]
    _ = ∑ j, f j + m := by
          rw [← Finset.sum_eq_add_sum_sdiff_singleton_of_mem hi f]

/-- The total over a list splits into one entry and a rest that does not depend on that entry. -/
theorem exists_sum_map_set (f : α → M) {l : List α} {i : Nat} {x : α} (h : l[i]? = some x) :
    ∃ rest, (l.map f).sum = f x + rest ∧ ∀ y, ((l.set i y).map f).sum = f y + rest := by
  induction l generalizing i with
  | nil =>
      simp at h
  | cons a l ih =>
      cases i with
      | zero =>
          simp only [List.getElem?_cons_zero, Option.some.injEq] at h
          subst h
          exact ⟨(l.map f).sum, by simp, fun y => by simp⟩
      | succ i =>
          -- the entry is further back: the head joins the rest
          rcases ih (by simpa using h) with ⟨rest, hsum, hset⟩
          refine ⟨f a + rest, ?_, fun y => ?_⟩
          · rw [List.map_cons, List.sum_cons, hsum, add_left_comm]
          · rw [List.set_cons_succ, List.map_cons, List.sum_cons, hset, add_left_comm]

end Lib
end Rins
