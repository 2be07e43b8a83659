import Mathlib.Data.List.Basic
import Mathlib.Tactic.Common

/-!
# NodeList — a container whose elements are erased while it is traversed

The nodes of a linked container in the order of its iterators.  An iterator is the place of a node;
an erased node stays as `none`, so that an iterator to it can be told from one to its successor.
Dereferencing, advancing and erasing need an iterator whose element is still there.
-/

namespace Rins
namespace Lib

universe u

abbrev NodeList (α : Type u) := List (Option α)

namespace NodeList

variable {α : Type u}

def ofList (xs : List α) : NodeList α :=
  xs.map some

/-- The elements that are left. -/
def toList (nodes : NodeList α) : List α :=
  nodes.filterMap id

/-- The element behind a valid iterator. -/
def get (nodes : NodeList α) (it : Nat) : Option α :=
  (nodes[it]?).join

/-- The first place from `it` on whose element is there, or the end. -/
def seek (nodes : NodeList α) (it : Nat) : Nat :=
  it + ((nodes.drop it).takeWhile Option.isNone).length

/-- An iterator behind which there is no element any more cannot be advanced. -/
def incr (nodes : NodeList α) (it : Nat) : Option Nat :=
  (nodes.get it).map fun _ => nodes.seek (it + 1)

def erase (nodes : NodeList α) (it : Nat) : Option (NodeList α) :=
  (nodes.get it).map fun _ => nodes.set it none

@[simp] theorem length_ofList (xs : List α) : (ofList xs).length = xs.length :=
  List.length_map ..

@[simp] theorem toList_ofList (xs : List α) : (ofList xs).toList = xs := by
  induction xs with
  | nil => rfl
  | cons x xs ih => simp [ofList, toList]

theorem get_ofList (xs : List α) (it : Nat) : (ofList xs).get it = xs[it]? := by
  rw [get, ofList, List.getElem?_map]
  cases xs[it]? <;> rfl

/-- In a container from which nothing was erased every place is that of an element. -/
theorem seek_ofList (xs : List α) (it : Nat) : (ofList xs).seek it = it := by
  have hnone : ((ofList xs).drop it).takeWhile Option.isNone = [] := by
    rw [ofList, ← List.map_drop]
    cases xs.drop it <;> rfl
  simp [seek, hnone]

theorem incr_ofList {xs : List α} {it : Nat} (h : it < xs.length) :
    (ofList xs).incr it = some (it + 1) := by
  simp [incr, get_ofList, seek_ofList, h]

/-- The iterator through which an element was erased cannot be advanced. -/
theorem incr_erase {nodes left : NodeList α} {it : Nat} (h : nodes.erase it = some left) :
    left.incr it = none := by
  rcases Option.map_eq_some_iff.1 h with ⟨a, ha, rfl⟩
  have hlt : it < nodes.length := by
    by_contra hge
    simp [get, List.getElem?_eq_none (by omega : nodes.length ≤ it)] at ha
  simp [incr, get, List.getElem?_set_self hlt]

end NodeList
end Lib
end Rins
