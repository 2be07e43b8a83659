import Mathlib.Data.List.Basic
import Mathlib.Tactic.Common

/-!
# Framing — incremental parsing of a stream of frames

A receiver of a byte stream looks at what it has buffered and either waits, gives the stream up or
takes one frame off the front.  `Framing` is that decision together with the two laws that make it
usable on a stream: a frame is never empty, and once a verdict other than "wait" is reached, more
input behind it does not change it.

* `Framing.parse`         : take frames off a list until the verdict is "wait" or "reject";
* `Framing.feed`          : the same, one received chunk at a time;
* `Framing.feedAll_eq_parse` : the chunks do not matter, only their concatenation does.
-/

namespace Rins
namespace Lib

universe u v

/-- What a receiver makes of the symbols buffered so far. -/
inductive Verdict (μ : Type v)
  | wait
  | reject
  | emit (m : μ) (size : Nat)
  deriving DecidableEq, Repr

/-- How parsing ended: the stream was given up, or `tail` is left over. -/
inductive Residue (α : Type u)
  | closed
  | pending (tail : List α)
  deriving DecidableEq, Repr

/-- A framing discipline over symbols `α` with frames `μ`. -/
structure Framing (α : Type u) (μ : Type v) where
  next : List α → Verdict μ
  emit_pos : ∀ {xs m n}, next xs = .emit m n → 0 < n ∧ n ≤ xs.length
  emit_append : ∀ {xs m n} ys, next xs = .emit m n → next (xs ++ ys) = .emit m n
  reject_append : ∀ {xs} ys, next xs = .reject → next (xs ++ ys) = .reject

namespace Framing

variable {α : Type u} {μ : Type v} (F : Framing α μ)

/-! ## Parsing a whole list -/

/-- Frames at the front of `xs`, in order, and what remains when no further frame is complete. -/
def parse (xs : List α) : List μ × Residue α :=
  match _h : F.next xs with
  | .wait => ([], .pending xs)
  | .reject => ([], .closed)
  -- every frame takes something off, so the rest is shorter
  | .emit m n =>
      let rest := parse (xs.drop n)
      (m :: rest.1, rest.2)
termination_by xs.length
decreasing_by
  have hpos := F.emit_pos _h
  simp only [List.length_drop]
  omega

theorem parse_wait {xs : List α} (h : F.next xs = .wait) : F.parse xs = ([], .pending xs) := by
  rw [parse]
  split <;> simp_all

theorem parse_reject {xs : List α} (h : F.next xs = .reject) : F.parse xs = ([], .closed) := by
  rw [parse]
  split <;> simp_all

theorem parse_emit {xs : List α} {m : μ} {n : Nat} (h : F.next xs = .emit m n) :
    F.parse xs = (m :: (F.parse (xs.drop n)).1, (F.parse (xs.drop n)).2) := by
  rw [parse]
  split <;> simp_all

/-- Induction along the frames of a list. -/
theorem frame_induction {P : List α → Prop}
    (hwait : ∀ xs, F.next xs = .wait → P xs)
    (hreject : ∀ xs, F.next xs = .reject → P xs)
    (hemit : ∀ xs m n, F.next xs = .emit m n → P (xs.drop n) → P xs) :
    ∀ xs, P xs := by
  intro xs
  induction hlen : xs.length using Nat.strongRecOn generalizing xs with
  | _ k ih =>
      cases hnext : F.next xs with
      | wait =>
          exact hwait xs hnext
      | reject =>
          exact hreject xs hnext
      | emit m n =>
          have hpos := F.emit_pos hnext
          have hlt : (xs.drop n).length < k := by
            simp only [List.length_drop]
            omega
          exact hemit xs m n hnext (ih _ hlt (xs.drop n) rfl)

/-- A list is given back by `parse` only when it holds no complete frame. -/
theorem next_of_parse_pending (xs : List α) {tail : List α}
    (h : (F.parse xs).2 = .pending tail) : F.next tail = .wait := by
  revert tail
  induction xs using F.frame_induction with
  | hwait xs hnext =>
      intro tail h
      rw [F.parse_wait hnext] at h
      cases h
      exact hnext
  | hreject xs hnext =>
      intro tail h
      rw [F.parse_reject hnext] at h
      cases h
  | hemit xs m n hnext ih =>
      intro tail h
      rw [F.parse_emit hnext] at h
      exact ih h

/-! ## Feeding chunks -/

/-- Hand one more chunk to a receiver that is in state `r`. -/
def feed (r : Residue α) (chunk : List α) : List μ × Residue α :=
  match r with
  | .closed => ([], .closed)
  | .pending tail => F.parse (tail ++ chunk)

/-- Hand over a list of chunks, collecting the frames. -/
def feedAll : Residue α → List (List α) → List μ × Residue α
  | r, [] => ([], r)
  | r, c :: cs => ((F.feed r c).1 ++ (feedAll (F.feed r c).2 cs).1, (feedAll (F.feed r c).2 cs).2)

/-- Parsing `xs ++ ys` is parsing `xs` and then going on with `ys`. -/
theorem parse_append (xs ys : List α) :
    F.parse (xs ++ ys) =
      ((F.parse xs).1 ++ (F.feed (F.parse xs).2 ys).1, (F.feed (F.parse xs).2 ys).2) := by
  induction xs using F.frame_induction with
  | hwait xs hnext =>
      simp [F.parse_wait hnext, feed]
  | hreject xs hnext =>
      simp [F.parse_reject hnext, F.parse_reject (F.reject_append ys hnext), feed]
  | hemit xs m n hnext ih =>
      -- the first frame is the same with `ys` behind it, and leaves `ys` behind the rest
      have hle : n ≤ xs.length := (F.emit_pos hnext).2
      rw [F.parse_emit (F.emit_append ys hnext), List.drop_append_of_le_length hle, ih,
        F.parse_emit hnext]
      simp

/-- A receiver that has given up stays so. -/
theorem feedAll_closed (cs : List (List α)) : F.feedAll .closed cs = ([], .closed) := by
  induction cs with
  | nil =>
      rfl
  | cons c cs ih =>
      simp [feedAll, feed, ih]

theorem feedAll_append (r : Residue α) (cs ds : List (List α)) :
    F.feedAll r (cs ++ ds) =
      ((F.feedAll r cs).1 ++ (F.feedAll (F.feedAll r cs).2 ds).1,
        (F.feedAll (F.feedAll r cs).2 ds).2) := by
  induction cs generalizing r with
  | nil =>
      rfl
  | cons c cs ih =>
      simp [feedAll, ih]

/-- Feeding `xs` and then `ys` is feeding `xs ++ ys`. -/
theorem feed_append (r : Residue α) (xs ys : List α) :
    F.feed r (xs ++ ys) =
      ((F.feed r xs).1 ++ (F.feed (F.feed r xs).2 ys).1, (F.feed (F.feed r xs).2 ys).2) := by
  cases r with
  | closed =>
      simp [feed]
  | pending tail =>
      simp only [feed]
      rw [← List.append_assoc, F.parse_append]
      rfl

/-- A receiver that is waiting, or has closed, is unchanged by an empty chunk. -/
def Settled (r : Residue α) : Prop :=
  F.feed r [] = ([], r)

theorem settled_parse (xs : List α) : F.Settled (F.parse xs).2 := by
  cases h : (F.parse xs).2 with
  | closed =>
      rfl
  | pending tail =>
      have hnext : F.next tail = .wait := F.next_of_parse_pending xs h
      simp [Settled, feed, F.parse_wait hnext]

theorem settled_feed {r : Residue α} (chunk : List α) : F.Settled (F.feed r chunk).2 := by
  cases r with
  | closed =>
      rfl
  | pending tail =>
      exact F.settled_parse (tail ++ chunk)

/-- Chunk boundaries do not matter: only the concatenation of the chunks does. -/
theorem feedAll_eq_feed_flatten {r : Residue α} (hr : F.Settled r) (cs : List (List α)) :
    F.feedAll r cs = F.feed r cs.flatten := by
  induction cs generalizing r with
  | nil =>
      exact hr.symm
  | cons c cs ih =>
      have hrest := ih (F.settled_feed c (r := r))
      calc
        F.feedAll r (c :: cs)
            = ((F.feed r c).1 ++ (F.feedAll (F.feed r c).2 cs).1,
                (F.feedAll (F.feed r c).2 cs).2) := rfl
        _ = ((F.feed r c).1 ++ (F.feed (F.feed r c).2 cs.flatten).1,
                (F.feed (F.feed r c).2 cs.flatten).2) := by
              -- what one chunk leaves behind is settled again
              rw [hrest]
        _ = F.feed r (c :: cs).flatten := by
              rw [List.flatten_cons, F.feed_append]

/-- Feeding every chunk of a stream to a fresh receiver parses the stream. -/
theorem feedAll_eq_parse (hnil : F.next [] = .wait) (cs : List (List α)) :
    F.feedAll (.pending []) cs = F.parse cs.flatten := by
  have hr : F.Settled (.pending []) := by
    simp [Settled, feed, F.parse_wait hnil]
  rw [F.feedAll_eq_feed_flatten hr]
  simp [feed]

/-! ## How a reading ends -/

/-- The frames use up all of the input, and the last of them has the property. -/
def EndsIn (P : μ → Prop) (r : List μ × Residue α) : Prop :=
  r.2 = .pending [] ∧ ∃ m, r.1.getLast? = some m ∧ P m

/-- Without a complete frame all of the input is left over. -/
theorem parse_no_frames (xs : List α) {tail : List α} (hnone : (F.parse xs).1 = [])
    (htail : (F.parse xs).2 = .pending tail) : tail = xs := by
  cases hnext : F.next xs with
  | wait =>
      rw [F.parse_wait hnext] at htail
      cases htail
      rfl
  | reject =>
      rw [F.parse_reject hnext] at htail
      cases htail
  | emit m n =>
      rw [F.parse_emit hnext] at hnone
      cases hnone

/-- Frames in front do not matter, unless nothing comes behind them. -/
theorem endsIn_append {P : μ → Prop} (front : List μ) {r : List μ × Residue α}
    (hnone : r.1 = [] → r.2 ≠ .pending []) :
    EndsIn P (front ++ r.1, r.2) ↔ EndsIn P r := by
  unfold EndsIn
  refine and_congr_right fun hall => ?_
  have hsome : r.1 ≠ [] := fun hnil => hnone hnil hall
  rw [List.getLast?_append_of_ne_nil _ hsome]

theorem endsIn_emit {P : μ → Prop} (hnil : F.next [] = .wait) {xs : List α} {m : μ} {n : Nat}
    (hnext : F.next xs = .emit m n) :
    EndsIn P (F.parse xs) ↔ (xs.drop n = [] ∧ P m) ∨ EndsIn P (F.parse (xs.drop n)) := by
  rw [F.parse_emit hnext]
  by_cases hlast : xs.drop n = []
  · rw [hlast, F.parse_wait hnil]
    simp [EndsIn]
  · have hrest : (F.parse (xs.drop n)).1 = [] → (F.parse (xs.drop n)).2 ≠ .pending [] :=
      fun hnone htail => hlast (F.parse_no_frames _ hnone htail).symm
    rw [← endsIn_append [m] hrest]
    simp [hlast]

/-- A reading in chunks ends with the first of them, or with what comes after it. -/
theorem endsIn_feedAll_cons {P : μ → Prop} {r : Residue α} {c : List α} {cs : List (List α)}
    (hne : ∀ c' ∈ cs, c' ≠ []) :
    EndsIn P (F.feedAll r (c :: cs)) ↔
      (cs = [] ∧ EndsIn P (F.feed r c)) ∨ EndsIn P (F.feedAll (F.feed r c).2 cs) := by
  by_cases hlast : cs = []
  · subst hlast
    simp [feedAll, EndsIn]
  · have hrest : (F.feedAll (F.feed r c).2 cs).1 = [] →
        (F.feedAll (F.feed r c).2 cs).2 ≠ .pending [] := by
      rw [F.feedAll_eq_feed_flatten (F.settled_feed c)]
      cases (F.feed r c).2 with
      | closed =>
          simp [feed]
      | pending tail =>
          intro hnone htail
          have hall := (F.parse_no_frames _ hnone htail).symm
          rcases List.exists_mem_of_ne_nil _ hlast with ⟨c', hc'⟩
          have hflat := (List.append_eq_nil_iff.1 hall).2
          exact hne c' hc' (List.flatten_eq_nil_iff.1 hflat c' hc')
    simp only [hlast, false_and, false_or]
    exact endsIn_append _ hrest

/-! ## Encoders -/

/-- If every encoded frame is taken off as itself, a concatenation of encoded frames parses to
the list of frames. -/
theorem parse_encode (enc : μ → List α) (hnil : F.next [] = .wait) (ms : List μ)
    (henc : ∀ m ∈ ms, F.next (enc m) = .emit m (enc m).length) :
    F.parse (ms.flatMap enc) = (ms, .pending []) := by
  induction ms with
  | nil =>
      exact F.parse_wait hnil
  | cons m ms ih =>
      have hhead : F.next (enc m) = .emit m (enc m).length := henc m (by simp)
      have htail : F.parse (ms.flatMap enc) = (ms, .pending []) :=
        ih fun m' hm' => henc m' (by simp [hm'])
      rw [List.flatMap_cons, F.parse_emit (F.emit_append _ hhead)]
      simp [htail]

end Framing
end Lib
end Rins
