import Rins.Lib.Memory

/-!
# IoBuf — the memory block behind every connection

`io_buf` is a block of `capacity` bytes with a window of `length` unprocessed bytes starting at
`head`.  The fields are C `int`s and `pop` takes whatever `int` it is given, so they are integers
here, not naturals.

The block itself is a function of the offset; every access goes through `load` and `store`, which
fail outside `[0, capacity)`.  In C++ such an access is undefined behaviour, here it is the fault
`outOfBounds`.
-/

namespace Rins
namespace Reactor

open Lib

/-- How a call can fail to return: a failed `assert`, a call of `exit(1)`, an access outside a
memory block or to a deleted object, or a loop that is still going after the rounds or answers it
was given. -/
inductive Fault
  | assertFailed
  | exited
  | outOfBounds
  | deleted
  | unfinished
  deriving DecidableEq, Repr

/-- `assert(p)`. -/
def assert (p : Bool) : Except Fault Unit :=
  if p then .ok () else .error .assertFailed

@[simp] theorem assert_true : assert true = .ok () := rfl

theorem assert_eq_ok {p : Bool} {u : Unit} : assert p = .ok u ↔ p = true := by
  cases p <;> simp [assert]

@[simp] theorem ok_bind {α β : Type} (a : α) (f : α → Except Fault β) :
    (Except.ok a >>= f) = f a := rfl

@[simp] theorem error_bind {α β : Type} (e : Fault) (f : α → Except Fault β) :
    (Except.error e >>= f) = .error e := rfl

/-- A sequence of calls returns when each of them does. -/
theorem bind_eq_ok {α β : Type} {x : Except Fault α} {f : α → Except Fault β} {b : β} :
    (x >>= f) = .ok b ↔ ∃ a, x = .ok a ∧ f a = .ok b := by
  cases x with
  | error e =>
      simp
  | ok a =>
      simp

@[simp] theorem pure_eq_ok {α : Type} (a : α) : (pure a : Except Fault α) = .ok a := rfl

structure IoBuf where
  capacity : Int
  length : Int
  head : Int
  data : Int → UInt8

namespace IoBuf

/-- `io_buf::io_buf(size)`.  The bytes of a new block are unspecified in C++; no result depends on
their being zero here. -/
def new (size : Int) : IoBuf :=
  { capacity := size
    length := 0
    head := 0
    data := fun _ => 0 }

/-! ## Memory access -/

/-- Read `n` bytes at offset `off` of the block. -/
def load (b : IoBuf) (off n : Int) : Except Fault (List UInt8) :=
  if 0 ≤ off ∧ 0 ≤ n ∧ off + n ≤ b.capacity then
    .ok (Memory.read b.data off n.toNat)
  else
    .error .outOfBounds

/-- Copy `src` to offset `off` of the block. -/
def store (b : IoBuf) (off : Int) (src : List UInt8) : Except Fault IoBuf :=
  if 0 ≤ off ∧ off + src.length ≤ b.capacity then
    .ok { b with data := Memory.write b.data off src }
  else
    .error .outOfBounds

/-! ## The methods of `io_buf` -/

/-- `io_buf::adjust`: move the window to the front of the block. -/
def adjust (b : IoBuf) : Except Fault IoBuf :=
  if b.head ≠ 0 then
    if b.length ≠ 0 then do
      let bytes ← b.load b.head b.length
      let b ← b.store 0 bytes
      return { b with head := 0 }
    else
      .ok { b with head := 0 }
  else
    .ok b

/-- `io_buf::clear`. -/
def clear (b : IoBuf) : IoBuf :=
  { b with length := 0, head := 0 }

/-- `io_buf::copy`: it takes the first `length` bytes of the other block, whatever its `head`. -/
def copy (b other : IoBuf) : Except Fault IoBuf := do
  let bytes ← other.load 0 other.length
  let b ← b.store 0 bytes
  return { b with length := other.length, head := 0 }

/-- `io_buf::pop`: nothing happens if more is asked for than the window holds. -/
def pop (b : IoBuf) (len : Int) : IoBuf :=
  if len > b.length then b else { b with length := b.length - len, head := b.head + len }

/-- `memcpy(data + length, src, n); length += n`, the way bytes are appended everywhere. -/
def append (b : IoBuf) (src : List UInt8) : Except Fault IoBuf := do
  let b ← b.store b.length src
  return { b with length := b.length + src.length }

/-! ## The window -/

/-- The unprocessed bytes `data[head .. head + length)`. -/
def pending (b : IoBuf) : List UInt8 :=
  Memory.read b.data b.head b.length.toNat

/-- The window lies inside the block. -/
structure Valid (b : IoBuf) : Prop where
  head_nonneg : 0 ≤ b.head
  length_nonneg : 0 ≤ b.length
  fits : b.head + b.length ≤ b.capacity

@[simp] theorem length_pending (b : IoBuf) : b.pending.length = b.length.toNat := by
  simp [pending]

theorem Valid.length_eq {b : IoBuf} (h : b.Valid) : b.length = b.pending.length := by
  have := h.length_nonneg
  simp only [length_pending]
  omega

theorem pending_eq_nil {b : IoBuf} (h : b.length = 0) : b.pending = [] := by
  simp [pending, h]

theorem new_valid {size : Int} (h : 0 ≤ size) : (new size).Valid :=
  ⟨le_refl _, le_refl _, by simpa [new] using h⟩

@[simp] theorem pending_new (size : Int) : (new size).pending = [] := rfl

/-! ## What each method does to the window -/

theorem load_eq {b : IoBuf} {off n : Int} (h₀ : 0 ≤ off) (h₁ : 0 ≤ n) (h₂ : off + n ≤ b.capacity) :
    b.load off n = .ok (Memory.read b.data off n.toNat) := by
  simp [load, h₀, h₁, h₂]

theorem store_eq {b : IoBuf} {off : Int} {src : List UInt8} (h₀ : 0 ≤ off)
    (h₁ : off + src.length ≤ b.capacity) :
    b.store off src = .ok { b with data := Memory.write b.data off src } := by
  simp [store, h₀, h₁]

/-- The first bytes of the window, as they are read at `data + head`. -/
theorem load_head {b : IoBuf} (hb : b.Valid) {n : Nat} (hn : n ≤ b.pending.length) :
    b.load b.head n = .ok (b.pending.take n) := by
  have hlen := hb.length_eq
  have hfits := hb.fits
  have hle : n ≤ b.length.toNat := by
    simpa using hn
  rw [load_eq hb.head_nonneg (by omega) (by omega), pending, Memory.take_read _ _ hle]
  simp

theorem pop_eq {b : IoBuf} {len : Int} (h : len ≤ b.length) :
    b.pop len = { b with length := b.length - len, head := b.head + len } := by
  have hno : ¬ len > b.length := by omega
  simp [pop, hno]

theorem pop_zero {b : IoBuf} (hb : b.Valid) : b.pop 0 = b := by
  simp [pop_eq hb.length_nonneg]

/-- More than there is is not popped. -/
theorem pop_more {b : IoBuf} {n : Int} (hn : b.length < n) : b.pop n = b := by
  have hmore : n > b.length := hn
  simp [pop, hmore]

theorem pop_pop {b : IoBuf} {m n : Int} (hm : m ≤ b.length) (hn : n ≤ b.length - m) :
    (b.pop m).pop n = b.pop (m + n) := by
  have hboth : m + n ≤ b.length := by omega
  rw [pop_eq hm, pop_eq hn, pop_eq hboth]
  rw [sub_sub, add_assoc]

/-- Popping `n` bytes drops them from the window. -/
theorem pending_pop {b : IoBuf} (hb : b.Valid) {n : Nat} (hn : n ≤ b.pending.length) :
    (b.pop n).pending = b.pending.drop n := by
  have hlen := hb.length_eq
  have hle : (n : Int) ≤ b.length := by omega
  have htoNat : (b.length - (n : Int)).toNat = b.length.toNat - n := by omega
  rw [pop_eq hle]
  simp only [pending, htoNat, Memory.drop_read]

theorem Valid.pop {b : IoBuf} (hb : b.Valid) {n : Nat} (hn : n ≤ b.pending.length) :
    (b.pop n).Valid := by
  have hlen := hb.length_eq
  have hhead := hb.head_nonneg
  have hfits := hb.fits
  rw [pop_eq (by omega)]
  exact ⟨by simp only; omega, by simp only; omega, by simp only; omega⟩

@[simp] theorem capacity_pop (b : IoBuf) (len : Int) : (b.pop len).capacity = b.capacity := by
  unfold IoBuf.pop
  split <;> rfl

/-- `adjust` keeps the window and brings `head` to 0. -/
theorem adjust_spec {b : IoBuf} (hb : b.Valid) :
    ∃ b', b.adjust = .ok b' ∧ b'.Valid ∧ b'.head = 0 ∧ b'.pending = b.pending ∧
      b'.capacity = b.capacity := by
  have hhead := hb.head_nonneg
  have hlen := hb.length_nonneg
  have hfits := hb.fits
  by_cases hzero : b.head = 0
  -- nothing to move
  · exact ⟨b, by simp [adjust, hzero], hb, hzero, rfl, rfl⟩
  · by_cases hempty : b.length = 0
    · refine ⟨{ b with head := 0 }, by simp [adjust, hzero, hempty], ?_, rfl, ?_, rfl⟩
      · exact ⟨le_refl _, hlen, by simp only; omega⟩
      · simp [pending, hempty]
    · -- the memmove branch: the bytes that were read are exactly the window
      have hload : b.load b.head b.length = .ok b.pending := load_eq hhead hlen hfits
      have hstore : b.store 0 b.pending =
          .ok { b with data := Memory.write b.data 0 b.pending } := by
        apply store_eq (le_refl _)
        rw [← hb.length_eq]
        omega
      refine ⟨{ b with data := Memory.write b.data 0 b.pending, head := 0 }, ?_, ?_, rfl, ?_, rfl⟩
      · simp [adjust, hzero, hempty, hload, hstore]
      · exact ⟨le_refl _, hlen, by simp only; omega⟩
      · have hread := Memory.read_write_same b.data 0 b.pending
        simpa [pending] using hread

/-- The bytes that a `write` has taken go away from the front, and the rest moves there. -/
theorem popAdjust_spec {b : IoBuf} (hb : b.Valid) {n : Nat} (hn : n ≤ b.pending.length) :
    ∃ b', (b.pop n).adjust = .ok b' ∧ b'.Valid ∧ b'.head = 0 ∧
      b.pending.take n ++ b'.pending = b.pending ∧ b'.capacity = b.capacity := by
  rcases adjust_spec (hb.pop hn) with ⟨b', hadj, hvalid, hhead, hpend, hcap⟩
  refine ⟨b', hadj, hvalid, hhead, ?_, by rw [hcap, capacity_pop]⟩
  rw [hpend, pending_pop hb hn, List.take_append_drop]

/-- Appending extends the window, as long as there is room behind it. -/
theorem append_spec {b : IoBuf} (hb : b.Valid) (hhead : b.head = 0) {src : List UInt8}
    (hroom : b.length + src.length ≤ b.capacity) :
    ∃ b', b.append src = .ok b' ∧ b'.Valid ∧ b'.head = 0 ∧ b'.pending = b.pending ++ src ∧
      b'.capacity = b.capacity := by
  have hlen := hb.length_nonneg
  refine ⟨{ b with data := Memory.write b.data b.length src, length := b.length + src.length },
    ?_, ?_, hhead, ?_, rfl⟩
  · simp [append, store_eq hlen hroom]
  · exact ⟨hb.head_nonneg, by simp only; omega, by simp only; omega⟩
  -- `data + length` is the end of the window because `head` is 0
  · have hcast : (b.length.toNat : Int) = b.length := Int.toNat_of_nonneg hlen
    have htoNat : (b.length + (src.length : Int)).toNat = b.length.toNat + src.length := by omega
    have hread := Memory.read_write_append b.data 0 b.length.toNat src
    simp only [pending, htoNat, hhead]
    simpa [hcast] using hread

/-- Where `append` returns there was room. -/
theorem append_room {b b' : IoBuf} {src : List UInt8} (h : b.append src = .ok b') :
    b.length + src.length ≤ b.capacity := by
  rcases bind_eq_ok.1 h with ⟨b₁, hstore, _⟩
  unfold store at hstore
  split_ifs at hstore with hroom
  exact hroom.2

theorem append_length {b b' : IoBuf} {src : List UInt8} (h : b.append src = .ok b') :
    b'.length = b.length + src.length := by
  rcases bind_eq_ok.1 h with ⟨b₁, hstore, hout⟩
  unfold store at hstore
  split_ifs at hstore
  cases hstore
  cases hout
  rfl

/-- `copy` takes over the window of a block whose `head` is 0. -/
theorem copy_spec {b other : IoBuf} (ho : other.Valid) (hhead : other.head = 0)
    (hroom : other.length ≤ b.capacity) :
    ∃ b', b.copy other = .ok b' ∧ b'.Valid ∧ b'.head = 0 ∧ b'.pending = other.pending ∧
      b'.capacity = b.capacity := by
  have hlen := ho.length_nonneg
  have hfits := ho.fits
  have hload : other.load 0 other.length = .ok other.pending := by
    rw [load_eq (le_refl _) hlen (by omega), pending, hhead]
  have hstore : b.store 0 other.pending =
      .ok { b with data := Memory.write b.data 0 other.pending } := by
    apply store_eq (le_refl _)
    rw [← ho.length_eq]
    omega
  refine ⟨{ b with data := Memory.write b.data 0 other.pending, length := other.length, head := 0 },
    ?_, ?_, rfl, ?_, rfl⟩
  · simp [copy, hload, hstore]
  · exact ⟨le_refl _, hlen, by simp only; omega⟩
  · have hread := Memory.read_write_same b.data 0 other.pending
    simpa [pending] using hread

/-- Copying a window that is longer than the block writes past its end. -/
theorem copy_overflow {b other : IoBuf} (ho : other.Valid) (hsmall : b.capacity < other.length) :
    b.copy other = .error .outOfBounds := by
  have hlen := ho.length_nonneg
  have hhead := ho.head_nonneg
  have hfits := ho.fits
  have hno : ¬ (0 ≤ (0 : Int) ∧ 0 + (other.length.toNat : Int) ≤ b.capacity) := by omega
  rw [copy, load_eq (le_refl _) hlen (by omega), ok_bind, store, Memory.length_read, if_neg hno]
  rfl

/-! ## No method changes the capacity -/

theorem store_capacity {b b' : IoBuf} {off : Int} {src : List UInt8}
    (h : b.store off src = .ok b') : b'.capacity = b.capacity := by
  unfold store at h
  split_ifs at h
  cases h
  rfl

theorem append_capacity {b b' : IoBuf} {src : List UInt8} (h : b.append src = .ok b') :
    b'.capacity = b.capacity := by
  rcases bind_eq_ok.1 h with ⟨b₁, hstore, h⟩
  have hcap := store_capacity hstore
  cases h
  exact hcap

theorem copy_capacity {b b' other : IoBuf} (h : b.copy other = .ok b') :
    b'.capacity = b.capacity := by
  rcases bind_eq_ok.1 h with ⟨_, _, h⟩
  rcases bind_eq_ok.1 h with ⟨b₁, hstore, h⟩
  have hcap := store_capacity hstore
  cases h
  exact hcap

theorem adjust_capacity {b b' : IoBuf} (h : b.adjust = .ok b') : b'.capacity = b.capacity := by
  unfold adjust at h
  split_ifs at h
  · rcases bind_eq_ok.1 h with ⟨_, _, h⟩
    rcases bind_eq_ok.1 h with ⟨b₁, hstore, h⟩
    have hcap := store_capacity hstore
    cases h
    exact hcap
  · cases h
    rfl
  · cases h
    rfl

end IoBuf
end Reactor
end Rins
