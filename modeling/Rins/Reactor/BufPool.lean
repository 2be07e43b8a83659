import Mathlib.Logic.Function.Basic
import Rins.Reactor.IoBuf

/-!
# BufPool — the shared pool of memory blocks

`buf_pool` keeps one free list for each of seven capacities.  `alloc_buf` takes a block off the
list of the smallest capacity that holds the request, and creates a new block when that list is
empty; `revert` puts a block back.

A pooled block is modelled by value together with its address (`PoolBuf`): whoever holds the
pointer holds the bytes.  That is the pointer program as long as no address is in two places, which
is what `Rins.Reactor.PoolOwnership` proves of every reachable state.
-/

namespace Rins
namespace Reactor

open Lib

/-! ## Capacities -/

/-- `enum MEM_CAP`, the keys of `buf_pool::_pool`. -/
inductive MemCap
  | m4K
  | m16K
  | m64K
  | m256K
  | m1M
  | m4M
  | m8M
  deriving DecidableEq, Repr

namespace MemCap

def size : MemCap → Int
  | .m4K => 4096
  | .m16K => 16384
  | .m64K => 65536
  | .m256K => 262144
  | .m1M => 1048576
  | .m4M => 4194304
  | .m8M => 8388608

/-- `index / 1024`, the unit `_total_mem` counts in. -/
def kb : MemCap → Nat
  | .m4K => 4
  | .m16K => 16
  | .m64K => 64
  | .m256K => 256
  | .m1M => 1024
  | .m4M => 4096
  | .m8M => 8192

/-- The chain of comparisons at the head of `buf_pool::alloc_buf`. -/
def forRequest (n : Int) : Option MemCap :=
  if n ≤ m4K.size then some .m4K
  else if n ≤ m16K.size then some .m16K
  else if n ≤ m64K.size then some .m64K
  else if n ≤ m256K.size then some .m256K
  else if n ≤ m1M.size then some .m1M
  else if n ≤ m4M.size then some .m4M
  else if n ≤ m8M.size then some .m8M
  else none

/-- `_pool.find(index)`: the constructor enters exactly the seven capacities and nothing is ever
erased, so a lookup succeeds for these and no other key. -/
def find (index : Int) : Option MemCap :=
  if index = m4K.size then some .m4K
  else if index = m16K.size then some .m16K
  else if index = m64K.size then some .m64K
  else if index = m256K.size then some .m256K
  else if index = m1M.size then some .m1M
  else if index = m4M.size then some .m4M
  else if index = m8M.size then some .m8M
  else none

theorem kb_eq (c : MemCap) : (c.kb : Int) = c.size / 1024 := by
  cases c <;> rfl

theorem size_pos (c : MemCap) : 0 < c.size := by
  cases c <;> decide

@[simp] theorem find_size (c : MemCap) : find c.size = some c := by
  cases c <;> rfl

theorem eq_size_of_find {index : Int} {c : MemCap} (h : find index = some c) : index = c.size := by
  unfold find at h
  grind

/-- The capacity chosen for a request holds it, and no smaller capacity does. -/
theorem forRequest_spec {n : Int} {c : MemCap} (h : forRequest n = some c) :
    n ≤ c.size ∧ ∀ d : MemCap, n ≤ d.size → c.size ≤ d.size := by
  have hsizes : ∀ d : MemCap, d.size = 4096 ∨ d.size = 16384 ∨ d.size = 65536 ∨
      d.size = 262144 ∨ d.size = 1048576 ∨ d.size = 4194304 ∨ d.size = 8388608 := by
    intro d
    cases d <;> decide
  unfold forRequest size at h
  dsimp only at h
  repeat' split at h
  all_goals
    cases h
  -- a capacity before the chosen one in the chain was too small, a later one is larger
  all_goals
    refine ⟨by assumption, fun d hd => ?_⟩
    have hd' := hsizes d
    generalize d.size = x at hd hd' ⊢
    simp only [size]
    omega

theorem m4K_le_size (c : MemCap) : m4K.size ≤ c.size := by
  cases c <;> decide

theorem size_le_m8M (c : MemCap) : c.size ≤ m8M.size := by
  cases c <;> decide

theorem forRequest_isSome {n : Int} (h : n ≤ m8M.size) : ∃ c, forRequest n = some c := by
  rw [← Option.isSome_iff_exists]
  simp only [forRequest, h, if_true, apply_ite Option.isSome, Option.isSome_some, ite_self]

/-- Only requests above 8 MiB have no class. -/
theorem forRequest_eq_none {n : Int} : forRequest n = none ↔ m8M.size < n := by
  constructor
  · intro h
    by_contra hle
    rcases forRequest_isSome (not_lt.1 hle) with ⟨c, hc⟩
    rw [h] at hc
    cases hc
  · intro h
    cases hc : forRequest n with
    | none => rfl
    | some c =>
        have hle := (forRequest_spec hc).1
        have hmax := c.size_le_m8M
        omega

end MemCap

/-! ## The pool -/

/-- An `io_buf *` handed out by the pool: the block and its address. -/
structure PoolBuf extends IoBuf where
  addr : Nat

/-- `EXTRA_MEM_LIMIT`, in kilobytes. -/
def extraMemLimit : Nat := 5 * 1024 * 1024

structure BufPool where
  /-- the free list of each capacity -/
  pool : MemCap → List PoolBuf
  totalMem : Nat
  /-- ghost: the capacity of every block ever created; the block at position `a` has address `a` -/
  made : List MemCap

namespace BufPool

/-- `new io_buf(index)`, at the next address. -/
def newBuf (p : BufPool) (c : MemCap) : PoolBuf :=
  { IoBuf.new c.size with addr := p.made.length }

/-- The chain of `num` blocks that `buf_pool::init_memmory` links together. -/
def freshChain (first : Nat) (c : MemCap) (num : Nat) : List PoolBuf :=
  (List.range num).map fun i => { IoBuf.new c.size with addr := first + i }

/-- `buf_pool::init_memmory`. -/
def initMemmory (p : BufPool) (c : MemCap) (num : Nat) : BufPool :=
  { pool := Function.update p.pool c (freshChain p.made.length c num)
    totalMem := p.totalMem + c.kb * num
    made := p.made ++ List.replicate num c }

/-- `buf_pool::buf_pool`. -/
def init : BufPool :=
  let p₀ : BufPool := { pool := fun _ => [], totalMem := 0, made := [] }
  let p₁ := p₀.initMemmory .m4K 5000
  let p₂ := p₁.initMemmory .m16K 1000
  let p₃ := p₂.initMemmory .m64K 500
  let p₄ := p₃.initMemmory .m256K 200
  let p₅ := p₄.initMemmory .m1M 50
  let p₆ := p₅.initMemmory .m4M 20
  p₆.initMemmory .m8M 10

/-- `buf_pool::alloc_buf`: `none` is the null pointer returned for a request above 8 MiB. -/
def allocBuf (p : BufPool) (n : Int) : Except Fault (BufPool × Option PoolBuf) :=
  match MemCap.forRequest n with
  | none => .ok (p, none)
  | some c =>
      match p.pool c with
      | [] =>
          if p.totalMem + c.kb ≥ extraMemLimit then
            .error .exited
          else
            .ok ({ p with totalMem := p.totalMem + c.kb, made := p.made ++ [c] },
              some (p.newBuf c))
      | target :: next =>
          .ok ({ p with pool := Function.update p.pool c next }, some target)

/-- `buf_pool::revert`. -/
def revert (p : BufPool) (buf : PoolBuf) : Except Fault BufPool :=
  match MemCap.find buf.capacity with
  | none => .error .assertFailed
  | some c =>
      let cleared : PoolBuf := { buf with length := 0, head := 0 }
      .ok { p with pool := Function.update p.pool c (cleared :: p.pool c) }

/-! ## What callers rely on -/

/-- Every free block has the capacity of its list and an empty window. -/
def Clean (p : BufPool) : Prop :=
  ∀ c, ∀ b ∈ p.pool c, b.capacity = c.size ∧ b.length = 0 ∧ b.head = 0

/-- No request finds the pool at its memory cap: each free list is non-empty or may still grow. -/
def BelowCap (p : BufPool) : Prop :=
  ∀ c, p.pool c ≠ [] ∨ p.totalMem + c.kb < extraMemLimit

/-- A pool as a connection finds it: clean and below its cap. -/
structure Serviceable (p : BufPool) : Prop where
  clean : p.Clean
  belowCap : p.BelowCap

/-- A pool that can also give a block of 4 KiB first. -/
structure Ample (p : BufPool) : Prop where
  clean : p.Clean
  spare : ∀ c, p.pool c ≠ [] ∨ p.totalMem + MemCap.m4K.kb + c.kb < extraMemLimit

theorem revert_eq {p : BufPool} {b : PoolBuf} {c : MemCap} (h : b.capacity = c.size) :
    p.revert b =
      .ok { p with
        pool := Function.update p.pool c ({ b with length := 0, head := 0 } :: p.pool c) } := by
  simp [revert, h]

theorem Clean.revert {p p' : BufPool} {b : PoolBuf} (hp : p.Clean) (h : p.revert b = .ok p') :
    p'.Clean := by
  unfold BufPool.revert at h
  cases hfind : MemCap.find b.capacity with
  | none =>
      simp [hfind] at h
  | some c =>
      simp only [hfind, Except.ok.injEq] at h
      have hcap : b.capacity = c.size := MemCap.eq_size_of_find hfind
      subst h
      intro d b' hb'
      -- only the list of the block itself has grown, by a block that was cleared
      by_cases hdc : d = c
      · subst hdc
        simp only [Function.update_self, List.mem_cons] at hb'
        rcases hb' with rfl | hold
        · exact ⟨hcap, rfl, rfl⟩
        · exact hp d b' hold
      · simp only [Function.update_of_ne hdc] at hb'
        exact hp d b' hb'

/-- What `alloc_buf` gives when it gives a block. -/
theorem allocBuf_some {p p' : BufPool} {n : Int} {b : PoolBuf} (hp : p.Clean)
    (h : p.allocBuf n = .ok (p', some b)) :
    ∃ c, MemCap.forRequest n = some c ∧ b.capacity = c.size ∧ b.length = 0 ∧ b.head = 0 ∧
      p'.Clean := by
  unfold allocBuf at h
  cases hc : MemCap.forRequest n with
  | none =>
      simp [hc] at h
  | some c =>
      simp only [hc] at h
      refine ⟨c, rfl, ?_⟩
      cases hpool : p.pool c with
      | nil =>
          -- a new block; the free lists stay as they are
          simp only [hpool] at h
          split_ifs at h
          simp only [Except.ok.injEq, Prod.mk.injEq, Option.some.injEq] at h
          rcases h with ⟨rfl, rfl⟩
          exact ⟨rfl, rfl, rfl, hp⟩
      | cons target next =>
          simp only [hpool, Except.ok.injEq, Prod.mk.injEq, Option.some.injEq] at h
          rcases h with ⟨rfl, rfl⟩
          -- the first of the free list, which is clean like the others
          rcases hp c target (by simp [hpool]) with ⟨hcap, hlen, hhead⟩
          refine ⟨hcap, hlen, hhead, ?_⟩
          intro d b' hb'
          by_cases hdc : d = c
          · subst hdc
            simp only [Function.update_self] at hb'
            exact hp d b' (by simp [hpool, hb'])
          · simp only [Function.update_of_ne hdc] at hb'
            exact hp d b' hb'

/-- `alloc_buf` returns the null pointer for a request above 8 MiB, and for no other. -/
theorem allocBuf_none {p p' : BufPool} {n : Int} :
    p.allocBuf n = .ok (p', none) ↔ MemCap.m8M.size < n ∧ p' = p := by
  constructor
  · intro h
    unfold allocBuf at h
    cases hc : MemCap.forRequest n with
    | none =>
        simp only [hc, Except.ok.injEq, Prod.mk.injEq, and_true] at h
        exact ⟨MemCap.forRequest_eq_none.1 hc, h.symm⟩
    | some c =>
        simp only [hc] at h
        cases hpool : p.pool c with
        | nil =>
            simp only [hpool] at h
            split_ifs at h
            simp at h
        | cons target next =>
            simp [hpool] at h
  · rintro ⟨hlarge, rfl⟩
    simp [allocBuf, MemCap.forRequest_eq_none.2 hlarge]

/-- No free block for a request of `n` bytes, and no memory left for another one. -/
def Exhausted (p : BufPool) (n : Int) : Prop :=
  ∃ c, MemCap.forRequest n = some c ∧ p.pool c = [] ∧ extraMemLimit ≤ p.totalMem + c.kb

/-- A request of at most 8 MiB is served by an empty block of the class chosen for it, unless the
memory cap ends the process. -/
theorem allocBuf_cases {p : BufPool} (hp : p.Clean) {n : Int} (hn : n ≤ MemCap.m8M.size) :
    (p.Exhausted n ∧ p.allocBuf n = .error .exited) ∨
      ∃ (p' : BufPool) (b : PoolBuf) (c : MemCap), ¬ p.Exhausted n ∧
        p.allocBuf n = .ok (p', some b) ∧ MemCap.forRequest n = some c ∧ b.capacity = c.size ∧
        b.length = 0 ∧ b.head = 0 ∧ p'.Clean := by
  rcases MemCap.forRequest_isSome hn with ⟨c, hc⟩
  by_cases hfull : p.Exhausted n
  · left
    rcases hfull with ⟨c', hc', hempty, hcap⟩
    rw [hc] at hc'
    cases hc'
    exact ⟨⟨c, hc, hempty, hcap⟩, by simp [allocBuf, hc, hempty, hcap]⟩
  · right
    have halloc : ∃ p' b, p.allocBuf n = .ok (p', some b) := by
      unfold allocBuf
      rw [hc]
      cases hpool : p.pool c with
      | nil =>
          have hroom : ¬ p.totalMem + c.kb ≥ extraMemLimit := fun hcap => hfull ⟨c, hc, hpool, hcap⟩
          simp [hpool, hroom]
      | cons target next =>
          simp [hpool]
    rcases halloc with ⟨p', b, hb⟩
    rcases allocBuf_some hp hb with ⟨c', hc', hcap, hlen, hhead, hclean⟩
    exact ⟨p', b, c', hfull, hb, hc', hcap, hlen, hhead, hclean⟩

/-- Below its cap the pool serves every request of at most 8 MiB; at its cap it may end the
process instead. -/
theorem allocBuf_spec {p : BufPool} (hp : p.Clean) {n : Int} (hn : n ≤ MemCap.m8M.size) :
    (¬ p.BelowCap ∧ p.allocBuf n = .error .exited) ∨
      ∃ (p' : BufPool) (b : PoolBuf) (c : MemCap), p.allocBuf n = .ok (p', some b) ∧
        n ≤ b.capacity ∧ b.capacity = c.size ∧ b.length = 0 ∧ b.head = 0 ∧ p'.Clean := by
  rcases allocBuf_cases hp hn with
    ⟨⟨c, _, hempty, hcap⟩, hexit⟩ | ⟨p', b, c, _, hb, hc, hcap, hlen, hhead, hclean⟩
  · left
    refine ⟨?_, hexit⟩
    intro hbelow
    rcases hbelow c with hne | hlt
    · exact absurd hempty hne
    · omega
  · right
    have hle : n ≤ c.size := (MemCap.forRequest_spec hc).1
    exact ⟨p', b, c, hb, by omega, hcap, hlen, hhead, hclean⟩

/-- After a request for the smallest capacity an ample pool can still serve one for any other. -/
theorem Ample.allocBuf_m4K {p : BufPool} (hp : p.Ample) {n : Int}
    (hn : MemCap.forRequest n = some .m4K) :
    ∃ p' b, p.allocBuf n = .ok (p', some b) ∧
      ∀ c, c ≠ .m4K → p'.pool c ≠ [] ∨ p'.totalMem + c.kb < extraMemLimit := by
  unfold allocBuf
  rw [hn]
  cases hpool : p.pool .m4K with
  | nil =>
      have hroom : ¬ p.totalMem + MemCap.m4K.kb ≥ extraMemLimit := by
        rcases hp.spare .m4K with hne | hlt
        · exact absurd hpool hne
        · omega
      simp only [hpool, hroom, if_false]
      exact ⟨_, _, rfl, fun c _ => hp.spare c⟩
  | cons target next =>
      simp only [hpool]
      refine ⟨_, _, rfl, fun c hc => ?_⟩
      simp only [Function.update_of_ne hc]
      exact (hp.spare c).imp_right fun hlt => by omega

/-! ## The pool after its constructor -/

theorem Clean.initMemmory {p : BufPool} (hp : p.Clean) (c : MemCap) (num : Nat) :
    (p.initMemmory c num).Clean := by
  intro d b hb
  by_cases hdc : d = c
  · subst hdc
    simp only [BufPool.initMemmory, Function.update_self, freshChain, List.mem_map] at hb
    rcases hb with ⟨i, _, rfl⟩
    exact ⟨rfl, rfl, rfl⟩
  · simp only [BufPool.initMemmory, Function.update_of_ne hdc] at hb
    exact hp d b hb

theorem init_clean : init.Clean := by
  have hempty : Clean { pool := fun _ => [], totalMem := 0, made := [] } := by
    intro c b hb
    simp at hb
  exact ((((((hempty.initMemmory .m4K 5000).initMemmory .m16K 1000).initMemmory .m64K
    500).initMemmory .m256K 200).initMemmory .m1M 50).initMemmory .m4M 20).initMemmory .m8M 10

theorem initMemmory_stocked {p : BufPool} {c d : MemCap} {num : Nat} (hnum : 0 < num)
    (h : d = c ∨ p.pool d ≠ []) : (p.initMemmory c num).pool d ≠ [] := by
  by_cases hdc : d = c
  · subst hdc
    simp only [initMemmory, Function.update_self, freshChain, ne_eq, List.map_eq_nil_iff,
      List.range_eq_nil]
    omega
  · simp only [initMemmory, Function.update_of_ne hdc]
    exact h.resolve_left hdc

/-- A fresh pool has free blocks of every capacity. -/
theorem init_stocked (c : MemCap) : init.pool c ≠ [] := by
  unfold init
  cases c <;> repeat
    first
      | exact initMemmory_stocked (by decide) (Or.inl rfl)
      | refine initMemmory_stocked (by decide) (Or.inr ?_)

theorem init_serviceable : init.Serviceable :=
  ⟨init_clean, fun c => Or.inl (init_stocked c)⟩

end BufPool
end Reactor
end Rins
