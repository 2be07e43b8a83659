import Mathlib.Data.Fintype.Defs
import Mathlib.Data.Multiset.Range
import Rins.Lib.Ledger
import Rins.Lib.Run
import Rins.Reactor.ReactorBuf

/-!
# PoolOwnership — no block is ever in two places

Any number of `input_buf` and `output_buf` objects share one pool; every access to the pool is one
critical section of its mutex.  `read_data` and `send_data` may enter it twice, for the larger block
and to give back the old one, and other threads may run in between: there the new block is in the
local variable `new_buf`, in no free list and in no object.

The state of the system is the pool and what each object holds; a step is one critical section with
the local code around it.  The invariant is a balance: the blocks in the free lists and those
outside together are the blocks ever created, each once.
-/

namespace Rins
namespace Reactor

open Lib

/-! ## The books of the pool -/

instance : Fintype MemCap where
  elems := {.m4K, .m16K, .m64K, .m256K, .m1M, .m4M, .m8M}
  complete := by
    intro c
    cases c <;> decide

/-- What identifies a block for good: its address and its capacity. -/
def PoolBuf.sig (b : PoolBuf) : Nat × Int :=
  (b.addr, b.capacity)

namespace BufPool

/-- All free blocks. -/
def free (p : BufPool) : Multiset PoolBuf :=
  ∑ c, (p.pool c : Multiset PoolBuf)

/-- The identities of all blocks ever created. -/
def ledger (made : List MemCap) : Multiset (Nat × Int) :=
  made.zipIdx.map fun e => (e.2, e.1.size)

/-- The pool is in order while the blocks `out` are outside it. -/
structure Accounts (p : BufPool) (out : Multiset (Nat × Int)) : Prop where
  clean : p.Clean
  balanced : p.free.map PoolBuf.sig + out = ledger p.made
  total : p.totalMem = (p.made.map MemCap.kb).sum
  below : p.totalMem < extraMemLimit

theorem free_update (p : BufPool) (c : MemCap) (l : List PoolBuf) :
    free { p with pool := Function.update p.pool c l } + (p.pool c : Multiset PoolBuf) =
      p.free + (l : Multiset PoolBuf) := by
  have hsum := sum_update_add (fun d => (p.pool d : Multiset PoolBuf)) c (l : Multiset PoolBuf)
  have hcoe : ∀ d, ((Function.update p.pool c l d : List PoolBuf) : Multiset PoolBuf) =
      Function.update (fun d => (p.pool d : Multiset PoolBuf)) c (l : Multiset PoolBuf) d := by
    intro d
    by_cases hdc : d = c
    · subst hdc
      simp
    · simp [Function.update_of_ne hdc]
  simp only [free, hcoe]
  exact hsum

/-- Taking the first block off a free list. -/
theorem free_take {p : BufPool} {c : MemCap} {target : PoolBuf} {next : List PoolBuf}
    (hpool : p.pool c = target :: next) :
    p.free = target ::ₘ free { p with pool := Function.update p.pool c next } := by
  have hfree := free_update p c next
  rw [hpool, ← Multiset.cons_coe, Multiset.add_cons, ← Multiset.cons_add] at hfree
  exact (add_right_cancel hfree).symm

/-- Putting a block in front of a free list. -/
theorem free_put (p : BufPool) (c : MemCap) (b : PoolBuf) :
    free { p with pool := Function.update p.pool c (b :: p.pool c) } = b ::ₘ p.free := by
  have hfree := free_update p c (b :: p.pool c)
  rw [← Multiset.cons_coe, Multiset.add_cons, ← Multiset.cons_add] at hfree
  exact add_right_cancel hfree

theorem ledger_append (made more : List MemCap) :
    ledger (made ++ more) =
      ledger made +
        ((more.zipIdx made.length).map fun e => (e.2, e.1.size) : List (Nat × Int)) := by
  simp [ledger, List.zipIdx_append]

/-- Every block ever created has one of the seven capacities. -/
theorem capacity_of_mem_ledger {made : List MemCap} {a : Nat} {k : Int} (h : (a, k) ∈ ledger made) :
    ∃ c : MemCap, k = c.size := by
  simp only [ledger, Multiset.mem_coe, List.mem_map, Prod.mk.injEq] at h
  rcases h with ⟨e, _, _, hk⟩
  exact ⟨e.1, hk.symm⟩

/-- The addresses in the ledger are those below the number of blocks, each once. -/
theorem map_fst_ledger (made : List MemCap) :
    (ledger made).map Prod.fst = Multiset.range made.length := by
  simp only [ledger, Multiset.map_coe, List.map_map]
  rw [show Prod.fst ∘ (fun e : MemCap × Nat => (e.2, e.1.size)) = Prod.snd from rfl,
    List.zipIdx_map_snd]
  simp [Multiset.range, List.range_eq_range']

/-- The memory in the ledger, in kilobytes. -/
theorem sum_ledger (made : List MemCap) :
    ((ledger made).map fun e => e.2 / 1024).sum = ((made.map MemCap.kb).sum : Int) := by
  simp only [ledger, Multiset.map_coe, List.map_map, Multiset.sum_coe]
  rw [show (fun e : Nat × Int => e.2 / 1024) ∘ (fun e : MemCap × Nat => (e.2, e.1.size)) =
    (fun c : MemCap => (c.kb : Int)) ∘ Prod.fst from funext fun e => (MemCap.kb_eq e.1).symm,
    ← List.map_map, List.zipIdx_map_fst]
  induction made with
  | nil =>
      rfl
  | cons c made ih =>
      simp [ih]

/-- `alloc_buf` moves one block out of the books, whether it is an old one or a new one. -/
theorem Accounts.allocBuf {p p' : BufPool} {out : Multiset (Nat × Int)} (h : p.Accounts out)
    {n : Int} {b : PoolBuf} (halloc : p.allocBuf n = .ok (p', some b)) :
    p'.Accounts (b.sig ::ₘ out) := by
  rcases allocBuf_some h.clean halloc with ⟨c, hc, _, _, _, hclean⟩
  have hbal := h.balanced
  have hbelow := h.below
  simp only [BufPool.allocBuf, hc] at halloc
  cases hpool : p.pool c with
  | nil =>
      -- the free list is empty: the new block goes into the ledger and out at once
      simp only [hpool] at halloc
      split_ifs at halloc with hcap
      simp only [Except.ok.injEq, Prod.mk.injEq, Option.some.injEq] at halloc
      rcases halloc with ⟨rfl, rfl⟩
      refine ⟨hclean, ?_, ?_, ?_⟩
      · have hnew : ((newBuf p c).sig ::ₘ out : Multiset (Nat × Int)) =
            out + {(p.made.length, c.size)} := by
          rw [add_comm, Multiset.singleton_add]
          rfl
        rw [ledger_append, hnew, ← hbal, ← add_assoc]
        rfl
      · simp [h.total]
      · show p.totalMem + c.kb < extraMemLimit
        omega
  | cons target next =>
      -- a free block changes sides, the ledger stays
      simp only [hpool, Except.ok.injEq, Prod.mk.injEq, Option.some.injEq] at halloc
      rcases halloc with ⟨rfl, rfl⟩
      refine ⟨hclean, ?_, h.total, h.below⟩
      rw [free_take hpool, Multiset.map_cons, Multiset.cons_add] at hbal
      rw [Multiset.add_cons]
      exact hbal

/-- `revert` brings a block back into the books; its assertion holds. -/
theorem Accounts.revert {p : BufPool} {out : Multiset (Nat × Int)} {b : PoolBuf}
    (h : p.Accounts (b.sig ::ₘ out)) : ∃ p', p.revert b = .ok p' ∧ p'.Accounts out := by
  have hmem : b.sig ∈ ledger p.made := by
    rw [← h.balanced]
    simp
  rcases capacity_of_mem_ledger hmem with ⟨c, hc⟩
  refine ⟨_, revert_eq hc, h.clean.revert (revert_eq hc), ?_, h.total, h.below⟩
  have hbal := h.balanced
  rw [Multiset.add_cons] at hbal
  rw [free_put, Multiset.map_cons, Multiset.cons_add]
  exact hbal

/-- `init_memmory` enters its chain into the books. -/
theorem Accounts.initMemmory {p : BufPool} {out : Multiset (Nat × Int)} (h : p.Accounts out)
    (c : MemCap) (num : Nat) (hempty : p.pool c = [])
    (hroom : p.totalMem + c.kb * num < extraMemLimit) : (p.initMemmory c num).Accounts out := by
  refine ⟨h.clean.initMemmory c num, ?_, ?_, hroom⟩
  · have hfree := free_update p c (freshChain p.made.length c num)
    rw [hempty, Multiset.coe_nil, add_zero] at hfree
    -- the chain has the addresses that the new entries of the ledger have
    have hchain : ((freshChain p.made.length c num).map PoolBuf.sig) =
        ((List.replicate num c).zipIdx p.made.length).map fun e => (e.2, e.1.size) := by
      apply List.ext_getElem
      · simp [freshChain]
      · intro i h₁ h₂
        simp [freshChain, PoolBuf.sig, IoBuf.new]
    show (free { p with pool := Function.update p.pool c (freshChain p.made.length c num) }).map
        PoolBuf.sig + out = ledger (p.made ++ List.replicate num c)
    rw [hfree, ledger_append, ← h.balanced, Multiset.map_add, Multiset.map_coe, hchain,
      add_right_comm]
  · simp [BufPool.initMemmory, h.total, Nat.mul_comm]

/-- The constructor leaves the books balanced. -/
theorem init_accounts : init.Accounts 0 := by
  have hzero : Accounts { pool := fun _ => [], totalMem := 0, made := [] } 0 := by
    refine ⟨?_, ?_, rfl, by decide⟩
    · intro c b hb
      simp at hb
    · simp [free, ledger]
  have h₁ := hzero.initMemmory .m4K 5000 rfl (by decide)
  have h₂ := h₁.initMemmory .m16K 1000 rfl (by decide)
  have h₃ := h₂.initMemmory .m64K 500 rfl (by decide)
  have h₄ := h₃.initMemmory .m256K 200 rfl (by decide)
  have h₅ := h₄.initMemmory .m1M 50 rfl (by decide)
  have h₆ := h₅.initMemmory .m4M 20 rfl (by decide)
  exact h₆.initMemmory .m8M 10 rfl (by decide)

end BufPool

/-! ## The objects -/

/-- Where an object stands between two critical sections. -/
inductive Slot
  /-- no call in progress; `_buf` -/
  | idle (buf : ReactorBuf)
  /-- inside `read_data`: `_buf` and `new_buf` -/
  | reading (old new : PoolBuf) (needRead : Int) (res : SysRead)
  /-- inside `send_data`: `_buf` and `new_buf` -/
  | sending (old new : PoolBuf) (data : List UInt8) (datalen : Int)
  | destroyed

namespace Slot

/-- The block held as `_buf`. -/
def held : Slot → Multiset PoolBuf
  | .idle none => 0
  | .idle (some b) => {b}
  | .reading old _ _ _ => {old}
  | .sending old _ _ _ => {old}
  | .destroyed => 0

/-- The block in the local variable `new_buf` of the call in progress. -/
def inHand : Slot → Multiset PoolBuf
  | .reading _ new _ _ => {new}
  | .sending _ new _ _ => {new}
  | _ => 0

/-- The identities of the blocks an object accounts for. -/
def sigs (slot : Slot) : Multiset (Nat × Int) :=
  (slot.held + slot.inHand).map PoolBuf.sig

end Slot

/-- The pool and the objects that use it. -/
structure Owners where
  pool : BufPool
  bufs : List Slot

namespace Owners

/-- The pool after its constructor, and no object. -/
def init : Owners :=
  { pool := BufPool.init
    bufs := [] }

/-- One critical section of a call, with the local code around it. -/
inductive Op
  /-- `read_data` up to its first critical section, or as a whole if that is the only one -/
  | beginRead (sock : Socket)
  | endRead
  | beginSend (data : List UInt8) (datalen : Int)
  | endSend
  | pop (len : Int)
  | clear
  | destroy
  /-- `input_buf::adjust` -/
  | adjust
  | write2fd (res : SysWrite)

inductive Act
  | create
  /-- a call on object `i` -/
  | call (i : Nat) (op : Op)

/-- The part of `read_data` up to the point where it would give back the old block. -/
def beginRead (p : BufPool) (buf : ReactorBuf) (sock : Socket) : Except Fault (BufPool × Slot) :=
  match sock.fionread with
  | none => .ok (p, .idle buf)
  | some needRead => do
      let (p, stage) ← InputBuf.readAlloc p buf needRead
      match stage with
      | .failed buf => return (p, .idle buf)
      | .ready b =>
          let (_, b) ← InputBuf.readInto b needRead sock.read
          return (p, .idle (some b))
      | .moving old new => return (p, .reading old new needRead sock.read)

/-- The rest of `read_data`. -/
def endRead (p : BufPool) (old new : PoolBuf) (needRead : Int) (res : SysRead) :
    Except Fault (BufPool × Slot) := do
  let (p, b) ← ReactorBuf.replace p old new
  let (_, b) ← InputBuf.readInto b needRead res
  return (p, .idle (some b))

def beginSend (p : BufPool) (buf : ReactorBuf) (data : List UInt8) (datalen : Int) :
    Except Fault (BufPool × Slot) := do
  let (p, stage) ← OutputBuf.sendAlloc p buf datalen
  match stage with
  | .failed buf => return (p, .idle buf)
  | .ready b =>
      let b ← OutputBuf.sendAppend b data datalen
      return (p, .idle (some b))
  | .moving old new => return (p, .sending old new data datalen)

def endSend (p : BufPool) (old new : PoolBuf) (data : List UInt8) (datalen : Int) :
    Except Fault (BufPool × Slot) := do
  let (p, b) ← ReactorBuf.replace p old new
  let b ← OutputBuf.sendAppend b data datalen
  return (p, .idle (some b))

/-- What the call makes of the pool and of the object it is made on; `none` if the object is not in
a state where the call can go on. -/
def perform (p : BufPool) : Op → Slot → Option (Except Fault (BufPool × Slot))
  | .beginRead sock, .idle buf => some (beginRead p buf sock)
  | .endRead, .reading old new needRead res => some (endRead p old new needRead res)
  | .beginSend data datalen, .idle buf => some (beginSend p buf data datalen)
  | .endSend, .sending old new data datalen => some (endSend p old new data datalen)
  | .pop len, .idle buf => some do
      let (p, buf) ← ReactorBuf.pop p buf len
      return (p, .idle buf)
  | .clear, .idle buf => some do
      let (p, buf) ← ReactorBuf.clear p buf
      return (p, .idle buf)
  | .destroy, .idle buf => some do
      let (p, _) ← ReactorBuf.clear p buf
      return (p, .destroyed)
  | .adjust, .idle buf => some do
      let buf ← InputBuf.adjust buf
      return (p, .idle buf)
  | .write2fd res, .idle buf => some do
      let (_, buf, _) ← OutputBuf.write2fd buf res
      return (p, .idle buf)
  | _, _ => none

/-- One step of the system; a call that does not return leaves no successor. -/
def step (s : Owners) : Act → Option Owners
  | .create => some { s with bufs := s.bufs ++ [.idle none] }
  | .call i op =>
      match s.bufs[i]? with
      | none => none
      | some slot =>
          match perform s.pool op slot with
          | some (.ok (p, slot)) => some { pool := p, bufs := s.bufs.set i slot }
          | _ => none

/-- The two halves of `read_data` are `read_data`. -/
theorem readData_eq_halves (p : BufPool) (buf : ReactorBuf) (sock : Socket) :
    (do
      let (_, p, buf) ← InputBuf.readData p buf sock
      return (p, Slot.idle buf)) = (do
      let (p, slot) ← beginRead p buf sock
      match slot with
      | .reading old new needRead res => endRead p old new needRead res
      | slot => return (p, slot)) := by
  cases hion : sock.fionread with
  | none =>
      simp [InputBuf.readData, beginRead, hion]
  | some needRead =>
      cases hstage : InputBuf.readAlloc p buf needRead with
      | error e =>
          simp [InputBuf.readData, beginRead, hion, hstage]
      | ok out =>
          rcases out with ⟨p₁, stage⟩
          cases stage with
          | failed buf' =>
              simp [InputBuf.readData, beginRead, hion, hstage]
          | ready b =>
              cases hinto : InputBuf.readInto b needRead sock.read <;>
                simp [InputBuf.readData, beginRead, hion, hstage, hinto]
          | moving old new =>
              simp [InputBuf.readData, beginRead, endRead, hion, hstage]

/-- The two halves of `send_data` are `send_data`. -/
theorem sendData_eq_halves (p : BufPool) (buf : ReactorBuf) (data : List UInt8) (datalen : Int) :
    (do
      let (_, p, buf) ← OutputBuf.sendData p buf data datalen
      return (p, Slot.idle buf)) = (do
      let (p, slot) ← beginSend p buf data datalen
      match slot with
      | .sending old new data datalen => endSend p old new data datalen
      | slot => return (p, slot)) := by
  cases hstage : OutputBuf.sendAlloc p buf datalen with
  | error e =>
      simp [OutputBuf.sendData, beginSend, hstage]
  | ok out =>
      rcases out with ⟨p₁, stage⟩
      cases stage with
      | failed buf' =>
          simp [OutputBuf.sendData, beginSend, hstage]
      | ready b =>
          cases happ : OutputBuf.sendAppend b data datalen <;>
            simp [OutputBuf.sendData, beginSend, hstage, happ]
      | moving old new =>
          simp [OutputBuf.sendData, beginSend, endSend, hstage]

/-! ## What the calls do to the identities -/

theorem readInto_sig {b b' : PoolBuf} {needRead ret : Int} {res : SysRead}
    (h : InputBuf.readInto b needRead res = .ok (ret, b')) : b'.sig = b.sig := by
  induction res with
  | eintr retry ih =>
      exact ih h
  | error =>
      cases h
      rfl
  | bytes bs =>
      simp only [InputBuf.readInto] at h
      generalize bs.take _ = taken at h
      by_cases hnil : taken = []
      · rw [if_pos hnil] at h
        cases h
        rfl
      · rw [if_neg hnil] at h
        rcases bind_eq_ok.1 h with ⟨filled, happ, h⟩
        have hcap := IoBuf.append_capacity happ
        have hb' : b' = { b with toIoBuf := filled } := by
          split_ifs at h
          · rcases bind_eq_ok.1 h with ⟨_, _, h⟩
            cases h
            rfl
          · cases h
            rfl
        subst hb'
        exact congrArg (Prod.mk b.addr) hcap

theorem sendAppend_sig {b b' : PoolBuf} {data : List UInt8} {datalen : Int}
    (h : OutputBuf.sendAppend b data datalen = .ok b') : b'.sig = b.sig := by
  rcases bind_eq_ok.1 h with ⟨_, _, h⟩
  rcases bind_eq_ok.1 h with ⟨filled, happ, h⟩
  have hcap := IoBuf.append_capacity happ
  cases h
  exact congrArg (Prod.mk b.addr) hcap

/-- Moving to the new block gives the old one back. -/
theorem replace_accounts {p p' : BufPool} {old new b : PoolBuf} {rest : Multiset (Nat × Int)}
    (h : p.Accounts (old.sig ::ₘ new.sig ::ₘ rest))
    (hrep : ReactorBuf.replace p old new = .ok (p', b)) :
    p'.Accounts (new.sig ::ₘ rest) ∧ b.sig = new.sig := by
  rcases h.revert with ⟨p₁, hrev, haccounts⟩
  rcases bind_eq_ok.1 hrep with ⟨copied, hcopy, hrep⟩
  have hcap := IoBuf.copy_capacity hcopy
  rw [hrev] at hrep
  cases hrep
  exact ⟨haccounts, congrArg (Prod.mk new.addr) hcap⟩

theorem sigs_idle_none : (Slot.idle none).sigs = 0 := rfl

theorem sigs_idle_some (b : PoolBuf) : (Slot.idle (some b)).sigs = {b.sig} := rfl

theorem sigs_reading (old new : PoolBuf) (needRead : Int) (res : SysRead) :
    (Slot.reading old new needRead res).sigs = {old.sig} + {new.sig} := rfl

theorem sigs_sending (old new : PoolBuf) (data : List UInt8) (datalen : Int) :
    (Slot.sending old new data datalen).sigs = {old.sig} + {new.sig} := rfl

section Calls

variable {p p' : BufPool} {rest : Multiset (Nat × Int)} {slot slot' : Slot} {buf : ReactorBuf}

theorem clear_accounts {buf' : ReactorBuf} (h : p.Accounts ((Slot.idle buf).sigs + rest))
    (hclear : ReactorBuf.clear p buf = .ok (p', buf')) : buf' = none ∧ p'.Accounts rest := by
  cases buf with
  | none =>
      cases hclear
      exact ⟨rfl, by simpa [sigs_idle_none] using h⟩
  | some b =>
      rw [sigs_idle_some, Multiset.singleton_add] at h
      rcases h.revert with ⟨p₁, hrev, haccounts⟩
      simp only [ReactorBuf.clear, hrev, ok_bind, pure_eq_ok] at hclear
      cases hclear
      exact ⟨rfl, haccounts⟩

theorem pop_accounts {buf' : ReactorBuf} {len : Int} (h : p.Accounts ((Slot.idle buf).sigs + rest))
    (hpop : ReactorBuf.pop p buf len = .ok (p', buf')) :
    p'.Accounts ((Slot.idle buf').sigs + rest) := by
  cases buf with
  | none =>
      cases hpop
  | some b =>
      have hsig : PoolBuf.sig { b with toIoBuf := b.toIoBuf.pop len } = b.sig :=
        congrArg (Prod.mk b.addr) (IoBuf.capacity_pop b.toIoBuf len)
      rw [sigs_idle_some, Multiset.singleton_add, ← hsig] at h
      simp only [ReactorBuf.pop] at hpop
      rcases bind_eq_ok.1 hpop with ⟨_, _, hpop⟩
      split_ifs at hpop
      · rcases h.revert with ⟨p₁, hrev, haccounts⟩
        rw [hrev] at hpop
        cases hpop
        simpa [sigs_idle_none] using haccounts
      · cases hpop
        rw [sigs_idle_some, Multiset.singleton_add]
        exact h

/-- `alloc_buf` accounts for what it returns, a block or a null pointer. -/
theorem allocBuf_accounts {n : Int} (h : p.Accounts rest)
    (halloc : p.allocBuf n = .ok (p', buf)) : p'.Accounts ((Slot.idle buf).sigs + rest) := by
  cases buf with
  | none =>
      unfold BufPool.allocBuf at halloc
      split at halloc
      · cases halloc
        simpa [sigs_idle_none] using h
      · split at halloc
        · split_ifs at halloc
          cases halloc
        · cases halloc
  | some b =>
      rw [sigs_idle_some, Multiset.singleton_add]
      exact h.allocBuf halloc

/-- What `read_data` and `send_data` hold after their first critical section. -/
def stageSigs : ReactorBuf.Stage → Multiset (Nat × Int)
  | .failed buf => (Slot.idle buf).sigs
  | .ready b => {b.sig}
  | .moving old new => {old.sig} + {new.sig}

theorem makeRoom_accounts {n : Int} {request : PoolBuf → Int} {stage : ReactorBuf.Stage}
    (h : p.Accounts ((Slot.idle buf).sigs + rest))
    (hroom : ReactorBuf.makeRoom p buf n request = .ok (p', stage)) :
    p'.Accounts (stageSigs stage + rest) := by
  cases buf with
  | none =>
      rcases bind_eq_ok.1 hroom with ⟨⟨p₁, got⟩, hgot, hroom⟩
      have hacc := allocBuf_accounts (by simpa [sigs_idle_none] using h) hgot
      cases got <;> cases hroom <;> exact hacc
  | some b =>
      rcases bind_eq_ok.1 hroom with ⟨_, _, hroom⟩
      split_ifs at hroom
      · rcases bind_eq_ok.1 hroom with ⟨⟨p₁, got⟩, hgot, hroom⟩
        have hacc := allocBuf_accounts h hgot
        cases got with
        -- a null pointer: the object keeps the old block
        | none =>
            cases hroom
            rw [sigs_idle_none, zero_add] at hacc
            exact hacc
        -- for a while the object accounts for both
        | some new =>
            cases hroom
            rw [sigs_idle_some, sigs_idle_some, add_left_comm, ← add_assoc] at hacc
            exact hacc
      · cases hroom
        exact h

theorem beginRead_accounts {sock : Socket} (h : p.Accounts ((Slot.idle buf).sigs + rest))
    (hread : beginRead p buf sock = .ok (p', slot')) : p'.Accounts (slot'.sigs + rest) := by
  unfold beginRead at hread
  cases hion : sock.fionread with
  | none =>
      simp only [hion] at hread
      cases hread
      exact h
  | some needRead =>
      simp only [hion] at hread
      rcases bind_eq_ok.1 hread with ⟨⟨p₁, stage⟩, hstage, hread⟩
      have hacc := makeRoom_accounts h hstage
      cases stage with
      | failed buf' =>
          cases hread
          exact hacc
      | ready b =>
          rcases bind_eq_ok.1 hread with ⟨⟨ret, b'⟩, hinto, hread⟩
          have hsig := readInto_sig hinto
          cases hread
          rw [sigs_idle_some, hsig]
          exact hacc
      | moving old new =>
          cases hread
          exact hacc

theorem endRead_accounts {old new : PoolBuf} {needRead : Int} {res : SysRead}
    (h : p.Accounts (Slot.sigs (.reading old new needRead res) + rest))
    (hread : endRead p old new needRead res = .ok (p', slot')) :
    p'.Accounts (slot'.sigs + rest) := by
  rw [sigs_reading, add_assoc, Multiset.singleton_add, Multiset.singleton_add] at h
  rcases bind_eq_ok.1 hread with ⟨⟨p₁, b⟩, hrep, hread⟩
  rcases replace_accounts h hrep with ⟨hacc, hsig⟩
  rcases bind_eq_ok.1 hread with ⟨⟨ret, b'⟩, hinto, hread⟩
  have hsig' := readInto_sig hinto
  cases hread
  rw [sigs_idle_some, hsig', hsig, Multiset.singleton_add]
  exact hacc

theorem beginSend_accounts {data : List UInt8} {datalen : Int}
    (h : p.Accounts ((Slot.idle buf).sigs + rest))
    (hsend : beginSend p buf data datalen = .ok (p', slot')) : p'.Accounts (slot'.sigs + rest) := by
  rcases bind_eq_ok.1 hsend with ⟨⟨p₁, stage⟩, hstage, hsend⟩
  have hacc := makeRoom_accounts h hstage
  cases stage with
  | failed buf' =>
      cases hsend
      exact hacc
  | ready b =>
      rcases bind_eq_ok.1 hsend with ⟨b', happ, hsend⟩
      have hsig := sendAppend_sig happ
      cases hsend
      rw [sigs_idle_some, hsig]
      exact hacc
  | moving old new =>
      cases hsend
      exact hacc

theorem endSend_accounts {old new : PoolBuf} {data : List UInt8} {datalen : Int}
    (h : p.Accounts (Slot.sigs (.sending old new data datalen) + rest))
    (hsend : endSend p old new data datalen = .ok (p', slot')) :
    p'.Accounts (slot'.sigs + rest) := by
  rw [sigs_sending, add_assoc, Multiset.singleton_add, Multiset.singleton_add] at h
  rcases bind_eq_ok.1 hsend with ⟨⟨p₁, b⟩, hrep, hsend⟩
  rcases replace_accounts h hrep with ⟨hacc, hsig⟩
  rcases bind_eq_ok.1 hsend with ⟨b', happ, hsend⟩
  have hsig' := sendAppend_sig happ
  cases hsend
  rw [sigs_idle_some, hsig', hsig, Multiset.singleton_add]
  exact hacc

theorem adjust_sigs {buf' : ReactorBuf} (hadj : InputBuf.adjust buf = .ok buf') :
    (Slot.idle buf').sigs = (Slot.idle buf).sigs := by
  cases buf with
  | none =>
      cases hadj
      rfl
  | some b =>
      rcases bind_eq_ok.1 hadj with ⟨moved, hmoved, hadj⟩
      have hcap := IoBuf.adjust_capacity hmoved
      cases hadj
      rw [sigs_idle_some, sigs_idle_some]
      exact congrArg (fun k => {(b.addr, k)}) hcap

theorem write2fd_sigs {buf' : ReactorBuf} {res : SysWrite} {ret : Int} {taken : List UInt8}
    (hwrite : OutputBuf.write2fd buf res = .ok (ret, buf', taken)) :
    (Slot.idle buf').sigs = (Slot.idle buf).sigs := by
  cases buf with
  | none =>
      cases hwrite
  | some b =>
      rcases bind_eq_ok.1 hwrite with ⟨_, _, hwrite⟩
      cases hret : res.ret with
      | again =>
          simp only [hret] at hwrite
          cases hwrite
          rfl
      | error =>
          simp only [hret] at hwrite
          cases hwrite
          rfl
      | wrote n =>
          simp only [hret] at hwrite
          split_ifs at hwrite
          · rcases bind_eq_ok.1 hwrite with ⟨_, _, hwrite⟩
            rcases bind_eq_ok.1 hwrite with ⟨adjusted, hadj, hwrite⟩
            have hcap := IoBuf.adjust_capacity hadj
            rw [IoBuf.capacity_pop] at hcap
            cases hwrite
            rw [sigs_idle_some, sigs_idle_some]
            exact congrArg (fun k => {(b.addr, k)}) hcap
          · cases hwrite
            rfl

/-- A call keeps the books balanced, whatever the other objects hold. -/
theorem perform_accounts {op : Op} (h : p.Accounts (slot.sigs + rest))
    (hop : perform p op slot = some (.ok (p', slot'))) : p'.Accounts (slot'.sigs + rest) := by
  unfold perform at hop
  split at hop <;> simp only [Option.some.injEq, reduceCtorEq] at hop
  case h_1 => exact beginRead_accounts h hop
  case h_2 => exact endRead_accounts h hop
  case h_3 => exact beginSend_accounts h hop
  case h_4 => exact endSend_accounts h hop
  case h_5 =>
    rcases bind_eq_ok.1 hop with ⟨⟨p₁, buf'⟩, hpop, hop⟩
    have hacc := pop_accounts h hpop
    cases hop
    exact hacc
  case h_6 =>
    rcases bind_eq_ok.1 hop with ⟨⟨p₁, buf'⟩, hclear, hop⟩
    rcases clear_accounts h hclear with ⟨rfl, hacc⟩
    cases hop
    simpa [sigs_idle_none] using hacc
  case h_7 =>
    rcases bind_eq_ok.1 hop with ⟨⟨p₁, buf'⟩, hclear, hop⟩
    rcases clear_accounts h hclear with ⟨rfl, hacc⟩
    cases hop
    simpa [Slot.sigs, Slot.held, Slot.inHand] using hacc
  case h_8 =>
    rcases bind_eq_ok.1 hop with ⟨buf', hadj, hop⟩
    have hsame := adjust_sigs hadj
    cases hop
    rw [hsame]
    exact h
  case h_9 =>
    rcases bind_eq_ok.1 hop with ⟨⟨ret, buf', taken⟩, hwrite, hop⟩
    have hsame := write2fd_sigs hwrite
    cases hop
    rw [hsame]
    exact h

end Calls

/-! ## The invariant -/

/-- The blocks held as `_buf`. -/
def held (s : Owners) : Multiset PoolBuf :=
  (s.bufs.map Slot.held).sum

/-- The blocks in the local `new_buf` of a `read_data` or `send_data` in progress. -/
def inHand (s : Owners) : Multiset PoolBuf :=
  (s.bufs.map Slot.inHand).sum

/-- All blocks, wherever they are. -/
def blocks (s : Owners) : Multiset PoolBuf :=
  s.pool.free + s.held + s.inHand

/-- The pool's books balance with what the objects hold. -/
def Inv (s : Owners) : Prop :=
  s.pool.Accounts (s.bufs.map Slot.sigs).sum

theorem init_inv : Inv init :=
  BufPool.init_accounts

theorem step_inv {s t : Owners} {a : Act} (h : Inv s) (hstep : step s a = some t) : Inv t := by
  cases a with
  | create =>
      cases hstep
      simpa [Inv, sigs_idle_none] using h
  | call i op =>
      simp only [step] at hstep
      cases hslot : s.bufs[i]? with
      | none =>
          simp [hslot] at hstep
      | some slot =>
          simp only [hslot] at hstep
          -- what the other objects hold is a rest that the call does not touch
          rcases exists_sum_map_set Slot.sigs hslot with ⟨rest, hsum, hset⟩
          split at hstep
          · next p' slot' hop =>
              cases hstep
              have hacc : s.pool.Accounts (slot.sigs + rest) := hsum ▸ h
              simp only [Inv, hset]
              exact perform_accounts hacc hop
          · cases hstep

theorem run_inv {as : List Act} {s : Owners} (hrun : run step init as = some s) : Inv s :=
  run_invariant_always (fun _ _ _ => step_inv) init_inv hrun

/-- What the objects account for is what they hold and what their calls have in hand. -/
theorem sum_sigs (bufs : List Slot) :
    (bufs.map Slot.sigs).sum =
      ((bufs.map Slot.held).sum + (bufs.map Slot.inHand).sum).map PoolBuf.sig := by
  induction bufs with
  | nil =>
      rfl
  | cons slot bufs ih =>
      simp only [List.map_cons, List.sum_cons, ih, Slot.sigs, Multiset.map_add]
      simp only [add_assoc, add_left_comm]

theorem Inv.blocks_eq {s : Owners} (h : Inv s) :
    s.blocks.map PoolBuf.sig = BufPool.ledger s.pool.made := by
  calc
    s.blocks.map PoolBuf.sig
        = s.pool.free.map PoolBuf.sig + (s.held + s.inHand).map PoolBuf.sig := by
          rw [blocks, add_assoc, Multiset.map_add]
    _ = s.pool.free.map PoolBuf.sig + (s.bufs.map Slot.sigs).sum := by
          rw [sum_sigs]
          rfl
    _ = BufPool.ledger s.pool.made := h.balanced

theorem Inv.addrs {s : Owners} (h : Inv s) :
    s.blocks.map PoolBuf.addr = Multiset.range s.pool.made.length := by
  calc
    s.blocks.map PoolBuf.addr
        = (s.blocks.map PoolBuf.sig).map Prod.fst := by
          rw [Multiset.map_map]
          rfl
    _ = (BufPool.ledger s.pool.made).map Prod.fst := by
          rw [h.blocks_eq]
    _ = Multiset.range s.pool.made.length := BufPool.map_fst_ledger _

theorem Inv.mem {s : Owners} (h : Inv s) :
    (s.blocks.map fun b => b.capacity / 1024).sum = (s.pool.totalMem : Int) := by
  rw [h.total, ← BufPool.sum_ledger, ← h.blocks_eq, Multiset.map_map]
  rfl

/-- A block that `alloc_buf` returns is in no object and in no call. -/
theorem Inv.allocBuf_fresh {s : Owners} (h : Inv s) {n : Int} {p' : BufPool} {b : PoolBuf}
    (halloc : s.pool.allocBuf n = .ok (p', some b)) :
    b.addr ∉ (s.held + s.inHand).map PoolBuf.addr := by
  -- once the block is outside, the balance lists it beside the others, and no address occurs twice
  have hbal := (h.allocBuf halloc).balanced
  have haddrs := congrArg (Multiset.map Prod.fst) hbal
  rw [BufPool.map_fst_ledger, sum_sigs, Multiset.map_add, Multiset.map_cons, Multiset.map_map,
    Multiset.map_map] at haddrs
  have hnodup := Multiset.nodup_range p'.made.length
  rw [← haddrs, Multiset.nodup_add] at hnodup
  exact (Multiset.nodup_cons.1 hnodup.2.1).1

/-- The assertion in `revert` holds for every block an object or a call may give back. -/
theorem Inv.revert_ok {s : Owners} (h : Inv s) {b : PoolBuf} (hb : b ∈ s.held + s.inHand) :
    ∃ p', s.pool.revert b = .ok p' := by
  have hblock : b ∈ s.blocks := by
    rw [blocks, add_assoc]
    exact Multiset.mem_add.2 (Or.inr hb)
  have hmem : b.sig ∈ BufPool.ledger s.pool.made := by
    rw [← h.blocks_eq]
    exact Multiset.mem_map_of_mem _ hblock
  rcases BufPool.capacity_of_mem_ledger hmem with ⟨c, hc⟩
  exact ⟨_, BufPool.revert_eq hc⟩

/-- In every reachable state: each block ever created is in exactly one place (a free list, an
object that holds it as `_buf`, or the local `new_buf` of one call in progress); free blocks are
clean; `_total_mem` is the memory ever created and below the limit; `alloc_buf` returns an empty
block of the smallest sufficient class that is nowhere else; and no `revert` can fail. -/
theorem blocks_in_one_place (as : List Act) (s : Owners) (hrun : run step init as = some s) :
    s.blocks.map PoolBuf.addr = Multiset.range s.pool.made.length ∧
      s.pool.Clean ∧
      (s.blocks.map fun b => b.capacity / 1024).sum = (s.pool.totalMem : Int) ∧
      s.pool.totalMem < extraMemLimit ∧
      (∀ (n : Int) (p' : BufPool) (buf : ReactorBuf), 0 ≤ n → n ≤ MemCap.m8M.size →
        s.pool.allocBuf n = .ok (p', buf) →
        ∃ (b : PoolBuf) (c : MemCap), buf = some b ∧ b.length = 0 ∧ b.head = 0 ∧
          b.capacity = c.size ∧ n ≤ c.size ∧ (∀ d : MemCap, n ≤ d.size → c.size ≤ d.size) ∧
          b.addr ∉ (s.held + s.inHand).map PoolBuf.addr) ∧
      ∀ b ∈ s.held + s.inHand, ∃ p', s.pool.revert b = .ok p' := by
  have h := run_inv hrun
  refine ⟨h.addrs, h.clean, h.mem, h.below, ?_, fun b hb => h.revert_ok hb⟩
  intro n p' buf _ hn halloc
  rcases BufPool.allocBuf_cases h.clean hn with
    ⟨_, hexit⟩ | ⟨p₁, b, c, _, hb, hc, hcap, hlen, hhead, _⟩
  · rw [hexit] at halloc
    cases halloc
  · rw [hb] at halloc
    cases halloc
    rcases MemCap.forRequest_spec hc with ⟨hle, hleast⟩
    exact ⟨b, c, rfl, hlen, hhead, hcap, hle, hleast, h.allocBuf_fresh hb⟩

/-- One byte is read, then 4096 more are announced: the block in use is too small and `read_data`
asks for a larger one. -/
def growingRead : List Act :=
  [.create, .call 0 (.beginRead (Socket.ofChunk [7] 0)),
    .call 0 (.beginRead { fionread := some 4096, read := .error })]

theorem growingRead_reaches :
    ∃ s old new res, run step init growingRead = some s ∧
      s.bufs = [.reading old new 4096 res] := by
  have hdone : ((run step init growingRead).map fun s => s.bufs.map fun
      | .reading _ _ needRead _ => needRead
      | _ => 0) = some [4096] := by
    decide +kernel
  rcases Option.map_eq_some_iff.1 hdone with ⟨s, hrun, hbufs⟩
  rcases List.map_eq_singleton_iff.1 hbufs with ⟨slot, hslot, hread⟩
  cases slot with
  | reading old new needRead res =>
      simp only at hread
      subst hread
      exact ⟨s, old, new, res, hrun, hslot⟩
  | idle buf =>
      simp at hread
  | sending old new data datalen =>
      simp at hread
  | destroyed =>
      simp at hread

theorem blocks_in_one_place_growingRead :
    ∃ s, run step init growingRead = some s ∧
      s.blocks.map PoolBuf.addr = Multiset.range s.pool.made.length ∧ s.inHand ≠ 0 := by
  rcases growingRead_reaches with ⟨s, old, new, res, hrun, hbufs⟩
  refine ⟨s, hrun, (blocks_in_one_place growingRead s hrun).1, ?_⟩
  simp [inHand, hbufs, Slot.inHand]

/-- Between the two critical sections of that `read_data` one block is in no free list and is not
the `_buf` of any object. -/
theorem free_or_held_fails :
    ∃ s, run step init growingRead = some s ∧
      ∃ a < s.pool.made.length, a ∉ (s.pool.free + s.held).map PoolBuf.addr := by
  rcases growingRead_reaches with ⟨s, old, new, res, hrun, hbufs⟩
  -- the new block has one of the addresses, and it is the only one that has it
  have haddrs := (run_inv hrun).addrs
  have hhand : s.inHand = {new} := by
    simp [inHand, hbufs, Slot.inHand]
  rw [blocks, hhand, Multiset.map_add, Multiset.map_singleton] at haddrs
  refine ⟨s, hrun, new.addr, ?_, ?_⟩
  · rw [← Multiset.mem_range, ← haddrs]
    simp
  · have hnodup := Multiset.nodup_range s.pool.made.length
    rw [← haddrs, Multiset.nodup_add] at hnodup
    exact fun hmem => Multiset.disjoint_left.1 hnodup.2.2 hmem (by simp)

end Owners
end Reactor
end Rins
