import Rins.Lib.Run
import Rins.Reactor.ReactorBuf

/-!
# OutputFifo — the output buffer of a connection as a byte queue

`output_buf` is meant to be a queue: `send_data` appends at the back, `write2fd` takes from the
front.  When the block in use is too small, `send_data` asks the pool for a block of `datalen`
bytes, without the bytes that are still pending (`read_data` asks for the sum).  So the queue is
lossless exactly as long as no send finds bytes pending that the block chosen for the new ones
cannot hold as well.
-/

namespace Rins
namespace Reactor
namespace OutputBuf

open Lib
open ReactorBuf

/-- One call on an `output_buf`, with the pool as it is then or the kernel's answer. -/
inductive Op
  | sendData (pool : BufPool) (data : List UInt8)
  | write2fd (res : SysWrite)

/-- The buffer after one call; a call that does not return has no successor. -/
def step (buf : ReactorBuf) : Op → Option ReactorBuf
  | .sendData pool data =>
      match OutputBuf.sendData pool buf data data.length with
      | .error _ => none
      | .ok (_, _, buf) => some buf
  | .write2fd res =>
      match OutputBuf.write2fd buf res with
      | .error _ => none
      | .ok (_, buf, _) => some buf

/-- The caller hands over at most 8 MiB, and the free lists of the pool are in order. -/
def Admissible : Op → Prop
  | .sendData pool data => pool.Clean ∧ data.length ≤ 8388608
  | .write2fd _ => True

/-- The queue law for one call: a send stays inside the blocks it touches and, when it returns 0,
appends; a write takes from the front. -/
def Lossless (buf : ReactorBuf) : Op → Prop
  | .sendData pool data =>
      OutputBuf.sendData pool buf data data.length ≠ .error .outOfBounds ∧
      ∀ pool' buf', OutputBuf.sendData pool buf data data.length = .ok (0, pool', buf') →
        buf'.content = buf.content ++ data ∧ ∀ b, buf' = some b → b.head + b.length ≤ b.capacity
  | .write2fd res =>
      ∀ ret buf' taken, OutputBuf.write2fd buf res = .ok (ret, buf', taken) →
        taken ++ buf'.content = buf.content

/-- The block in use has room for `n` more bytes, or the block chosen for `n` bytes alone has room
for the pending ones too (or the pool is at its cap and the process exits). -/
def RoomFor (buf : ReactorBuf) (pool : BufPool) (n : Int) : Prop :=
  ∀ b, buf = some b → n ≤ b.capacity - b.length ∨
    (∃ c, MemCap.forRequest n = some c ∧ b.length + n ≤ c.size) ∨ pool.Exhausted n

/-- Every send finds room. -/
def HasRoom (buf : ReactorBuf) : Op → Prop
  | .sendData pool data => RoomFor buf pool data.length
  | .write2fd _ => True

/-! ## Sending -/

/-- Appending to a block with enough room behind its window. -/
theorem sendAppend_spec {b : PoolBuf} (hb : b.Sound) (hhead : b.head = 0) {data : List UInt8}
    (hroom : b.length + data.length ≤ b.capacity) :
    ∃ b', sendAppend b data data.length = .ok b' ∧ b'.Sound ∧ b'.head = 0 ∧
      b'.pending = b.pending ++ data := by
  rcases IoBuf.append_spec hb.valid hhead hroom with ⟨filled, happ, hvalid, hzero, hpend, hcap⟩
  refine ⟨{ b with toIoBuf := filled }, by simp [sendAppend, happ], ?_, hzero, hpend⟩
  exact ⟨hvalid, by simpa [hcap] using hb.fromPool⟩

theorem sendAppend_overflow {b : PoolBuf} {data : List UInt8}
    (hfull : b.capacity < b.length + data.length) :
    sendAppend b data data.length = .error .outOfBounds := by
  have hno : ¬ b.length + data.length ≤ b.capacity := by omega
  simp [sendAppend, IoBuf.append, IoBuf.store, hno]

/-- A send that finds room appends, unless it needs another block and the process exits for want of
memory. -/
theorem sendData_room_cases {p : BufPool} (hp : p.Clean) {buf : ReactorBuf} (hbuf : buf.Resting)
    {data : List UInt8} (hfit : data.length ≤ 8388608) (hroom : RoomFor buf p data.length) :
    (p.Exhausted data.length ∧ (∀ b, buf = some b → b.capacity - b.length < data.length) ∧
        sendData p buf data data.length = .error .exited) ∨
      ∃ p' b, sendData p buf data data.length = .ok (0, p', some b) ∧ p'.Clean ∧ b.Sound ∧
        b.head = 0 ∧ b.pending = buf.content ++ data := by
  have hsize : (data.length : Int) ≤ MemCap.m8M.size := by
    simp only [MemCap.size]
    omega
  have halloc := BufPool.allocBuf_cases hp hsize
  cases buf with
  | none =>
      rcases halloc with ⟨hfull, hexit⟩ | ⟨p', b, c, _, hb, hc, hcap, hlen, hhead, hclean⟩
      · refine Or.inl ⟨hfull, fun b hb => ?_, ?_⟩
        · cases hb
        · simp [sendData, sendAlloc, makeRoom, hexit]
      · have hle : (data.length : Int) ≤ c.size := (MemCap.forRequest_spec hc).1
        have hfits : b.length + data.length ≤ b.capacity := by omega
        rcases sendAppend_spec (PoolBuf.sound_of_empty hcap hlen hhead) hhead hfits with
          ⟨b', happ, hsound, hzero, hpend⟩
        refine Or.inr ⟨p', b', ?_, hclean, hsound, hzero, ?_⟩
        · simp [sendData, sendAlloc, makeRoom, hb, happ]
        · simp [hpend, IoBuf.pending_eq_nil hlen]
  | some b =>
      rcases resting_some.1 hbuf with ⟨hb, hhead⟩
      by_cases hsmall : b.capacity - b.length < (data.length : Int)
      · rcases halloc with ⟨hfull, hexit⟩ | ⟨p₁, new, c, hmore, hnew, hc, hcap, _, _, hclean⟩
        · refine Or.inl ⟨hfull, fun b' hb' => ?_, ?_⟩
          · cases hb'
            exact hsmall
          · simp [sendData, sendAlloc, makeRoom, hhead, hsmall, hexit]
        · -- the pending bytes move to the new block first
          have hboth : b.length + data.length ≤ c.size := by
            rcases hroom b rfl with hin | ⟨c', hc', hle⟩ | hfull
            · omega
            · rw [hc] at hc'
              cases hc'
              exact hle
            · exact absurd hfull hmore
          rcases replace_spec hclean hb hhead ⟨c, hcap⟩ (by omega) with
            ⟨p₂, b₂, hrep, hclean₂, hsound₂, hhead₂, hpend₂, hcap₂⟩
          have hlen := hb.valid.length_eq
          have hlen₂ := hsound₂.valid.length_eq
          rw [hpend₂] at hlen₂
          have hfits : b₂.length + data.length ≤ b₂.capacity := by omega
          rcases sendAppend_spec hsound₂ hhead₂ hfits with
            ⟨b', happ, hsound, hzero, hpend⟩
          refine Or.inr ⟨p₂, b', ?_, hclean₂, hsound, hzero, by simp [hpend, hpend₂]⟩
          simp [sendData, sendAlloc, makeRoom, hhead, hsmall, hnew, hrep, happ]
      · -- the block in use has room
        have hfits : b.length + data.length ≤ b.capacity := by omega
        rcases sendAppend_spec hb hhead hfits with
          ⟨b', happ, hsound, hzero, hpend⟩
        refine Or.inr ⟨p, b', ?_, hp, hsound, hzero, by simp [hpend]⟩
        simp [sendData, sendAlloc, makeRoom, hhead, hsmall, happ]

/-- A send that finds room appends, unless the process exits for want of memory. -/
theorem sendData_of_room {p : BufPool} (hp : p.Clean) {buf : ReactorBuf} (hbuf : buf.Resting)
    {data : List UInt8} (hfit : data.length ≤ 8388608) (hroom : RoomFor buf p data.length) :
    sendData p buf data data.length = .error .exited ∨
      ∃ p' b, sendData p buf data data.length = .ok (0, p', some b) ∧ b.Sound ∧ b.head = 0 ∧
        b.pending = buf.content ++ data := by
  rcases sendData_room_cases hp hbuf hfit hroom with ⟨_, _, hexit⟩ | ⟨p', b, hsend, _, hrest⟩
  · exact Or.inl hexit
  · exact Or.inr ⟨p', b, hsend, hrest⟩

/-- A send that finds no room writes past the end of the replacement block. -/
theorem sendData_overflow {p : BufPool} (hp : p.Clean) {buf : ReactorBuf} (hbuf : buf.Resting)
    {data : List UInt8} (hfit : data.length ≤ 8388608) (hroom : ¬ RoomFor buf p data.length) :
    sendData p buf data data.length = .error .outOfBounds := by
  have hsize : (data.length : Int) ≤ MemCap.m8M.size := by
    simp only [MemCap.size]
    omega
  simp only [RoomFor, not_forall, not_or] at hroom
  rcases hroom with ⟨b, rfl, hsmall, hboth, hmore⟩
  rcases resting_some.1 hbuf with ⟨hb, hhead⟩
  have hsmall' : b.capacity - b.length < (data.length : Int) := by omega
  rcases BufPool.allocBuf_cases hp hsize with
    ⟨hfull, _⟩ | ⟨p₁, new, c, _, hnew, hc, hcap, _, _, hclean⟩
  · exact absurd hfull hmore
  · have hover : c.size < b.length + data.length := by
      by_contra hle
      exact hboth ⟨c, hc, by omega⟩
    -- one of the two `memcpy`s leaves the new block, the copy or the append
    by_cases hcopy : b.length ≤ new.capacity
    · -- the copy fits, the append does not
      rcases replace_spec hclean hb hhead ⟨c, hcap⟩ hcopy with
        ⟨p₂, b₂, hrep, _, hsound₂, _, hpend₂, hcap₂⟩
      have hlen := hb.valid.length_eq
      have hlen₂ := hsound₂.valid.length_eq
      rw [hpend₂] at hlen₂
      have happ : sendAppend b₂ data data.length = .error .outOfBounds :=
        sendAppend_overflow (by omega)
      simp [sendData, sendAlloc, makeRoom, hhead, hsmall', hnew, hrep, happ]
    · have hrep : replace p₁ b new = .error .outOfBounds := by
        simp [replace, IoBuf.copy_overflow hb.valid (by omega : new.capacity < b.length)]
      simp [sendData, sendAlloc, makeRoom, hhead, hsmall', hnew, hrep]

/-! ## Writing -/

theorem write2fd_spec {buf buf' : ReactorBuf} (hbuf : buf.Resting) {res : SysWrite} {ret : Int}
    {taken : List UInt8} (h : write2fd buf res = .ok (ret, buf', taken)) :
    buf'.Resting ∧ taken ++ buf'.content = buf.content := by
  cases buf with
  | none =>
      cases h
  | some b =>
      rcases resting_some.1 hbuf with ⟨hb, hhead⟩
      simp only [write2fd, hhead, decide_true, assert_true, ok_bind] at h
      cases hret : res.ret with
      | again =>
          simp only [hret] at h
          cases h
          exact ⟨hbuf, rfl⟩
      | error =>
          simp only [hret] at h
          cases h
          exact ⟨hbuf, rfl⟩
      | wrote n =>
          simp only [hret] at h
          split_ifs at h with hpos
          · set k := min n b.length.toNat with hk
            have hle : k ≤ b.pending.length := by
              rw [IoBuf.length_pending]
              omega
            have hload := IoBuf.load_head hb.valid hle
            rw [hhead] at hload
            rcases IoBuf.popAdjust_spec hb.valid hle with
              ⟨adjusted, hadj, hvalid, hzero, hpend, hcap⟩
            simp only [hload, hadj, ok_bind] at h
            cases h
            refine ⟨resting_some.2 ⟨⟨hvalid, ?_⟩, hzero⟩, hpend⟩
            simpa [hcap] using hb.fromPool
          · cases h
            exact ⟨hbuf, rfl⟩

/-! ## The queue law -/

/-- One call obeys the queue law exactly if it finds room. -/
theorem lossless_iff_hasRoom {buf : ReactorBuf} (hbuf : buf.Resting) {op : Op}
    (hop : Admissible op) : Lossless buf op ↔ HasRoom buf op := by
  cases op with
  | write2fd res =>
      simp only [Lossless, HasRoom, iff_true]
      intro ret buf' taken h
      exact (write2fd_spec hbuf h).2
  | sendData pool data =>
      constructor
      · intro hlossless
        by_contra hroom
        exact hlossless.1 (sendData_overflow hop.1 hbuf hop.2 hroom)
      · intro hroom
        simp only [Lossless]
        rcases sendData_of_room hop.1 hbuf hop.2 hroom with
          hexit | ⟨p', b, hsend, hsound, hhead, hpend⟩
        · rw [hexit]
          simp
        · rw [hsend]
          refine ⟨by simp, ?_⟩
          intro pool' buf' hret
          cases hret
          refine ⟨hpend, ?_⟩
          intro b' hb'
          cases hb'
          exact hsound.valid.fits

/-- A call that finds room leaves the window at the front of a sound block. -/
theorem step_resting {buf buf' : ReactorBuf} (hbuf : buf.Resting) {op : Op} (hop : Admissible op)
    (hroom : HasRoom buf op) (hstep : step buf op = some buf') : buf'.Resting := by
  cases op with
  | write2fd res =>
      simp only [step] at hstep
      cases hwrite : write2fd buf res with
      | error e =>
          simp [hwrite] at hstep
      | ok out =>
          rcases out with ⟨ret, out, taken⟩
          simp only [hwrite, Option.some.injEq] at hstep
          subst hstep
          exact (write2fd_spec hbuf hwrite).1
  | sendData pool data =>
      simp only [step] at hstep
      rcases sendData_of_room hop.1 hbuf hop.2 hroom with
        hexit | ⟨p', b, hsend, hsound, hhead, _⟩
      · simp [hexit] at hstep
      · simp only [hsend, Option.some.injEq] at hstep
        subst hstep
        exact resting_some.2 ⟨hsound, hhead⟩

/-- A sequence of calls on an empty `output_buf` obeys the queue law throughout exactly if every
send finds room. -/
theorem lossless_run_iff (ops : List Op) (hops : ∀ op ∈ ops, Admissible op) :
    Meets step Lossless none ops ↔ Meets step HasRoom none ops := by
  refine meets_iff (I := ReactorBuf.Resting) (A := Admissible) ?_ ?_ resting_none hops
  · intro buf op hbuf hop
    exact lossless_iff_hasRoom hbuf hop
  · intro buf op buf' hbuf hop hlossless hstep
    exact step_resting hbuf hop ((lossless_iff_hasRoom hbuf hop).1 hlossless) hstep

/-- `n` bytes to send. -/
def zeros (n : Nat) : List UInt8 := List.replicate n 0

@[simp] theorem length_zeros (n : Nat) : (zeros n).length = n := List.length_replicate

/-- Capacity and length of the block in use. -/
def extent (buf : ReactorBuf) : Option (Int × Int) :=
  buf.map fun b => (b.capacity, b.length)

theorem init_not_exhausted (n : Int) : ¬ BufPool.init.Exhausted n := by
  rintro ⟨c, _, hempty, hcap⟩
  rcases BufPool.init_serviceable.belowCap c with hne | hlt
  · exact hne hempty
  · omega

/-- The second send needs a larger block, and its class has place for the three bytes that are still
pending. -/
theorem lossless_run_iff_three_pending :
    Meets step Lossless none
      [.sendData BufPool.init (zeros 5), .write2fd (.wrote 2),
        .sendData BufPool.init (zeros 5000)] := by
  have hadm : ∀ op ∈ [Op.sendData BufPool.init (zeros 5), .write2fd (.wrote 2),
      .sendData BufPool.init (zeros 5000)], Admissible op := by
    simp [Admissible, BufPool.init_clean]
  refine (lossless_run_iff _ hadm).2 ⟨?_, fun buf₁ h₁ => ⟨trivial, fun buf₂ h₂ => ⟨?_, ?_⟩⟩⟩
  · intro b hb
    cases hb
  · have hextent : ((step none (.sendData BufPool.init (zeros 5))).bind fun buf =>
        step buf (.write2fd (.wrote 2))).map extent = some (some (4096, 3)) := by
      decide +kernel
    rw [h₁, Option.bind_some, h₂] at hextent
    intro b hb
    simp only [extent, hb, Option.map_some, Option.some.injEq, Prod.mk.injEq] at hextent
    refine Or.inr (Or.inl ⟨.m16K, by rw [length_zeros]; decide, ?_⟩)
    rw [hextent.2, length_zeros]
    decide
  · exact fun _ _ => trivial

/-- The two sends of `send_message` with a body of 4096 bytes: the head gets a block of 4096 bytes,
and so does the body. -/
theorem lossless_fails_head_body :
    ¬ Meets step Lossless none
      [.sendData BufPool.init (zeros 8), .sendData BufPool.init (zeros 4096)] := by
  intro hmeets
  have hextent : (step none (.sendData BufPool.init (zeros 8))).map extent =
      some (some (4096, 8)) := by
    decide +kernel
  rcases Option.map_eq_some_iff.1 hextent with ⟨buf, hstep, hbuf⟩
  rcases Option.map_eq_some_iff.1 hbuf with ⟨b, rfl, hb⟩
  simp only [Prod.mk.injEq] at hb
  have hfresh : HasRoom none (.sendData BufPool.init (zeros 8)) := by
    intro b' hb'
    cases hb'
  have hrest : Resting (some b) :=
    step_resting resting_none (by simp [Admissible, BufPool.init_clean]) hfresh hstep
  have hlossless := (hmeets.2 _ hstep).1
  rw [lossless_iff_hasRoom hrest (by simp [Admissible, BufPool.init_clean])] at hlossless
  rcases hlossless b rfl with hin | ⟨c, hc, hboth⟩ | hfull
  · rw [length_zeros] at hin
    omega
  · rw [length_zeros] at hc hboth
    have hclass : MemCap.forRequest ((4096 : Nat) : Int) = some .m4K := by decide
    rw [hclass] at hc
    cases hc
    simp only [MemCap.size] at hboth
    omega
  · exact init_not_exhausted _ hfull

end OutputBuf
end Reactor
end Rins
