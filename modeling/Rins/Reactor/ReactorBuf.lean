import Rins.Reactor.BufPool

/-!
# ReactorBuf — the input and output buffers of a connection

A `reactor_buf` is a pointer `_buf` that is null or points to a block of the pool, so its state is
an `Option PoolBuf` and every method also passes the pool along.

`read_data` and `send_data` may take two trips to the pool, one for a larger block and one to give
the old block back.  They are cut at that point (`readAlloc` and `sendAlloc` before
it, `replace` after it), because other threads can use the pool in between.

What the operating system answers is an argument: `SysRead` and `SysWrite` are the results of
`read` and `write`, with the retries after `EINTR` in front.
-/

namespace Rins
namespace Reactor

open Lib

/-- The value of a C `int` expression: 32-bit wrap-around. -/
def cInt (x : Int) : Int :=
  x.bmod 4294967296

theorem cInt_eq {x : Int} (h₀ : -2147483648 ≤ x) (h₁ : x < 2147483648) : cInt x = x := by
  unfold cInt
  rw [Int.bmod_def]
  split <;> omega

/-- Results of `read`: interrupted and called again, failed, or some bytes (none at end of file). -/
inductive SysRead
  | eintr (retry : SysRead)
  | error
  | bytes (bs : List UInt8)
  deriving DecidableEq, Repr

/-- Results of `write`: interrupted and called again, `EAGAIN`, failed, or a byte count. -/
inductive SysWrite
  | eintr (retry : SysWrite)
  | again
  | error
  | wrote (n : Nat)
  deriving DecidableEq, Repr

/-- What the `EINTR` loop around `write` ends with. -/
inductive WriteRet
  | again
  | error
  | wrote (n : Nat)
  deriving DecidableEq, Repr

/-- `do { ret = write(..); } while (ret == -1 && errno == EINTR)`. -/
def SysWrite.ret : SysWrite → WriteRet
  | .eintr retry => retry.ret
  | .again => .again
  | .error => .error
  | .wrote n => .wrote n

/-- What a socket answers to `ioctl(FIONREAD)` (`none` is -1) and to the `read` after it. -/
structure Socket where
  fionread : Option Int
  read : SysRead
  deriving DecidableEq, Repr

/-- `read` delivers `bs` after being interrupted `k` times. -/
def SysRead.after (bs : List UInt8) : Nat → SysRead
  | 0 => .bytes bs
  | k + 1 => .eintr (SysRead.after bs k)

/-- A socket on which `FIONREAD` and `read` both report `chunk`. -/
def Socket.ofChunk (chunk : List UInt8) (k : Nat) : Socket :=
  { fionread := some chunk.length
    read := SysRead.after chunk k }

/-- The `n` bytes at a caller's pointer, behind which `data` lies. -/
def callerBytes (data : List UInt8) (n : Int) : Except Fault (List UInt8) :=
  if 0 ≤ n ∧ n ≤ data.length then .ok (data.take n.toNat) else .error .outOfBounds

@[simp] theorem callerBytes_length (data : List UInt8) :
    callerBytes data data.length = .ok data := by
  simp [callerBytes]

/-- `reactor_buf`: the pointer `_buf`. -/
abbrev ReactorBuf := Option PoolBuf

namespace ReactorBuf

/-- `reactor_buf::length`. -/
def length : ReactorBuf → Int
  | none => 0
  | some b => b.length

/-- `reactor_buf::pop`. -/
def pop (p : BufPool) (buf : ReactorBuf) (len : Int) : Except Fault (BufPool × ReactorBuf) :=
  match buf with
  | none => .error .assertFailed
  | some b => do
      assert (len ≤ b.length)
      let b : PoolBuf := { b with toIoBuf := b.toIoBuf.pop len }
      -- a drained block is given back at once
      if b.length = 0 then
        let p ← p.revert b
        return (p, none)
      else
        return (p, some b)

/-- `reactor_buf::clear`, also the destructor. -/
def clear (p : BufPool) (buf : ReactorBuf) : Except Fault (BufPool × ReactorBuf) :=
  match buf with
  | none => .ok (p, none)
  | some b => do
      let p ← p.revert b
      return (p, none)

/-- `new_buf->copy(_buf); revert(_buf); _buf = new_buf`, in `read_data` and in `send_data`. -/
def replace (p : BufPool) (old new : PoolBuf) : Except Fault (BufPool × PoolBuf) := do
  let copied ← new.toIoBuf.copy old.toIoBuf
  let p ← p.revert old
  return (p, { new with toIoBuf := copied })

/-- Where `read_data` and `send_data` stand after their first trip to the pool. -/
inductive Stage
  /-- no block: -1 is returned -/
  | failed (buf : ReactorBuf)
  /-- `_buf` has room -/
  | ready (b : PoolBuf)
  /-- a new block sits in the local `new_buf`, `_buf` still holds the old one -/
  | moving (old new : PoolBuf)

/-- The allocation part of `read_data` and `send_data`, for `n` more bytes.  They differ in what
they ask for when `_buf` is too small, which is `request`. -/
def makeRoom (p : BufPool) (buf : ReactorBuf) (n : Int) (request : PoolBuf → Int) :
    Except Fault (BufPool × Stage) :=
  match buf with
  | none => do
      let (p, b) ← p.allocBuf n
      match b with
      | none => return (p, .failed none)
      | some b => return (p, .ready b)
  | some b => do
      -- `adjust` has run since the last `pop`
      assert (b.head = 0)
      if b.capacity - b.length < n then
        let (p, newBuf) ← p.allocBuf (request b)
        match newBuf with
        | none => return (p, .failed (some b))
        | some newBuf => return (p, .moving b newBuf)
      else
        return (p, .ready b)

end ReactorBuf

/-! ## `input_buf` -/

namespace InputBuf

open ReactorBuf

/-- `read_data` asks for a block that holds the bytes already there as well. -/
def readAlloc (p : BufPool) (buf : ReactorBuf) (needRead : Int) : Except Fault (BufPool × Stage) :=
  makeRoom p buf needRead fun b => cInt (needRead + b.length)

/-- The `read` loop of `input_buf::read_data` and the bookkeeping after it. -/
def readInto (b : PoolBuf) (needRead : Int) : SysRead → Except Fault (Int × PoolBuf)
  | .eintr retry => readInto b needRead retry
  | .error => .ok (-1, b)
  | .bytes bs => do
      -- `read` is given `m4K` when nothing was reported
      let limit := if needRead = 0 then MemCap.m4K.size else needRead
      let bs := bs.take limit.toNat
      if bs = [] then
        return (0, b)
      else
        let filled ← b.toIoBuf.append bs
        if needRead ≠ 0 then
          assert (bs.length = needRead)
        return (bs.length, { b with toIoBuf := filled })

/-- `input_buf::read_data`. -/
def readData (p : BufPool) (buf : ReactorBuf) (sock : Socket) :
    Except Fault (Int × BufPool × ReactorBuf) :=
  match sock.fionread with
  | none => .ok (-1, p, buf)
  | some needRead => do
      let (p, stage) ← readAlloc p buf needRead
      match stage with
      | .failed buf => return (-1, p, buf)
      | .ready b =>
          let (ret, b) ← readInto b needRead sock.read
          return (ret, p, some b)
      | .moving old new =>
          let (p, b) ← replace p old new
          let (ret, b) ← readInto b needRead sock.read
          return (ret, p, some b)

/-- `memcpy(&head, _ibuf.data(), n)`: the first `n` bytes at `data()`. -/
def peek (buf : ReactorBuf) (n : Int) : Except Fault (List UInt8) :=
  match buf with
  | none => .error .outOfBounds
  | some b => b.load b.head n

/-- `input_buf::adjust`. -/
def adjust (buf : ReactorBuf) : Except Fault ReactorBuf :=
  match buf with
  | none => .ok none
  | some b => do
      let moved ← b.toIoBuf.adjust
      return some { b with toIoBuf := moved }

end InputBuf

/-! ## `output_buf` -/

namespace OutputBuf

open ReactorBuf

/-- `send_data` asks for a block that holds the new bytes. -/
def sendAlloc (p : BufPool) (buf : ReactorBuf) (datalen : Int) : Except Fault (BufPool × Stage) :=
  makeRoom p buf datalen fun _ => datalen

/-- `memcpy(_buf->data + _buf->length, data, datalen); _buf->length += datalen`. -/
def sendAppend (b : PoolBuf) (data : List UInt8) (datalen : Int) : Except Fault PoolBuf := do
  let bytes ← callerBytes data datalen
  let filled ← b.toIoBuf.append bytes
  return { b with toIoBuf := filled }

/-- `output_buf::send_data`. -/
def sendData (p : BufPool) (buf : ReactorBuf) (data : List UInt8) (datalen : Int) :
    Except Fault (Int × BufPool × ReactorBuf) := do
  let (p, stage) ← sendAlloc p buf datalen
  match stage with
  | .failed buf => return (-1, p, buf)
  | .ready b =>
      let b ← sendAppend b data datalen
      return (0, p, some b)
  | .moving old new =>
      let (p, b) ← replace p old new
      let b ← sendAppend b data datalen
      return (0, p, some b)

/-- `output_buf::write2fd`: the return value, the buffer and the bytes the kernel took. -/
def write2fd (buf : ReactorBuf) (res : SysWrite) :
    Except Fault (Int × ReactorBuf × List UInt8) :=
  match buf with
  | none => .error .assertFailed
  | some b => do
      assert (b.head = 0)
      match res.ret with
      | .again => return (0, some b, [])
      | .error => return (-1, some b, [])
      | .wrote n =>
          -- the kernel never takes more than the `length` bytes it is offered
          let n := min n b.length.toNat
          if n > 0 then
            let taken ← b.load 0 n
            let adjusted ← (b.toIoBuf.pop n).adjust
            return (n, some { b with toIoBuf := adjusted }, taken)
          else
            return (0, some b, [])

end OutputBuf

/-! ## What the methods do to the bytes -/

/-- A block that came from the pool, with its window inside. -/
structure PoolBuf.Sound (b : PoolBuf) : Prop where
  valid : b.Valid
  fromPool : ∃ c : MemCap, b.capacity = c.size

/-- The assertion in `revert` holds for a block that came from the pool. -/
theorem PoolBuf.Sound.revert {b : PoolBuf} (hb : b.Sound) {p : BufPool} (hp : p.Clean) :
    ∃ p', p.revert b = .ok p' ∧ p'.Clean := by
  rcases hb.fromPool with ⟨c, hc⟩
  exact ⟨_, BufPool.revert_eq hc, hp.revert (BufPool.revert_eq hc)⟩

theorem PoolBuf.Sound.capacity_le {b : PoolBuf} (hb : b.Sound) : b.capacity ≤ MemCap.m8M.size := by
  rcases hb.fromPool with ⟨c, hc⟩
  rw [hc]
  exact c.size_le_m8M

/-- An empty block of a pool class, as `alloc_buf` hands it out. -/
theorem PoolBuf.sound_of_empty {b : PoolBuf} {c : MemCap} (hcap : b.capacity = c.size)
    (hlen : b.length = 0) (hhead : b.head = 0) : b.Sound := by
  have := c.size_pos
  exact ⟨⟨by omega, by omega, by omega⟩, c, hcap⟩

namespace ReactorBuf

/-- The unprocessed bytes; a null pointer holds none. -/
def content : ReactorBuf → List UInt8
  | none => []
  | some b => b.pending

@[simp] theorem content_none : content none = [] := rfl

@[simp] theorem content_some (b : PoolBuf) : content (some b) = b.pending := rfl

/-- A pointer that is null or points to a sound block. -/
def Sound (buf : ReactorBuf) : Prop :=
  ∀ b, buf = some b → b.Sound

/-- Between two calls the window starts at the front of the block. -/
def Resting (buf : ReactorBuf) : Prop :=
  ∀ b, buf = some b → b.Sound ∧ b.head = 0

theorem sound_none : Sound none := by
  intro b hb
  cases hb

theorem resting_none : Resting none := by
  intro b hb
  cases hb

theorem sound_some {b : PoolBuf} : Sound (some b) ↔ b.Sound := by
  simp [Sound]

theorem resting_some {b : PoolBuf} : Resting (some b) ↔ b.Sound ∧ b.head = 0 := by
  simp [Resting]

theorem Resting.sound {buf : ReactorBuf} (h : buf.Resting) : buf.Sound :=
  fun b hb => (h b hb).1

theorem length_eq {buf : ReactorBuf} (h : buf.Sound) : buf.length = buf.content.length := by
  cases buf with
  | none =>
      rfl
  | some b =>
      exact (h b rfl).valid.length_eq

/-- Popping drops bytes from the front; a drained block goes back to the pool. -/
theorem pop_spec {p : BufPool} (hp : p.Clean) {b : PoolBuf} (hb : b.Sound) {n : Nat}
    (hn : n ≤ b.pending.length) :
    ∃ p' buf', pop p (some b) n = .ok (p', buf') ∧ p'.Clean ∧ buf'.Sound ∧
      buf'.content = b.pending.drop n ∧ (b.pending.drop n = [] → buf' = none) := by
  have hlen := hb.valid.length_eq
  have hle : (n : Int) ≤ b.length := by omega
  have hvalid : (b.toIoBuf.pop n).Valid := hb.valid.pop hn
  have hpending : (b.toIoBuf.pop n).pending = b.pending.drop n := IoBuf.pending_pop hb.valid hn
  have hsound : PoolBuf.Sound { b with toIoBuf := b.toIoBuf.pop n } :=
    ⟨hvalid, by simpa using hb.fromPool⟩
  -- whether this was the last of the bytes decides if the block stays
  by_cases hzero : (b.toIoBuf.pop n).length = 0
  · rcases hsound.revert hp with ⟨p', hrev, hclean⟩
    have hnil : b.pending.drop n = [] := by
      rw [← hpending]
      exact IoBuf.pending_eq_nil hzero
    refine ⟨p', none, ?_, hclean, sound_none, by simp [content, hnil], fun _ => rfl⟩
    simp [pop, hle, hzero, hrev]
  · refine ⟨p, some { b with toIoBuf := b.toIoBuf.pop n }, ?_, hp, sound_some.2 hsound, hpending,
      ?_⟩
    · simp [pop, hle, hzero]
    · intro hnil
      have := hvalid.length_eq
      rw [hpending, hnil] at this
      exact absurd (by simpa using this) hzero

theorem clear_spec {p : BufPool} (hp : p.Clean) {buf : ReactorBuf} (hbuf : buf.Sound) :
    ∃ p', clear p buf = .ok (p', none) ∧ p'.Clean := by
  cases buf with
  | none =>
      exact ⟨p, rfl, hp⟩
  | some b =>
      rcases (sound_some.1 hbuf).revert hp with ⟨p', hrev, hclean⟩
      exact ⟨p', by simp [clear, hrev], hclean⟩

/-- Moving to a block that is large enough keeps the bytes. -/
theorem replace_spec {p : BufPool} (hp : p.Clean) {old new : PoolBuf} (hold : old.Sound)
    (hhead : old.head = 0) (hnew : ∃ c : MemCap, new.capacity = c.size)
    (hroom : old.length ≤ new.capacity) :
    ∃ p' b, replace p old new = .ok (p', b) ∧ p'.Clean ∧ b.Sound ∧ b.head = 0 ∧
      b.pending = old.pending ∧ b.capacity = new.capacity := by
  rcases IoBuf.copy_spec hold.valid hhead hroom with ⟨copied, hcopy, hvalid, hzero, hpend, hcap⟩
  rcases hold.revert hp with ⟨p', hrev, hclean⟩
  refine ⟨p', { new with toIoBuf := copied }, by simp [replace, hcopy, hrev], hclean, ?_, hzero,
    hpend, hcap⟩
  exact ⟨hvalid, by simpa [hcap] using hnew⟩

end ReactorBuf

namespace InputBuf

open ReactorBuf

/-- Reading a reported chunk appends it to the block. -/
theorem readInto_spec {b : PoolBuf} (hb : b.Sound) (hhead : b.head = 0) {chunk : List UInt8}
    (hne : chunk ≠ []) (hroom : b.length + chunk.length ≤ b.capacity) (k : Nat) :
    ∃ b', readInto b chunk.length (SysRead.after chunk k) = .ok ((chunk.length : Int), b') ∧
      b'.Sound ∧ b'.head = 0 ∧ b'.pending = b.pending ++ chunk := by
  induction k with
  | zero =>
      rcases IoBuf.append_spec hb.valid hhead hroom with ⟨filled, happ, hvalid, hzero, hpend, hcap⟩
      have hlen : (chunk.length : Int) ≠ 0 := by
        simpa using hne
      refine ⟨{ b with toIoBuf := filled }, ?_, ?_, hzero, hpend⟩
      · simp [readInto, SysRead.after, hne, happ]
      · exact ⟨hvalid, by simpa [hcap] using hb.fromPool⟩
  | succ k ih =>
      exact ih

/-- `read_data` on a reported chunk: the bytes already there, followed by the chunk, unless the
pool is at its cap and ends the process. -/
theorem readData_spec {p : BufPool} (hp : p.Clean) {buf : ReactorBuf} (hbuf : buf.Resting)
    {chunk : List UInt8} (hne : chunk ≠ [])
    (hfit : buf.content.length + chunk.length ≤ 8388608) (k : Nat) :
    (¬ p.BelowCap ∧ readData p buf (Socket.ofChunk chunk k) = .error .exited) ∨
      ∃ p' b, readData p buf (Socket.ofChunk chunk k) = .ok ((chunk.length : Int), p', some b) ∧
        p'.Clean ∧ b.Sound ∧ b.head = 0 ∧ b.pending = buf.content ++ chunk := by
  cases buf with
  | none =>
      -- no block yet: the chunk alone decides the size
      have hsize : (chunk.length : Int) ≤ MemCap.m8M.size := by
        simp only [content, List.length_nil, MemCap.size] at *
        omega
      rcases BufPool.allocBuf_spec hp hsize with
        ⟨hcap, hexit⟩ | ⟨p', b, c, halloc, hle, hcap, hlen, hhead, hclean⟩
      · left
        exact ⟨hcap, by simp [readData, Socket.ofChunk, readAlloc, makeRoom, hexit]⟩
      · right
        have hsound : b.Sound := PoolBuf.sound_of_empty hcap hlen hhead
        rcases readInto_spec hsound hhead hne (by omega) k with ⟨b', hread, hb', hzero, hpend⟩
        refine ⟨p', b', ?_, hclean, hb', hzero, ?_⟩
        · simp [readData, Socket.ofChunk, readAlloc, makeRoom, halloc, hread]
        · simp [hpend, content, IoBuf.pending_eq_nil hlen]
  | some b =>
      rcases resting_some.1 hbuf with ⟨hb, hhead⟩
      have hlen := hb.valid.length_eq
      simp only [content] at hfit
      by_cases hroom : b.capacity - b.length < (chunk.length : Int)
      · -- the block is too small: a larger one takes over its bytes first
        have hsum : cInt ((chunk.length : Int) + b.length) = (chunk.length : Int) + b.length := by
          apply cInt_eq <;> omega
        have hsize : (chunk.length : Int) + b.length ≤ MemCap.m8M.size := by
          simp only [MemCap.size]
          omega
        rcases BufPool.allocBuf_spec hp hsize with
          ⟨hcap, hexit⟩ | ⟨p₁, new, c, halloc, hle, hcap, _, _, hclean₁⟩
        · left
          refine ⟨hcap, ?_⟩
          simp [readData, Socket.ofChunk, readAlloc, makeRoom, hhead, hroom, hsum, hexit]
        · right
          rcases replace_spec hclean₁ hb hhead ⟨c, hcap⟩ (by omega) with
            ⟨p₂, b₂, hrep, hclean₂, hsound₂, hhead₂, hpend₂, hcap₂⟩
          have hlen₂ := hsound₂.valid.length_eq
          rw [hpend₂] at hlen₂
          rcases readInto_spec hsound₂ hhead₂ hne (by omega) k with ⟨b', hread, hb', hzero, hpend⟩
          refine ⟨p₂, b', ?_, hclean₂, hb', hzero, by simp [hpend, hpend₂, content]⟩
          simp [readData, Socket.ofChunk, readAlloc, makeRoom, hhead, hroom, hsum, halloc, hrep,
            hread]
      · right
        rcases readInto_spec hb hhead hne (by omega) k with ⟨b', hread, hb', hzero, hpend⟩
        refine ⟨p, b', ?_, hp, hb', hzero, by simp [hpend, content]⟩
        simp [readData, Socket.ofChunk, readAlloc, makeRoom, hhead, hroom, hread]

theorem peek_spec {b : PoolBuf} (hb : b.Sound) {n : Nat} (hn : n ≤ b.pending.length) :
    peek (some b) n = .ok (b.pending.take n) :=
  IoBuf.load_head hb.valid hn

theorem adjust_spec {buf : ReactorBuf} (hbuf : buf.Sound) :
    ∃ buf', adjust buf = .ok buf' ∧ buf'.Resting ∧ buf'.content = buf.content ∧
      (buf = none → buf' = none) := by
  cases buf with
  | none =>
      exact ⟨none, rfl, resting_none, rfl, fun _ => rfl⟩
  | some b =>
      have hb := sound_some.1 hbuf
      rcases IoBuf.adjust_spec hb.valid with ⟨moved, hadj, hvalid, hzero, hpend, hcap⟩
      refine ⟨some { b with toIoBuf := moved }, by simp [adjust, hadj], ?_, hpend, by simp⟩
      exact resting_some.2 ⟨⟨hvalid, by simpa [hcap] using hb.fromPool⟩, hzero⟩

end InputBuf
end Reactor
end Rins
