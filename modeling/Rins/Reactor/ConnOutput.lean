import Rins.Reactor.ByteConn

/-!
# ConnOutput — the output stream of a `tcp_conn` in `send_message` and `do_write`

`send_message` buffers the head and then the body.  If the pool has no block for the body it takes
the head back with `pop`, which takes from the front: the head is there only if nothing was pending.

`do_write` hands the pending bytes to `write` until there are none left or the socket is full.
-/

namespace Rins
namespace Reactor

namespace OutputBuf

open ReactorBuf

/-- A send of more than 8 MiB is refused, whatever the buffer holds. -/
theorem sendData_tooLong {p : BufPool} {buf : ReactorBuf} (hbuf : buf.Resting)
    {data : List UInt8} {n : Int} (hlong : MemCap.m8M.size < n) :
    sendData p buf data n = .ok (-1, p, buf) := by
  have halloc : p.allocBuf n = .ok (p, none) := BufPool.allocBuf_none.2 ⟨hlong, rfl⟩
  cases buf with
  | none =>
      simp [sendData, sendAlloc, makeRoom, halloc]
  | some b =>
      rcases resting_some.1 hbuf with ⟨hb, hhead⟩
      have hcap := hb.capacity_le
      have hlen := hb.valid.length_nonneg
      have hsmall : b.capacity - b.length < n := by omega
      simp [sendData, sendAlloc, makeRoom, hhead, hsmall, halloc]

/-- A send of up to 8 MiB that returns has succeeded. -/
theorem sendData_admitted {p p' : BufPool} {buf buf' : ReactorBuf} {data : List UInt8} {n ret : Int}
    (hn : n ≤ MemCap.m8M.size) (h : sendData p buf data n = .ok (ret, p', buf')) : ret = 0 := by
  have hnone : ∀ p₁, p.allocBuf n ≠ .ok (p₁, none) := by
    intro p₁ hp₁
    have hlarge := (BufPool.allocBuf_none.1 hp₁).1
    omega
  rcases bind_eq_ok.1 h with ⟨⟨p₁, stage⟩, hroom, h⟩
  cases stage with
  | ready b =>
      rcases bind_eq_ok.1 h with ⟨_, _, h⟩
      cases h
      rfl
  | moving old new =>
      rcases bind_eq_ok.1 h with ⟨_, _, h⟩
      rcases bind_eq_ok.1 h with ⟨_, _, h⟩
      cases h
      rfl
  | failed left =>
      -- only a null pointer from the pool leads here
      unfold sendAlloc makeRoom at hroom
      cases buf with
      | none =>
          rcases bind_eq_ok.1 hroom with ⟨⟨p₂, block⟩, halloc, hroom⟩
          cases block with
          | none => exact absurd halloc (hnone p₂)
          | some b => cases hroom
      | some b =>
          rcases bind_eq_ok.1 hroom with ⟨_, _, hroom⟩
          split_ifs at hroom with hsmall
          · rcases bind_eq_ok.1 hroom with ⟨⟨p₂, block⟩, halloc, hroom⟩
            cases block with
            | none => exact absurd halloc (hnone p₂)
            | some new => cases hroom
          · cases hroom

/-- The block in use has place for a head. -/
def HeadFits (buf : ReactorBuf) : Prop :=
  ∃ b, buf = some b ∧ messageHeadLen ≤ b.capacity - b.length

/-- A head goes behind the pending bytes of a block with place for it. -/
theorem sendData_head {p : BufPool} {b : PoolBuf} (hb : b.Sound) (hhead : b.head = 0)
    (hfits : messageHeadLen ≤ b.capacity - b.length) (head : MsgHead) :
    ∃ b', sendData p (some b) head.encode messageHeadLen = .ok (0, p, some b') ∧ b'.Sound ∧
      b'.head = 0 ∧ b'.pending = b.pending ++ head.encode := by
  have hlen : head.encode.length = messageHeadLen := MsgHead.length_encode head
  have hroom : b.length + head.encode.length ≤ b.capacity := by omega
  have hnot : ¬ b.capacity - b.length < messageHeadLen := by omega
  rcases sendAppend_spec hb hhead hroom with ⟨b', happ, hsound, hzero, hpend⟩
  rw [hlen] at happ
  refine ⟨b', ?_, hsound, hzero, hpend⟩
  simp [sendData, sendAlloc, makeRoom, hhead, hnot, happ]

/-- Where a block has no place for a head, the pool is asked for 4096 bytes.  If it has none left,
the process ends. -/
theorem sendData_head_exits {p : BufPool} (hp : p.Clean) {b : PoolBuf}
    (hbuf : Resting (some b)) (hfull : b.capacity - b.length < messageHeadLen)
    (hexit : p.Exhausted messageHeadLen) (head : MsgHead) :
    sendData p (some b) head.encode messageHeadLen = .error .exited := by
  rcases resting_some.1 hbuf with ⟨_, hzero⟩
  rcases BufPool.allocBuf_cases hp (n := messageHeadLen) (by decide) with
    ⟨_, hno⟩ | ⟨_, _, _, hmore, _⟩
  · simp [sendData, sendAlloc, makeRoom, hzero, hfull, hno]
  · exact absurd hexit hmore

/-- Otherwise it is given a block that is no larger than the one that is full. -/
theorem sendData_head_overflow {p : BufPool} (hp : p.Clean) {b : PoolBuf}
    (hbuf : Resting (some b)) (hfull : b.capacity - b.length < messageHeadLen)
    (hmore : ¬ p.Exhausted messageHeadLen) (head : MsgHead) :
    sendData p (some b) head.encode messageHeadLen = .error .outOfBounds := by
  have hlen : head.encode.length = messageHeadLen := MsgHead.length_encode head
  have hno : ¬ RoomFor (some b) p head.encode.length := by
    rw [hlen]
    intro hroom
    rcases hroom b rfl with hin | ⟨c, hc, hboth⟩ | hexhausted
    · omega
    · have hclass : MemCap.forRequest messageHeadLen = some .m4K := by decide
      rw [hclass] at hc
      cases hc
      rcases (resting_some.1 hbuf).1.fromPool with ⟨d, hd⟩
      have hmin := d.m4K_le_size
      omega
    · exact hmore hexhausted
  have hover := sendData_overflow hp hbuf (by rw [hlen]; decide) hno
  rwa [hlen] at hover

/-- With nothing pending, the head gets into its block, unless the process ends. -/
theorem sendData_head_nil {p : BufPool} (hp : p.Clean) {buf : ReactorBuf} (hbuf : buf.Resting)
    (hnil : buf.content = []) (head : MsgHead) :
    sendData p buf head.encode messageHeadLen = .error .exited ∨
      ∃ p' b, sendData p buf head.encode messageHeadLen = .ok (0, p', some b) ∧ p'.Clean ∧
        b.Sound ∧ b.head = 0 ∧ b.pending = head.encode := by
  have hlen : head.encode.length = messageHeadLen := MsgHead.length_encode head
  have hroom : RoomFor buf p head.encode.length := by
    rintro b rfl
    have hb := (resting_some.1 hbuf).1
    rcases hb.fromPool with ⟨c, hc⟩
    have hmin := c.m4K_le_size
    have hempty := hb.valid.length_eq
    rw [content_some] at hnil
    rw [hnil, List.length_nil] at hempty
    have hsmall : (messageHeadLen : Int) ≤ MemCap.m4K.size := by decide
    left
    omega
  rcases sendData_room_cases hp hbuf (by rw [hlen]; decide) hroom with
    ⟨_, _, hexit⟩ | ⟨p', b, hsend, hclean, hsound, hzero, hpend⟩
  · rw [hlen] at hexit
    exact Or.inl hexit
  · rw [hlen] at hsend
    rw [hnil] at hpend
    exact Or.inr ⟨p', b, hsend, hclean, hsound, hzero, hpend⟩

end OutputBuf

namespace TcpConn

open ReactorBuf

/-! ## A send that fails -/

/-- `send_message` returns -1 for a body of more than 8 MiB.  Then it has not written past a block,
and the pending bytes are what they were, at the front of their block. -/
def FailsCleanly (p : BufPool) (conn : TcpConn) (data : List UInt8) (msglen msgid : Int32) : Prop :=
  (∀ out, sendMessage p conn data msglen msgid = .ok (-1, out) →
    out.conn.obuf.content = conn.obuf.content ∧ out.conn.obuf.Resting) ∧
  (8388608 < msglen.toInt → sendMessage p conn data msglen msgid ≠ .error .outOfBounds)

/-- The body is not refused; or nothing is pending; or the head needs another block and the process
ends for want of memory. -/
def HeadAtFront (p : BufPool) (conn : TcpConn) (msglen : Int32) : Prop :=
  msglen.toInt ≤ 8388608 ∨ conn.obuf.content = [] ∨
    (¬ OutputBuf.HeadFits conn.obuf ∧ p.Exhausted messageHeadLen)

/-- `send_message` returns -1 only for a body of more than 8 MiB, and then without the first eight
bytes of what was pending with the head behind it. -/
theorem sendMessage_failed {p : BufPool} (hp : p.Clean) {conn : TcpConn}
    (hobuf : conn.obuf.Sound) {data : List UInt8} {msglen msgid : Int32} {out : Outcome}
    (h : sendMessage p conn data msglen msgid = .ok (-1, out)) :
    8388608 < msglen.toInt ∧ out.conn.obuf.content =
        (conn.obuf.content ++ MsgHead.encode ⟨msgid, msglen⟩).drop messageHeadLen ∧
      (out.conn.obuf.content = [] → out.conn.obuf = none) := by
  unfold sendMessage at h
  rcases bind_eq_ok.1 h with ⟨⟨ret₁, p₁, obuf₁⟩, hsend₁, hrest⟩
  obtain rfl : ret₁ = 0 := OutputBuf.sendData_admitted (by decide) hsend₁
  rcases OutputBuf.sendData_bytes hp hobuf hsend₁ with ⟨hclean₁, hsound₁, hsent | hfailed⟩
  · rw [MsgHead.take_encode] at hsent
    simp only [ne_eq, not_true_eq_false, if_false] at hrest
    rcases bind_eq_ok.1 hrest with ⟨⟨ret₂, p₂, obuf₂⟩, hsend₂, hend⟩
    rcases OutputBuf.sendData_bytes hclean₁ hsound₁ hsend₂ with
      ⟨hclean₂, _, ⟨rfl, _⟩ | ⟨rfl, rfl⟩⟩
    · cases hend
    · have hlong : 8388608 < msglen.toInt := by
        by_contra hshort
        exact absurd (OutputBuf.sendData_admitted (not_lt.1 hshort) hsend₂) (by decide)
      -- the pop that takes the head back
      rw [if_pos (by decide : (-1 : Int) ≠ 0)] at hend
      rcases bind_eq_ok.1 hend with ⟨⟨p₃, obuf₃⟩, hpop, hret⟩
      cases hret
      cases obuf₂ with
      | none => cases hpop
      | some b =>
          rw [content_some] at hsent
          have hmin : messageHeadLen ≤ b.pending.length := by
            rw [hsent.2]
            simp
          rcases pop_spec hclean₂ (sound_some.1 hsound₁) hmin with
            ⟨_, _, heq, _, _, hcontent, hdrained⟩
          rw [hpop] at heq
          cases heq
          rw [hsent.2] at hcontent hdrained
          exact ⟨hlong, hcontent, fun hnil => hdrained (hcontent ▸ hnil)⟩
  · exact absurd hfailed.1 (by decide)

/-- Bytes are pending in a block without place for a head. -/
theorem exists_full {buf : ReactorBuf} (hpending : buf.content ≠ [])
    (hfull : ¬ OutputBuf.HeadFits buf) :
    ∃ b, buf = some b ∧ b.capacity - b.length < messageHeadLen := by
  cases buf with
  | none => exact absurd rfl hpending
  | some b =>
      refine ⟨b, rfl, ?_⟩
      by_contra hfree
      exact hfull ⟨b, rfl, not_lt.1 hfree⟩

/-- With bytes pending and place for the head, a body of more than 8 MiB leaves the window at
offset 8. -/
theorem sendMessage_displaced (p : BufPool) {conn : TcpConn} (hobuf : conn.obuf.Resting)
    (hpending : conn.obuf.content ≠ []) (hfits : OutputBuf.HeadFits conn.obuf) (data : List UInt8)
    (msglen msgid : Int32) (hlong : 8388608 < msglen.toInt) :
    ∃ out b, sendMessage p conn data msglen msgid = .ok (-1, out) ∧ out.conn.obuf = some b ∧
      b.head = 8 := by
  rcases hfits with ⟨b, hbuf, hfree⟩
  rw [hbuf] at hobuf hpending
  rcases resting_some.1 hobuf with ⟨hb, hzero⟩
  rcases OutputBuf.sendData_head (p := p) hb hzero hfree ⟨msgid, msglen⟩ with
    ⟨b₁, hsend₁, hsound₁, hzero₁, hpend₁⟩
  have hsend₂ : OutputBuf.sendData p (some b₁) data msglen.toInt = .ok (-1, p, some b₁) :=
    OutputBuf.sendData_tooLong (resting_some.2 ⟨hsound₁, hzero₁⟩) hlong
  have hlen := hsound₁.valid.length_eq
  have hold : 0 < b.pending.length := List.length_pos_iff.2 hpending
  rw [hpend₁, List.length_append, MsgHead.length_encode] at hlen
  have hpop : (messageHeadLen : Int) ≤ b₁.length := by omega
  have hleft : ¬ b₁.length - (messageHeadLen : Int) = 0 := by omega
  set b₂ : PoolBuf := { b₁ with toIoBuf := b₁.toIoBuf.pop messageHeadLen } with hb₂
  refine ⟨{ pool := p, conn := { conn with obuf := some b₂ }, cleaned := false, effects := [] }, b₂,
    ?_, rfl, ?_⟩
  · simp [sendMessage, hbuf, hsend₁, hsend₂, pop, hpop, IoBuf.pop_eq hpop, hleft, hb₂]
  · rw [hb₂, IoBuf.pop_eq hpop, hzero₁]
    rfl

/-- With nothing pending, the head is all there is to take back. -/
theorem failsCleanly_of_nil {p : BufPool} (hp : p.Clean) {conn : TcpConn}
    (hobuf : conn.obuf.Resting) (hnil : conn.obuf.content = []) (data : List UInt8)
    (msglen msgid : Int32) : FailsCleanly p conn data msglen msgid := by
  constructor
  · intro out hsend
    rcases sendMessage_failed hp hobuf.sound hsend with ⟨_, hcontent, hdrained⟩
    have hback : out.conn.obuf.content = [] := by
      rw [hcontent, hnil]
      rfl
    rw [hdrained hback]
    exact ⟨hnil.symm, resting_none⟩
  · intro hlong hover
    rcases OutputBuf.sendData_head_nil hp hobuf hnil ⟨msgid, msglen⟩ with
      hexit | ⟨p₁, b₁, hsend₁, hclean₁, hsound₁, hzero₁, hpend₁⟩
    · simp [sendMessage, hexit] at hover
    · have hsend₂ : OutputBuf.sendData p₁ (some b₁) data msglen.toInt = .ok (-1, p₁, some b₁) :=
        OutputBuf.sendData_tooLong (resting_some.2 ⟨hsound₁, hzero₁⟩) hlong
      have hlen : messageHeadLen ≤ b₁.pending.length := by
        rw [hpend₁, MsgHead.length_encode]
      rcases pop_spec hclean₁ hsound₁ hlen with ⟨p₂, obuf₂, hpop, _⟩
      simp [sendMessage, hsend₁, hsend₂, hpop] at hover

/-- A send that fails leaves the stream as it was exactly if the head is what is at the front. -/
theorem failsCleanly_iff (p : BufPool) (hp : p.Clean) (conn : TcpConn) (hobuf : conn.obuf.Resting)
    (data : List UInt8) (msglen msgid : Int32) :
    FailsCleanly p conn data msglen msgid ↔ conn.HeadAtFront p msglen := by
  constructor
  · intro hfails
    by_contra hcond
    simp only [HeadAtFront, not_or, not_le, not_and] at hcond
    rcases hcond with ⟨hlong, hpending, hfull⟩
    by_cases hfits : OutputBuf.HeadFits conn.obuf
    · rcases sendMessage_displaced p hobuf hpending hfits data msglen msgid hlong with
        ⟨out, b, hsend, hb, hhead⟩
      have hzero := ((hfails.1 out hsend).2 b hb).2
      omega
    · -- the head is written past its block
      rcases exists_full hpending hfits with ⟨b, hbuf, hfew⟩
      rw [hbuf] at hobuf
      apply hfails.2 hlong
      simp [sendMessage, hbuf, OutputBuf.sendData_head_overflow hp hobuf hfew (hfull hfits)]
  · rintro (hshort | hnil | ⟨hfull, hexit⟩)
    · -- no call with such a body returns -1
      refine ⟨fun out hsend => ?_, fun hlong => absurd hshort (not_le.2 hlong)⟩
      have hlong := (sendMessage_failed hp hobuf.sound hsend).1
      omega
    · exact failsCleanly_of_nil hp hobuf hnil data msglen msgid
    · by_cases hnil : conn.obuf.content = []
      · exact failsCleanly_of_nil hp hobuf hnil data msglen msgid
      · -- the process ends before it has written anything
        rcases exists_full hnil hfull with ⟨b, hbuf, hfew⟩
        rw [hbuf] at hobuf
        have hends : sendMessage p conn data msglen msgid = .error .exited := by
          simp [sendMessage, hbuf, OutputBuf.sendData_head_exits hp hobuf hfew hexit]
        constructor
        · intro out hsend
          rw [hends] at hsend
          cases hsend
        · intro _ hover
          rw [hends] at hover
          cases hover

/-- A body of 8 MiB and one byte on a connection with nothing pending. -/
theorem failsCleanly_iff_idle :
    FailsCleanly BufPool.init (new 5) (OutputBuf.zeros 8388609) 8388609 7 :=
  (failsCleanly_iff BufPool.init BufPool.init_clean (new 5) resting_none (OutputBuf.zeros 8388609)
    8388609 7).2 (Or.inr (Or.inl rfl))

/-- A block with two pending bytes. -/
def twoPending : PoolBuf :=
  { IoBuf.new 4096 with length := 2, addr := 0 }

theorem twoPending_resting : Resting (some twoPending) :=
  resting_some.2 ⟨⟨⟨by decide, by decide, by decide⟩, .m4K, rfl⟩, rfl⟩

/-- The same body behind two bytes that are still pending. -/
theorem failsCleanly_displaces :
    ¬ ∀ (p : BufPool) (conn : TcpConn) (data : List UInt8) (msglen msgid : Int32), p.Clean →
      conn.obuf.Resting → FailsCleanly p conn data msglen msgid := by
  intro hall
  let conn : TcpConn := { new 5 with obuf := some twoPending }
  have hpending : conn.obuf.content ≠ [] := List.cons_ne_nil 0 [0]
  rcases sendMessage_displaced BufPool.init twoPending_resting hpending
      ⟨twoPending, rfl, by decide⟩ (OutputBuf.zeros 8388609) 8388609 7 (by decide) with
    ⟨out, b, hsend, hb, hhead⟩
  have hclean := hall BufPool.init conn (OutputBuf.zeros 8388609) 8388609 7 BufPool.init_clean
    twoPending_resting
  have hzero := ((hclean.1 out hsend).2 b hb).2
  omega

/-! ## Draining -/

/-- What a `do_write` that returned leaves of the stream.  The connection was closed after a failed
write; or what the kernel took and then what is pending are the bytes that were there, at the front
of their block, and the interest in writing is gone exactly if nothing is pending. -/
def Drained (conn : TcpConn) (results : List SysWrite) (out : WriteOutcome) : Prop :=
  (out.cleaned = true ∧ ∃ res ∈ results, res.ret = .error) ∨
    (out.cleaned = false ∧ out.taken ++ out.conn.obuf.content = conn.obuf.content ∧
      out.conn.obuf.Resting ∧
      (.delIoEventMask conn.connfd .epollout ∈ out.effects ↔ out.conn.obuf.content = []))

/-- On a block with its window at the front `write2fd` returns. -/
theorem write2fd_returns {b : PoolBuf} (hb : b.Sound) (hhead : b.head = 0) (res : SysWrite) :
    ∃ ret buf taken, OutputBuf.write2fd (some b) res = .ok (ret, buf, taken) := by
  simp only [OutputBuf.write2fd, hhead, decide_true, assert_true, ok_bind]
  cases res.ret with
  | again => exact ⟨_, _, _, rfl⟩
  | error => exact ⟨_, _, _, rfl⟩
  | wrote n =>
      simp only
      split_ifs with hpos
      · have hle : min n b.length.toNat ≤ b.pending.length := by
          rw [IoBuf.length_pending]
          omega
        have hload := IoBuf.load_head hb.valid hle
        rw [hhead] at hload
        rcases IoBuf.popAdjust_spec hb.valid hle with ⟨adjusted, hadj, _⟩
        exact ⟨_, _, _, by rw [hload, ok_bind, hadj, ok_bind]; rfl⟩
      · exact ⟨_, _, _, rfl⟩

/-- What the loop leaves of a connection it does not close. -/
structure LeftOpen (conn : TcpConn) (out : WriteOutcome) : Prop where
  cleaned : out.cleaned = false
  bytes : out.taken ++ out.conn.obuf.content = conn.obuf.content
  front : out.conn.obuf.Resting
  connfd : out.conn.connfd = conn.connfd
  effects : out.effects = []

/-- One round of the loop: it ends here, or it goes on with fewer bytes. -/
theorem writeLoop_round {p : BufPool} (hp : p.Clean) {conn : TcpConn} (hibuf : conn.ibuf.Sound)
    (hobuf : conn.obuf.Resting) (hpending : conn.obuf.content ≠ []) (res : SysWrite)
    (results : List SysWrite) :
    (∃ out, writeLoop p conn (res :: results) = .ok out ∧
      ((out.cleaned = true ∧ res.ret = .error) ∨ conn.LeftOpen out)) ∨
      ∃ obuf taken, taken ≠ [] ∧ obuf.Resting ∧ taken ++ obuf.content = conn.obuf.content ∧
        writeLoop p conn (res :: results) = (do
          let out ← writeLoop p { conn with obuf := obuf } results
          return { out with taken := taken ++ out.taken }) := by
  have hsound : conn.obuf.Sound := hobuf.sound
  have hlen : conn.obuf.length ≠ 0 := fun hzero =>
    hpending ((length_eq_zero_iff hsound).1 hzero)
  have hreturns : ∃ ret obuf taken, OutputBuf.write2fd conn.obuf res = .ok (ret, obuf, taken) := by
    cases hbuf : conn.obuf with
    | none =>
        rw [hbuf] at hpending
        exact absurd rfl hpending
    | some b =>
        rw [hbuf] at hobuf
        rcases resting_some.1 hobuf with ⟨hb, hhead⟩
        exact write2fd_returns hb hhead res
  rcases hreturns with ⟨ret, obuf, taken, hwrite⟩
  rcases OutputBuf.write2fd_spec hobuf hwrite with ⟨hfront, hbytes⟩
  have hround : writeLoop p conn (res :: results) = (do
      if ret = -1 then
        let out ← cleanConn p { conn with obuf := obuf }
        return { out with taken := taken }
      else if ret = 0 then
        return {
          pool := p
          conn := { conn with obuf := obuf }
          cleaned := false
          effects := []
          taken := taken }
      else
        let out ← writeLoop p { conn with obuf := obuf } results
        return { out with taken := taken ++ out.taken }) := by
    simp only [writeLoop, hlen, ne_eq, not_false_eq_true, if_true, hwrite, ok_bind]
  rcases write2fd_bytes hsound hwrite with
    ⟨_, rfl, _⟩ | ⟨herror, rfl, rfl⟩ | ⟨n, _, rfl, _, hcontent⟩
  · left
    rw [if_neg (by decide), if_pos rfl] at hround
    exact ⟨_, hround, Or.inr ⟨rfl, hbytes, hfront, rfl, rfl⟩⟩
  · left
    rcases clear_spec hp hibuf with ⟨p₁, hclear₁, hclean₁⟩
    rcases clear_spec hclean₁ hsound with ⟨p₂, hclear₂, _⟩
    rw [if_pos rfl] at hround
    simp only [cleanConn, hclear₁, hclear₂, ok_bind, pure_eq_ok] at hround
    exact ⟨_, hround, Or.inl ⟨rfl, herror⟩⟩
  · have hpos : 0 < conn.obuf.content.length := List.length_pos_iff.2 hpending
    rw [if_neg (by omega)] at hround
    by_cases hn : n = 0
    · left
      rw [hn, Nat.zero_min, Nat.cast_zero, if_pos rfl] at hround
      exact ⟨_, hround, Or.inr ⟨rfl, hbytes, hfront, rfl, rfl⟩⟩
    · right
      rw [if_neg (by omega)] at hround
      refine ⟨obuf, taken, ?_, hfront, hbytes, hround⟩
      rintro rfl
      -- some bytes are gone from the buffer
      have hshort := congrArg List.length hbytes
      rw [hcontent, List.nil_append, List.length_drop] at hshort
      omega

/-- The loop ends, and takes at most one write for each pending byte. -/
theorem writeLoop_ends {p : BufPool} (hp : p.Clean) (results : List SysWrite) :
    ∀ {conn : TcpConn}, conn.ibuf.Sound → conn.obuf.Resting →
      (∃ out, writeLoop p conn results = .ok out ∧
        ((out.cleaned = true ∧ ∃ res ∈ results, res.ret = .error) ∨ conn.LeftOpen out)) ∨
      (writeLoop p conn results = .error .unfinished ∧
        results.length < conn.obuf.content.length) := by
  induction results with
  | nil =>
      intro conn _ hobuf
      have hiff := length_eq_zero_iff hobuf.sound
      by_cases hnil : conn.obuf.content = []
      · left
        have hlen : conn.obuf.length = 0 := hiff.2 hnil
        exact ⟨_, by simp [writeLoop, hlen]; rfl, Or.inr ⟨rfl, rfl, hobuf, rfl, rfl⟩⟩
      · right
        have hlen : conn.obuf.length ≠ 0 := fun hzero => hnil (hiff.1 hzero)
        exact ⟨by simp [writeLoop, hlen], List.length_pos_iff.2 hnil⟩
  | cons res results ih =>
      intro conn hibuf hobuf
      by_cases hnil : conn.obuf.content = []
      · left
        have hlen : conn.obuf.length = 0 :=
          (length_eq_zero_iff hobuf.sound).2 hnil
        exact ⟨_, by simp [writeLoop, hlen]; rfl, Or.inr ⟨rfl, rfl, hobuf, rfl, rfl⟩⟩
      · rcases writeLoop_round hp hibuf hobuf hnil res results with
          ⟨out, hround, hend⟩ | ⟨obuf, taken, hsome, hfront, hbytes, hround⟩
        · left
          exact ⟨out, hround, hend.imp_left fun h => ⟨h.1, res, List.mem_cons_self, h.2⟩⟩
        · have hfewer := congrArg List.length hbytes
          rw [List.length_append] at hfewer
          have hpos : 0 < taken.length := List.length_pos_iff.2 hsome
          rcases @ih { conn with obuf := obuf } hibuf hfront with
            ⟨out, hloop, hend⟩ | ⟨hloop, hmore⟩
          · left
            rw [hloop] at hround
            refine ⟨{ out with taken := taken ++ out.taken }, hround, ?_⟩
            rcases hend with ⟨hcleaned, res', hmem, herror⟩ | hopen
            · exact Or.inl ⟨hcleaned, res', List.mem_cons_of_mem _ hmem, herror⟩
            · refine Or.inr ⟨hopen.cleaned, ?_, hopen.front, hopen.connfd, hopen.effects⟩
              rw [List.append_assoc, hopen.bytes]
              exact hbytes
          · right
            rw [hloop] at hround
            refine ⟨hround, ?_⟩
            simp only [List.length_cons] at hmore ⊢
            omega

theorem doWrite_ends {p : BufPool} (hp : p.Clean) {conn : TcpConn} (hibuf : conn.ibuf.Sound)
    (hobuf : conn.obuf.Resting) (results : List SysWrite) :
    (∃ out, doWrite p conn results = .ok out ∧ conn.Drained results out) ∨
      (doWrite p conn results = .error .unfinished ∧
        results.length < conn.obuf.content.length) := by
  rcases writeLoop_ends hp results hibuf hobuf with
    ⟨out, hloop, ⟨hcleaned, herror⟩ | hopen⟩ | ⟨hloop, hmore⟩
  · left
    exact ⟨out, by simp [doWrite, hloop, hcleaned], Or.inl ⟨hcleaned, herror⟩⟩
  · left
    have hiff := length_eq_zero_iff hopen.front.sound
    by_cases hnil : out.conn.obuf.content = []
    · have hdone : out.cleaned = false ∧ out.conn.obuf.length = 0 := ⟨hopen.cleaned, hiff.2 hnil⟩
      refine ⟨{ out with
          effects := out.effects ++ [.delIoEventMask out.conn.connfd .epollout] },
        by simp only [doWrite, hloop, ok_bind, if_pos hdone, pure_eq_ok],
        Or.inr ⟨hopen.cleaned, hopen.bytes, hopen.front, ?_⟩⟩
      simp [hnil, hopen.connfd]
    · have hlen : out.conn.obuf.length ≠ 0 := fun hzero => hnil (hiff.1 hzero)
      refine ⟨out, by simp [doWrite, hloop, hlen],
        Or.inr ⟨hopen.cleaned, hopen.bytes, hopen.front, ?_⟩⟩
      simp [hnil, hopen.effects]
  · right
    exact ⟨by simp [doWrite, hloop], hmore⟩

/-- `do_write` returns, whatever `write` answers: with a sequence of answers that goes on it has
returned after at most one write for each pending byte, and a sequence that stops short of that is
used up.  What it leaves is in order. -/
theorem doWrite_drains (p : BufPool) (hp : p.Clean) (conn : TcpConn) (hibuf : conn.ibuf.Sound)
    (hobuf : conn.obuf.Resting) :
    (∀ answer : ℕ → SysWrite, ∃ n ≤ conn.obuf.content.length, ∃ out,
      doWrite p conn ((List.range n).map answer) = .ok out ∧
      conn.Drained ((List.range n).map answer) out) ∧
    ∀ results : List SysWrite,
      (∃ out, doWrite p conn results = .ok out ∧ conn.Drained results out) ∨
        (doWrite p conn results = .error .unfinished ∧
          results.length < conn.obuf.content.length) := by
  refine ⟨fun answer => ⟨conn.obuf.content.length, le_rfl, ?_⟩, doWrite_ends hp hibuf hobuf⟩
  rcases doWrite_ends hp hibuf hobuf ((List.range conn.obuf.content.length).map answer) with
    hdone | ⟨_, hmore⟩
  · exact hdone
  · rw [List.length_map, List.length_range] at hmore
    exact absurd hmore (lt_irrefl _)

/-- Two bytes, of which one is written after an interruption before the socket is full. -/
theorem doWrite_drains_two :
    ∃ out, doWrite BufPool.init { new 5 with obuf := some twoPending }
        [.eintr (.wrote 1), .again] = .ok out ∧
      Drained { new 5 with obuf := some twoPending } [.eintr (.wrote 1), .again] out := by
  rcases (doWrite_drains BufPool.init BufPool.init_clean { new 5 with obuf := some twoPending }
      sound_none twoPending_resting).2 [.eintr (.wrote 1), .again] with hdone | ⟨_, hmore⟩
  · exact hdone
  · exact absurd hmore (by decide)

end TcpConn

end Reactor
end Rins
