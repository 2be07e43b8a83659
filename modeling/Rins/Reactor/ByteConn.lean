import Rins.Reactor.OutputFifo
import Rins.Reactor.TcpConn

/-!
# ByteConn — a connection whose buffers are lists of bytes

The methods of `tcp_conn` over buffers without a capacity: only whether a `send_data` succeeds is
left of the pool.  The callbacks of the user send on the connection, so what they do is the list of
their sends.

The second half shows that the methods of `TcpConn` are these, as far as they return: the bytes in
the blocks of the pool are the bytes in the lists, and the effects are the same.
-/

namespace Rins
namespace Reactor

structure ByteConn where
  connfd : Int
  ibuf : List UInt8
  obuf : List UInt8

/-- A call of `send_message`, and whether its two calls of `send_data` succeed. -/
structure ConnSend where
  data : List UInt8
  msglen : Int32
  msgid : Int32
  headSent : Bool
  bodySent : Bool

/-- What `read_data` returns: -1, 0, or the number of these bytes. -/
inductive ReadRet
  | failed
  | eof
  | bytes (bs : List UInt8)

namespace ByteConn

/-- What a method leaves behind. -/
structure Outcome where
  conn : ByteConn
  cleaned : Bool
  effects : List ConnEffect

/-- `tcp_conn::send_message`. -/
def sendMessage (conn : ByteConn) (send : ConnSend) : Int × Outcome :=
  let activeEpollout := decide (conn.obuf.length = 0)
  let head : MsgHead := { id := send.msgid, length := send.msglen }
  if send.headSent then
    let obuf := conn.obuf ++ head.encode
    if send.bodySent then
      let effects := if activeEpollout then [.addIoEvent conn.connfd .epollout] else []
      let obuf := obuf ++ send.data.take send.msglen.toInt.toNat
      (0, { conn := { conn with obuf := obuf }, cleaned := false, effects := effects })
    else
      -- eight bytes are taken back, from the front
      let obuf := obuf.drop messageHeadLen
      (-1, { conn := { conn with obuf := obuf }, cleaned := false, effects := [] })
  else
    (-1, { conn := conn, cleaned := false, effects := [] })

/-- The sends of a callback. -/
def sendAll (conn : ByteConn) : List ConnSend → ByteConn × List ConnEffect
  | [] => (conn, [])
  | send :: sends =>
      let out := (conn.sendMessage send).2
      let (conn, effects) := out.conn.sendAll sends
      (conn, out.effects ++ effects)

/-- `tcp_conn::clean_conn`; `close` is what `conn_close_cb` sends. -/
def cleanConn (conn : ByteConn) (close : List ConnSend) : Outcome :=
  { conn := { connfd := -1, ibuf := [], obuf := [] }
    cleaned := true
    effects := .connCloseCb :: (conn.sendAll close).2 ++
      [.decreaseConn conn.connfd, .delIoEvent conn.connfd, .close conn.connfd] }

/-- The loop of `tcp_conn::do_read`, for at most so many rounds.  The sends of one callback after
the other are in `calls`. -/
def parseLoop (close : List ConnSend) : Nat → List (List ConnSend) → ByteConn → Outcome
  | 0, _, conn => { conn := conn, cleaned := false, effects := [] }
  | rounds + 1, calls, conn =>
      if messageHeadLen ≤ conn.ibuf.length then
        let head := MsgHead.decode (conn.ibuf.take messageHeadLen)
        if head.length.toInt > messageLengthLimit ∨ head.length.toInt < 0 then
          conn.cleanConn close
        else if (conn.ibuf.length : Int) < messageHeadLen + head.length.toInt then
          { conn := conn, cleaned := false, effects := [] }
        else
          let rest := (conn.ibuf.drop messageHeadLen).drop head.length.toInt.toNat
          let (called, effects) := conn.sendAll (calls.headD [])
          let out := parseLoop close rounds calls.tail { called with ibuf := rest }
          { out with effects := effects ++ out.effects }
      else
        { conn := conn, cleaned := false, effects := [] }

/-- `tcp_conn::do_read`. -/
def doRead (conn : ByteConn) (read : ReadRet) (calls : List (List ConnSend))
    (close : List ConnSend) : Outcome :=
  match read with
  | .failed => conn.cleanConn close
  | .eof => conn.cleanConn close
  | .bytes bs =>
      let conn := { conn with ibuf := conn.ibuf ++ bs }
      parseLoop close (conn.ibuf.length + 1) calls conn

/-- The loop of `tcp_conn::do_write`. -/
def writeLoop (close : List ConnSend) (conn : ByteConn) : List SysWrite → Option Outcome
  | [] =>
      if conn.obuf ≠ [] then none
      else some { conn := conn, cleaned := false, effects := [] }
  | res :: results =>
      if conn.obuf ≠ [] then
        match res.ret with
        | .again => some { conn := conn, cleaned := false, effects := [] }
        | .error => some (conn.cleanConn close)
        | .wrote n =>
            if n = 0 then some { conn := conn, cleaned := false, effects := [] }
            else writeLoop close { conn with obuf := conn.obuf.drop n } results
      else
        some { conn := conn, cleaned := false, effects := [] }

/-- `tcp_conn::do_write`; there is no outcome if the answers of the kernel do not suffice. -/
def doWrite (conn : ByteConn) (results : List SysWrite) (close : List ConnSend) :
    Option Outcome :=
  (conn.writeLoop close results).map fun out =>
    if out.cleaned = false ∧ out.conn.obuf = [] then
      { out with effects := out.effects ++ [.delIoEventMask out.conn.connfd .epollout] }
    else
      out

/-! ## Facts about the methods -/

theorem sendMessage_same (conn : ByteConn) (send : ConnSend) :
    (conn.sendMessage send).2.conn.connfd = conn.connfd ∧
      (conn.sendMessage send).2.conn.ibuf = conn.ibuf := by
  unfold sendMessage
  simp only
  split_ifs <;> exact ⟨rfl, rfl⟩

/-- What has been read is of no consequence to `send_message`. -/
theorem sendMessage_ibuf (conn : ByteConn) (ibuf : List UInt8) (send : ConnSend) :
    ({ conn with ibuf := ibuf } : ByteConn).sendMessage send =
      ((conn.sendMessage send).1,
        { (conn.sendMessage send).2 with
          conn := { (conn.sendMessage send).2.conn with ibuf := ibuf } }) := by
  unfold sendMessage
  simp only
  split_ifs <;> rfl

/-- A round takes a head at least, so `do_read` leaves its loop before the rounds are over. -/
theorem parseLoop_rounds {close : List ConnSend} {rounds : Nat} (k : Nat) :
    ∀ (calls : List (List ConnSend)) (conn : ByteConn), conn.ibuf.length < rounds →
      conn.parseLoop close (rounds + k) calls = conn.parseLoop close rounds calls := by
  induction rounds with
  | zero =>
      intro calls conn hlen
      omega
  | succ rounds ih =>
      intro calls conn hlen
      have hadd : rounds + 1 + k = rounds + k + 1 := by omega
      rw [hadd]
      simp only [parseLoop]
      by_cases hlong : messageHeadLen ≤ conn.ibuf.length
      · have hless : ((conn.ibuf.drop messageHeadLen).drop
            (MsgHead.decode (conn.ibuf.take messageHeadLen)).length.toInt.toNat).length <
            rounds := by
          simp only [List.length_drop, messageHeadLen] at hlong ⊢
          omega
        have hrest := ih calls.tail { (conn.sendAll (calls.headD [])).1 with
          ibuf := (conn.ibuf.drop messageHeadLen).drop
            (MsgHead.decode (conn.ibuf.take messageHeadLen)).length.toInt.toNat } hless
        simp only [hlong, if_true, hrest]
      · simp only [hlong, if_false]

end ByteConn

/-! ## The methods of `TcpConn` -/

namespace OutputBuf

open ReactorBuf

/-- Where `send_data` appends, it appends the bytes of the caller to those of the block. -/
theorem sendAppend_bytes {b b' : PoolBuf} (hb : b.Sound) (hhead : b.head = 0)
    {data : List UInt8} {n : Int} (h : sendAppend b data n = .ok b') :
    b'.Sound ∧ b'.pending = b.pending ++ data.take n.toNat := by
  unfold sendAppend at h
  rcases bind_eq_ok.1 h with ⟨bytes, hbytes, h⟩
  rcases bind_eq_ok.1 h with ⟨filled, happ, h⟩
  cases h
  unfold callerBytes at hbytes
  split_ifs at hbytes
  cases hbytes
  rcases IoBuf.append_spec hb.valid hhead (IoBuf.append_room happ) with
    ⟨_, heq, hvalid, _, hpend, hcap⟩
  rw [happ] at heq
  cases heq
  exact ⟨⟨hvalid, by simpa [hcap] using hb.fromPool⟩, hpend⟩

theorem replace_bytes {p p' : BufPool} (hp : p.Clean) {old new b : PoolBuf} (hold : old.Sound)
    (hhead : old.head = 0) (hnew : ∃ c : MemCap, new.capacity = c.size)
    (h : replace p old new = .ok (p', b)) :
    p'.Clean ∧ b.Sound ∧ b.head = 0 ∧ b.pending = old.pending := by
  by_cases hroom : old.length ≤ new.capacity
  · rcases replace_spec hp hold hhead hnew hroom with
      ⟨_, _, heq, hclean, hsound, hzero, hpend, _⟩
    rw [h] at heq
    cases heq
    exact ⟨hclean, hsound, hzero, hpend⟩
  · have hover := IoBuf.copy_overflow hold.valid (by omega : new.capacity < old.length)
    simp [replace, hover] at h

/-- Where the bytes go next: nowhere, behind those that are there, or behind them in a new block. -/
def PlaceFor (p : BufPool) (buf : ReactorBuf) : Stage → Prop
  | .failed left => left = buf
  | .ready b => b.Sound ∧ b.head = 0 ∧ b.pending = buf.content
  | .moving old new => ∀ p' b, replace p old new = .ok (p', b) →
      p'.Clean ∧ b.Sound ∧ b.head = 0 ∧ b.pending = buf.content

theorem makeRoom_bytes {p p' : BufPool} (hp : p.Clean) {buf : ReactorBuf} (hbuf : buf.Sound)
    {n : Int} {request : PoolBuf → Int} {stage : Stage}
    (h : makeRoom p buf n request = .ok (p', stage)) : p'.Clean ∧ PlaceFor p' buf stage := by
  unfold makeRoom at h
  cases buf with
  | none =>
      rcases bind_eq_ok.1 h with ⟨⟨p₁, block⟩, halloc, h⟩
      cases block with
      | none =>
          cases h
          rw [(BufPool.allocBuf_none.1 halloc).2]
          exact ⟨hp, rfl⟩
      | some b =>
          cases h
          rcases BufPool.allocBuf_some hp halloc with ⟨c, _, hcap, hlen, hhead, hclean⟩
          refine ⟨hclean, PoolBuf.sound_of_empty hcap hlen hhead, hhead, ?_⟩
          rw [IoBuf.pending_eq_nil hlen]
          rfl
  | some b =>
      have hb := sound_some.1 hbuf
      rcases bind_eq_ok.1 h with ⟨_, hguard, h⟩
      have hhead : b.head = 0 := by simpa using assert_eq_ok.1 hguard
      split_ifs at h with hsmall
      · rcases bind_eq_ok.1 h with ⟨⟨p₁, block⟩, halloc, h⟩
        cases block with
        | none =>
            cases h
            rw [(BufPool.allocBuf_none.1 halloc).2]
            exact ⟨hp, rfl⟩
        | some new =>
            cases h
            rcases BufPool.allocBuf_some hp halloc with ⟨c, _, hcap, _, _, hclean⟩
            exact ⟨hclean, fun _ _ hrep => replace_bytes hclean hb hhead ⟨c, hcap⟩ hrep⟩
      · cases h
        exact ⟨hp, hb, hhead, rfl⟩

/-- `send_data` appends, or it leaves everything as it is. -/
theorem sendData_bytes {p p' : BufPool} (hp : p.Clean) {buf buf' : ReactorBuf} (hbuf : buf.Sound)
    {data : List UInt8} {n ret : Int} (h : sendData p buf data n = .ok (ret, p', buf')) :
    p'.Clean ∧ buf'.Sound ∧
      ((ret = 0 ∧ buf'.content = buf.content ++ data.take n.toNat) ∨ (ret = -1 ∧ buf' = buf)) := by
  rcases bind_eq_ok.1 h with ⟨⟨p₁, stage⟩, hroom, h⟩
  rcases makeRoom_bytes hp hbuf hroom with ⟨hclean, hstage⟩
  cases stage with
  | failed left =>
      cases h
      obtain rfl : buf' = buf := hstage
      exact ⟨hclean, hbuf, Or.inr ⟨rfl, rfl⟩⟩
  | ready b =>
      rcases bind_eq_ok.1 h with ⟨b', happ, h⟩
      cases h
      rcases hstage with ⟨hsound, hhead, hpend⟩
      rcases sendAppend_bytes hsound hhead happ with ⟨hsound', hpend'⟩
      exact ⟨hclean, sound_some.2 hsound', Or.inl ⟨rfl, hpend'.trans (by rw [hpend])⟩⟩
  | moving old new =>
      -- the bytes move to the new block first
      rcases bind_eq_ok.1 h with ⟨⟨p₂, b⟩, hrep, h⟩
      rcases bind_eq_ok.1 h with ⟨b', happ, h⟩
      rcases hstage p₂ b hrep with ⟨hclean₂, hsound, hhead, hpend⟩
      cases h
      rcases sendAppend_bytes hsound hhead happ with ⟨hsound', hpend'⟩
      exact ⟨hclean₂, sound_some.2 hsound', Or.inl ⟨rfl, hpend'.trans (by rw [hpend])⟩⟩

end OutputBuf

namespace TcpConn

open ReactorBuf

/-- The bytes in the buffers. -/
def bytes (conn : TcpConn) : ByteConn :=
  { connfd := conn.connfd
    ibuf := conn.ibuf.content
    obuf := conn.obuf.content }

def Outcome.bytes (out : Outcome) : ByteConn.Outcome :=
  { conn := out.conn.bytes
    cleaned := out.cleaned
    effects := out.effects }

/-- The blocks of the connection are in order. -/
def Blocks (conn : TcpConn) : Prop :=
  conn.ibuf.Sound ∧ conn.obuf.Sound

theorem sendMessage_bytes {p : BufPool} (hp : p.Clean) {conn : TcpConn} (hconn : conn.Blocks)
    {data : List UInt8} {msglen msgid : Int32} {ret : Int} {out : Outcome}
    (h : sendMessage p conn data msglen msgid = .ok (ret, out)) :
    out.pool.Clean ∧ out.conn.Blocks ∧
      ∃ headSent bodySent, conn.bytes.sendMessage ⟨data, msglen, msgid, headSent, bodySent⟩ =
        (ret, out.bytes) := by
  have hempty : (conn.obuf.length = 0) ↔ conn.obuf.content.length = 0 := by
    rw [ReactorBuf.length_eq hconn.2]
    omega
  unfold sendMessage at h
  rcases bind_eq_ok.1 h with ⟨⟨ret₁, p₁, obuf₁⟩, hhead, hrest⟩
  rcases OutputBuf.sendData_bytes hp hconn.2 hhead with ⟨hclean₁, hsound₁, hsent₁⟩
  simp only at hrest
  rcases hsent₁ with ⟨rfl, hcontent₁⟩ | ⟨rfl, rfl⟩
  · rw [if_neg (by decide : ¬ (0 : Int) ≠ 0)] at hrest
    rcases bind_eq_ok.1 hrest with ⟨⟨ret₂, p₂, obuf₂⟩, hbody, hend⟩
    rcases OutputBuf.sendData_bytes hclean₁ hsound₁ hbody with ⟨hclean₂, hsound₂, hsent₂⟩
    simp only at hend
    rw [MsgHead.take_encode] at hcontent₁
    rcases hsent₂ with ⟨rfl, hcontent₂⟩ | ⟨rfl, rfl⟩
    · rw [if_neg (by decide : ¬ (0 : Int) ≠ 0)] at hend
      cases hend
      refine ⟨hclean₂, ⟨hconn.1, hsound₂⟩, true, true, ?_⟩
      simp [ByteConn.sendMessage, Outcome.bytes, bytes, hcontent₂, hcontent₁, hempty]
    · -- the head is at the back, what is popped is at the front
      rw [if_pos (by decide : (-1 : Int) ≠ 0)] at hend
      rcases bind_eq_ok.1 hend with ⟨⟨p₃, obuf₃⟩, hpop, hret⟩
      cases hret
      have hlong : messageHeadLen ≤ obuf₂.content.length := by
        rw [hcontent₁]
        simp
      cases obuf₂ with
      | none => cases hpop
      | some b =>
          rcases pop_spec hclean₂ (sound_some.1 hsound₂) hlong with
            ⟨_, _, heq, hclean, hsound, hcontent, _⟩
          rw [hpop] at heq
          cases heq
          have hfront : obuf₃.content =
              (conn.obuf.content ++ MsgHead.encode ⟨msgid, msglen⟩).drop messageHeadLen := by
            rw [hcontent, ← hcontent₁]
            rfl
          exact ⟨hclean, ⟨hconn.1, hsound⟩, true, false,
            by simp [ByteConn.sendMessage, Outcome.bytes, bytes, hfront]⟩
  · rw [if_pos (by decide : (-1 : Int) ≠ 0)] at hrest
    cases hrest
    exact ⟨hclean₁, ⟨hconn.1, hsound₁⟩, false, false,
      by simp [ByteConn.sendMessage, Outcome.bytes, bytes]⟩

/-- `clean_conn` with a callback that sends nothing. -/
theorem cleanConn_bytes {p : BufPool} (hp : p.Clean) {conn : TcpConn} (hconn : conn.Blocks)
    {out : Outcome} (h : cleanConn p conn = .ok out) :
    out.pool.Clean ∧ out.conn.Blocks ∧ out.cleaned = true ∧
      conn.bytes.cleanConn [] = out.bytes := by
  rcases clear_spec hp hconn.1 with ⟨p₁, hclear₁, hclean₁⟩
  rcases clear_spec hclean₁ hconn.2 with ⟨p₂, hclear₂, hclean₂⟩
  simp only [cleanConn, hclear₁, hclear₂, ok_bind] at h
  cases h
  exact ⟨hclean₂, ⟨sound_none, sound_none⟩, rfl, rfl⟩

/-! ### Writing -/

theorem write2fd_bytes {buf buf' : ReactorBuf} (hbuf : buf.Sound) {res : SysWrite} {ret : Int}
    {taken : List UInt8} (h : OutputBuf.write2fd buf res = .ok (ret, buf', taken)) :
    (res.ret = .again ∧ ret = 0 ∧ buf' = buf) ∨ (res.ret = .error ∧ ret = -1 ∧ buf' = buf) ∨
      ∃ n, res.ret = .wrote n ∧ ret = (min n buf.content.length : Nat) ∧ buf'.Sound ∧
        buf'.content = buf.content.drop n := by
  cases buf with
  | none => cases h
  | some b =>
      have hb := sound_some.1 hbuf
      have hspec := h
      rcases bind_eq_ok.1 h with ⟨_, hguard, h⟩
      have hhead : b.head = 0 := by simpa using assert_eq_ok.1 hguard
      cases hret : res.ret with
      | again =>
          simp only [hret] at h
          cases h
          exact Or.inl ⟨rfl, rfl, rfl⟩
      | error =>
          simp only [hret] at h
          cases h
          exact Or.inr (Or.inl ⟨rfl, rfl, rfl⟩)
      | wrote n =>
          rcases OutputBuf.write2fd_spec (resting_some.2 ⟨hb, hhead⟩) hspec with
            ⟨hresting, hbytes⟩
          have hlen : b.length.toNat = b.pending.length := (IoBuf.length_pending b.toIoBuf).symm
          simp only [hret, hlen] at h
          refine Or.inr (Or.inr ⟨n, rfl, ?_⟩)
          split_ifs at h with hpos
          · rcases bind_eq_ok.1 h with ⟨taken', hload, h⟩
            rcases bind_eq_ok.1 h with ⟨adjusted, hadj, h⟩
            cases h
            refine ⟨rfl, hresting.sound, ?_⟩
            -- what is not taken is left
            have htaken := IoBuf.load_head hb.valid (Nat.min_le_right n b.pending.length)
            rw [hhead, hload] at htaken
            cases htaken
            have hsplit := List.take_append_drop (min n b.pending.length) b.pending
            have hdrop := List.append_cancel_left (hbytes.trans hsplit.symm)
            rw [hdrop, content_some]
            by_cases hn : n ≤ b.pending.length
            · rw [Nat.min_eq_left hn]
            · rw [Nat.min_eq_right (by omega), List.drop_length,
                List.drop_of_length_le (by omega)]
          · cases h
            have hzero : min n b.pending.length = 0 := by omega
            refine ⟨by rw [content_some, hzero]; rfl, hbuf, ?_⟩
            rcases Nat.min_eq_zero_iff.1 hzero with rfl | hnil
            · rfl
            · simp [List.eq_nil_of_length_eq_zero hnil]

theorem length_eq_zero_iff {buf : ReactorBuf} (h : buf.Sound) :
    buf.length = 0 ↔ buf.content = [] := by
  rw [ReactorBuf.length_eq h]
  simp

theorem writeLoop_bytes {p : BufPool} (hp : p.Clean) {results : List SysWrite} :
    ∀ {conn : TcpConn} {out : WriteOutcome}, conn.Blocks → writeLoop p conn results = .ok out →
      out.pool.Clean ∧ out.conn.Blocks ∧
        conn.bytes.writeLoop [] results = some out.toOutcome.bytes := by
  induction results with
  | nil =>
      intro conn out hconn h
      unfold writeLoop at h
      split_ifs at h with hempty
      cases h
      have hnil : conn.obuf.content = [] :=
        (length_eq_zero_iff hconn.2).1 (not_not.1 hempty)
      exact ⟨hp, hconn, by simp [ByteConn.writeLoop, bytes, Outcome.bytes, hnil]⟩
  | cons res results ih =>
      intro conn out hconn h
      unfold writeLoop at h
      split_ifs at h with hempty
      · have hsome : conn.obuf.content ≠ [] := fun hnil =>
          hempty ((length_eq_zero_iff hconn.2).2 hnil)
        rcases bind_eq_ok.1 h with ⟨⟨ret, obuf, taken⟩, hwrite, h⟩
        simp only [ByteConn.writeLoop, bytes, hsome, ne_eq, not_false_eq_true, if_true]
        rcases write2fd_bytes hconn.2 hwrite with
          ⟨hret, rfl, rfl⟩ | ⟨hret, rfl, rfl⟩ | ⟨n, hret, rfl, hsound, hcontent⟩
        · simp only [hret]
          cases h
          exact ⟨hp, hconn, rfl⟩
        · simp only [hret]
          rcases bind_eq_ok.1 h with ⟨cleaned, hclean, h⟩
          cases h
          rcases cleanConn_bytes hp hconn hclean with ⟨hclean', hblocks, _, hsame⟩
          exact ⟨hclean', hblocks, congrArg some hsame⟩
        · simp only [hret]
          have hblocks : Blocks { conn with obuf := obuf } := ⟨hconn.1, hsound⟩
          have hpos : 0 < conn.obuf.content.length := List.length_pos_iff.2 hsome
          simp only at h
          rw [if_neg (by omega)] at h
          by_cases hn : n = 0
          · subst hn
            rw [if_pos (by simp)] at h
            cases h
            refine ⟨hp, hblocks, ?_⟩
            simp [Outcome.bytes, bytes, hcontent]
          · rw [if_neg (by omega)] at h
            rcases bind_eq_ok.1 h with ⟨rest, hrest, h⟩
            cases h
            rcases ih hblocks hrest with ⟨hclean, hblocks', hsame⟩
            refine ⟨hclean, hblocks', ?_⟩
            rw [if_neg hn, ← hcontent]
            exact hsame
      · cases h
        have hnil : conn.obuf.content = [] :=
          (length_eq_zero_iff hconn.2).1 (not_not.1 hempty)
        exact ⟨hp, hconn, by simp [ByteConn.writeLoop, bytes, Outcome.bytes, hnil]⟩

theorem doWrite_bytes {p : BufPool} (hp : p.Clean) {conn : TcpConn} (hconn : conn.Blocks)
    {results : List SysWrite} {out : WriteOutcome} (h : doWrite p conn results = .ok out) :
    out.pool.Clean ∧ out.conn.Blocks ∧
      conn.bytes.doWrite results [] = some out.toOutcome.bytes := by
  unfold doWrite at h
  rcases bind_eq_ok.1 h with ⟨written, hloop, h⟩
  rcases writeLoop_bytes hp hconn hloop with ⟨hclean, hblocks, hsame⟩
  have hiff := length_eq_zero_iff hblocks.2
  unfold ByteConn.doWrite
  rw [hsame, Option.map_some]
  by_cases hempty : written.cleaned = false ∧ written.conn.obuf.length = 0
  · have hempty' : written.cleaned = false ∧ written.conn.obuf.content = [] :=
      ⟨hempty.1, hiff.1 hempty.2⟩
    rw [if_pos hempty] at h
    cases h
    refine ⟨hclean, hblocks, ?_⟩
    simp [Outcome.bytes, bytes, hempty']
  · have hempty' : ¬ (written.cleaned = false ∧ written.conn.obuf.content = []) :=
      fun hnot => hempty ⟨hnot.1, hiff.2 hnot.2⟩
    rw [if_neg hempty] at h
    cases h
    refine ⟨hclean, hblocks, ?_⟩
    rw [if_neg (by simpa [Outcome.bytes, bytes] using hempty')]

/-! ### Reading -/

theorem readInto_bytes {b : PoolBuf} (hb : b.Sound) (hhead : b.head = 0) {needRead : Int} :
    ∀ {res : SysRead} {ret : Int} {b' : PoolBuf},
      InputBuf.readInto b needRead res = .ok (ret, b') →
      b'.Sound ∧ (((ret = -1 ∨ ret = 0) ∧ b'.pending = b.pending) ∨
        ∃ bs : List UInt8, bs ≠ [] ∧ ret = bs.length ∧ b'.pending = b.pending ++ bs) := by
  intro res
  induction res with
  | eintr retry ih =>
      intro ret b' h
      exact ih h
  | error =>
      intro ret b' h
      cases h
      exact ⟨hb, Or.inl ⟨Or.inl rfl, rfl⟩⟩
  | bytes bs =>
      intro ret b' h
      simp only [InputBuf.readInto] at h
      generalize List.take _ bs = got at h
      by_cases hnil : got = []
      · rw [if_pos hnil] at h
        cases h
        exact ⟨hb, Or.inl ⟨Or.inr rfl, rfl⟩⟩
      · rw [if_neg hnil] at h
        rcases bind_eq_ok.1 h with ⟨filled, happ, hret⟩
        rcases IoBuf.append_spec hb.valid hhead (IoBuf.append_room happ) with
          ⟨_, heq, hvalid, _, hpend, hcap⟩
        rw [happ] at heq
        cases heq
        have hend : ret = got.length ∧ b' = { b with toIoBuf := filled } := by
          by_cases hneed : needRead = 0
          · simp only [hneed, ne_eq, not_true, if_false] at hret
            cases hret
            exact ⟨rfl, rfl⟩
          · rw [if_pos hneed] at hret
            rcases bind_eq_ok.1 hret with ⟨_, _, hret⟩
            cases hret
            exact ⟨rfl, rfl⟩
        rcases hend with ⟨rfl, rfl⟩
        exact ⟨⟨hvalid, by simpa [hcap] using hb.fromPool⟩, Or.inr ⟨got, hnil, rfl, hpend⟩⟩

/-- `read_data` appends, or it leaves the bytes as they are. -/
theorem readData_bytes {p p' : BufPool} (hp : p.Clean) {buf buf' : ReactorBuf} (hbuf : buf.Sound)
    {sock : Socket} {ret : Int} (h : InputBuf.readData p buf sock = .ok (ret, p', buf')) :
    p'.Clean ∧ buf'.Sound ∧ (((ret = -1 ∨ ret = 0) ∧ buf'.content = buf.content) ∨
      ∃ bs : List UInt8, bs ≠ [] ∧ ret = bs.length ∧ buf'.content = buf.content ++ bs) := by
  unfold InputBuf.readData at h
  cases hready : sock.fionread with
  | none =>
      rw [hready] at h
      cases h
      exact ⟨hp, hbuf, Or.inl ⟨Or.inl rfl, rfl⟩⟩
  | some needRead =>
      rw [hready] at h
      rcases bind_eq_ok.1 h with ⟨⟨p₁, stage⟩, hroom, h⟩
      rcases OutputBuf.makeRoom_bytes hp hbuf hroom with ⟨hclean, hstage⟩
      cases stage with
      | failed left =>
          cases h
          obtain rfl : buf' = buf := hstage
          exact ⟨hclean, hbuf, Or.inl ⟨Or.inl rfl, rfl⟩⟩
      | ready b =>
          rcases bind_eq_ok.1 h with ⟨⟨ret', b'⟩, hread, h⟩
          cases h
          rcases hstage with ⟨hsound, hhead, hpend⟩
          rcases readInto_bytes hsound hhead hread with ⟨hsound', hgot⟩
          rw [hpend] at hgot
          exact ⟨hclean, sound_some.2 hsound', hgot⟩
      | moving old new =>
          rcases bind_eq_ok.1 h with ⟨⟨p₂, b⟩, hrep, h⟩
          rcases bind_eq_ok.1 h with ⟨⟨ret', b'⟩, hread, h⟩
          rcases hstage p₂ b hrep with ⟨hclean₂, hsound, hhead, hpend⟩
          cases h
          rcases readInto_bytes hsound hhead hread with ⟨hsound', hgot⟩
          rw [hpend] at hgot
          exact ⟨hclean₂, sound_some.2 hsound', hgot⟩

theorem pop_bytes {p p' : BufPool} (hp : p.Clean) {buf buf' : ReactorBuf} (hbuf : buf.Sound)
    {n : Nat} (h : pop p buf n = .ok (p', buf')) :
    p'.Clean ∧ buf'.Sound ∧ buf'.content = buf.content.drop n := by
  cases buf with
  | none => cases h
  | some b =>
      have hb := sound_some.1 hbuf
      have hpop := h
      rcases bind_eq_ok.1 h with ⟨_, hguard, _⟩
      have hle : (n : Int) ≤ b.length := by simpa using assert_eq_ok.1 hguard
      have hlen := hb.valid.length_eq
      rcases pop_spec hp hb (by omega : n ≤ b.pending.length) with
        ⟨_, _, heq, hclean, hsound, hcontent, _⟩
      rw [hpop] at heq
      cases heq
      exact ⟨hclean, hsound, hcontent⟩

theorem peek_bytes {buf : ReactorBuf} (hbuf : buf.Sound) {n : Nat} {front : List UInt8}
    (hn : n ≤ buf.content.length) (h : InputBuf.peek buf n = .ok front) :
    front = buf.content.take n := by
  cases buf with
  | none => cases h
  | some b =>
      have hspec := InputBuf.peek_spec (sound_some.1 hbuf) hn
      rw [h] at hspec
      cases hspec
      rfl

/-- The callback sends on the connection, and does nothing else to it. -/
def OnlySends (fd : Int) (cb : MsgCallback) : Prop :=
  ∀ {m : Message} {p p' : BufPool} {obuf obuf' : ReactorBuf} {effects : List ConnEffect},
    p.Clean → obuf.Sound → cb m p obuf = .ok (p', obuf', effects) →
      p'.Clean ∧ obuf'.Sound ∧ ∃ sends, ∀ ibuf : List UInt8,
        ByteConn.sendAll ⟨fd, ibuf, obuf.content⟩ sends = (⟨fd, ibuf, obuf'.content⟩, effects)

/-- A callback that answers a message by one `send_message` on the connection. -/
def answering (fd : Int) (answer : Message → List UInt8 × Int32 × Int32) : MsgCallback :=
  fun m p obuf => do
    let (data, msglen, msgid) := answer m
    let (_, out) ← sendMessage p { connfd := fd, ibuf := none, obuf := obuf } data msglen msgid
    return (out.pool, out.conn.obuf, out.effects)

theorem onlySends_answering (fd : Int) (answer : Message → List UInt8 × Int32 × Int32) :
    OnlySends fd (answering fd answer) := by
  intro m p p' obuf obuf' effects hp hobuf h
  rcases hm : answer m with ⟨data, msglen, msgid⟩
  unfold answering at h
  rw [hm] at h
  rcases bind_eq_ok.1 h with ⟨⟨ret, out⟩, hsend, h⟩
  cases h
  have hblocks : Blocks { connfd := fd, ibuf := none, obuf := obuf } := ⟨sound_none, hobuf⟩
  rcases sendMessage_bytes hp hblocks hsend with ⟨hpool, hblocks', headSent, bodySent, hsame⟩
  refine ⟨hpool, hblocks'.2, [⟨data, msglen, msgid, headSent, bodySent⟩], fun ibuf => ?_⟩
  have hframe := ByteConn.sendMessage_ibuf (bytes ⟨fd, none, obuf⟩) ibuf
    ⟨data, msglen, msgid, headSent, bodySent⟩
  have hfd := (ByteConn.sendMessage_same (bytes ⟨fd, none, obuf⟩)
    ⟨data, msglen, msgid, headSent, bodySent⟩).1
  rw [hsame] at hframe hfd
  simp only [bytes, Outcome.bytes] at hframe hfd
  simp [ByteConn.sendAll, hframe, hfd]

theorem parseLoop_bytes {cb : MsgCallback} {rounds : Nat} :
    ∀ {p : BufPool} {conn : TcpConn} {out : ReadOutcome}, p.Clean → conn.Blocks →
      OnlySends conn.connfd cb → parseLoop cb rounds p conn = .ok out →
      out.pool.Clean ∧ out.conn.Blocks ∧
        ∃ calls, conn.bytes.parseLoop [] rounds calls = out.toOutcome.bytes := by
  induction rounds with
  | zero =>
      intro p conn out hp hconn hcb h
      cases h
  | succ rounds ih =>
      intro p conn out hp hconn hcb h
      have hlength := ReactorBuf.length_eq hconn.1
      have hbytes : conn.bytes.ibuf = conn.ibuf.content := rfl
      unfold parseLoop at h
      by_cases hlong : conn.ibuf.length ≥ messageHeadLen
      · have hlong' : messageHeadLen ≤ conn.bytes.ibuf.length := by
          rw [hbytes]
          omega
        rw [if_pos hlong] at h
        rcases bind_eq_ok.1 h with ⟨front, hpeek, h⟩
        have hfront : front = conn.bytes.ibuf.take messageHeadLen :=
          peek_bytes hconn.1 hlong' hpeek
        subst hfront
        generalize hhead : MsgHead.decode (conn.bytes.ibuf.take messageHeadLen) = head at h
        simp only [ByteConn.parseLoop, hlong', if_true, hhead]
        by_cases hbad : head.length.toInt > messageLengthLimit ∨ head.length.toInt < 0
        · rw [if_pos hbad] at h
          rcases bind_eq_ok.1 h with ⟨cleaned, hclean, h⟩
          cases h
          rcases cleanConn_bytes hp hconn hclean with ⟨hpool, hblocks, _, hsame⟩
          refine ⟨hpool, hblocks, [], ?_⟩
          rw [if_pos hbad]
          exact hsame
        · rw [if_neg hbad] at h
          have hnat : ((head.length.toInt.toNat : Nat) : Int) = head.length.toInt := by omega
          by_cases hpart : conn.ibuf.length < messageHeadLen + head.length.toInt
          · rw [if_pos hpart] at h
            cases h
            refine ⟨hp, hconn, [], ?_⟩
            rw [if_neg hbad, if_pos (by rw [hbytes]; omega)]
            rfl
          · rw [if_neg hpart] at h
            rcases bind_eq_ok.1 h with ⟨⟨p₁, ibuf₁⟩, hpop₁, h⟩
            rcases bind_eq_ok.1 h with ⟨body, _, h⟩
            rcases bind_eq_ok.1 h with ⟨⟨p₂, obuf₂, called⟩, hcall, h⟩
            rcases bind_eq_ok.1 h with ⟨⟨p₃, ibuf₃⟩, hpop₃, h⟩
            rcases bind_eq_ok.1 h with ⟨rest, hrest, h⟩
            cases h
            rcases pop_bytes hp hconn.1 hpop₁ with ⟨hclean₁, hsound₁, hcontent₁⟩
            rcases hcb hclean₁ hconn.2 hcall with ⟨hclean₂, hsound₂, sends, hsends⟩
            have hpop₃' : pop p₂ ibuf₁ (head.length.toInt.toNat : Nat) = .ok (p₃, ibuf₃) := by
              rw [hnat]
              exact hpop₃
            rcases pop_bytes hclean₂ hsound₁ hpop₃' with ⟨hclean₃, hsound₃, hcontent₃⟩
            have hblocks : Blocks { conn with ibuf := ibuf₃, obuf := obuf₂ } :=
              ⟨hsound₃, hsound₂⟩
            rcases ih hclean₃ hblocks hcb hrest with ⟨hpool, hblocks', calls, hsame⟩
            refine ⟨hpool, hblocks', sends :: calls, ?_⟩
            have hcalled : conn.bytes.sendAll sends =
                ({ conn.bytes with obuf := obuf₂.content }, called) := hsends conn.ibuf.content
            rw [if_neg hbad, if_neg (by rw [hbytes]; omega)]
            simp only [List.headD_cons, List.tail_cons, hcalled]
            rw [hbytes, ← hcontent₁, ← hcontent₃]
            simp only [bytes] at hsame ⊢
            rw [hsame]
            rfl
      · have hlong' : ¬ messageHeadLen ≤ conn.bytes.ibuf.length := by
          rw [hbytes]
          omega
        rw [if_neg hlong] at h
        cases h
        refine ⟨hp, hconn, [], ?_⟩
        simp only [ByteConn.parseLoop, hlong', if_false]
        rfl

theorem doRead_bytes {cb : MsgCallback} {p : BufPool} (hp : p.Clean) {conn : TcpConn}
    (hconn : conn.Blocks) (hcb : OnlySends conn.connfd cb) {sock : Socket} {out : ReadOutcome}
    (h : doRead cb p conn sock = .ok out) :
    out.pool.Clean ∧ out.conn.Blocks ∧
      ∃ read calls, conn.bytes.doRead read calls [] = out.toOutcome.bytes := by
  unfold doRead at h
  rcases bind_eq_ok.1 h with ⟨⟨ret, p₁, ibuf₁⟩, hread, h⟩
  rcases readData_bytes hp hconn.1 hread with ⟨hclean₁, hsound₁, hgot⟩
  have hblocks₁ : Blocks { conn with ibuf := ibuf₁ } := ⟨hsound₁, hconn.2⟩
  simp only at h
  rcases hgot with ⟨hret, hcontent⟩ | ⟨bs, hne, rfl, hcontent⟩
  · -- both branches clean the connection
    have hend : ∃ cleaned, cleanConn p₁ { conn with ibuf := ibuf₁ } = .ok cleaned ∧
        out = { cleaned with calls := [] } := by
      rcases hret with rfl | rfl
      · rw [if_pos rfl] at h
        rcases bind_eq_ok.1 h with ⟨cleaned, hclean, h⟩
        cases h
        exact ⟨cleaned, hclean, rfl⟩
      · rw [if_neg (by decide), if_pos rfl] at h
        rcases bind_eq_ok.1 h with ⟨cleaned, hclean, h⟩
        cases h
        exact ⟨cleaned, hclean, rfl⟩
    rcases hend with ⟨cleaned, hclean, rfl⟩
    rcases cleanConn_bytes hclean₁ hblocks₁ hclean with ⟨hpool, hblocks, _, hsame⟩
    exact ⟨hpool, hblocks, .failed, [], hsame⟩
  · have hpos : 0 < bs.length := List.length_pos_iff.2 hne
    rw [if_neg (by omega), if_neg (by omega)] at h
    rcases bind_eq_ok.1 h with ⟨looped, hloop, h⟩
    rcases bind_eq_ok.1 h with ⟨ibuf₂, hadj, h⟩
    cases h
    rcases parseLoop_bytes hclean₁ hblocks₁ hcb hloop with ⟨hpool, hblocks, calls, hsame⟩
    rcases InputBuf.adjust_spec hblocks.1 with ⟨_, heq, hresting, hkept, _⟩
    rw [hadj] at heq
    cases heq
    refine ⟨hpool, ⟨hresting.sound, hblocks.2⟩, .bytes bs, calls, ?_⟩
    have hrounds : ibuf₁.length.toNat = (conn.ibuf.content ++ bs).length := by
      rw [ReactorBuf.length_eq hsound₁, hcontent]
      rfl
    rw [hrounds] at hsame
    simp only [ByteConn.doRead]
    simp only [bytes, hcontent] at hsame ⊢
    rw [hsame]
    simp [Outcome.bytes, bytes, hkept]

end TcpConn
end Reactor
end Rins
