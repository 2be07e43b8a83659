import Rins.Reactor.ConnOutput
import Rins.Reactor.ServerFraming

/-!
# ConnRounds — `tcp_conn::do_read` one message at a time

Between two rounds of the loop of `do_read` other threads go on: they use the pool, and they change
what the callbacks look at.  Here a round is a step of its own, and `parseLoop_succ` makes the loop
of the rounds again.

The rest is about answers: a message that fits is appended by `send_message`, so that a callback
which answers returns wherever its answer fits; and what `do_write` hands to the kernel is always
the front of what is pending.
-/

namespace Rins
namespace Reactor

namespace TcpConn

open ReactorBuf

/-! ## A round -/

/-- How a round of the loop ends. -/
inductive Round
  /-- the loop is left -/
  | left (out : ReadOutcome)
  /-- a message has been handed to `tcp_server::router.call`, with these effects -/
  | dispatched (pool : BufPool) (conn : TcpConn) (called : List ConnEffect) (m : Message)

/-- The body of the `while` loop of `tcp_conn::do_read`. -/
def round (cb : MsgCallback) (p : BufPool) (conn : TcpConn) : Except Fault Round :=
  if conn.ibuf.length ≥ messageHeadLen then do
    let bytes ← InputBuf.peek conn.ibuf messageHeadLen
    let head := MsgHead.decode bytes
    if head.length.toInt > messageLengthLimit ∨ head.length.toInt < 0 then
      let out ← cleanConn p conn
      return .left { out with calls := [] }
    else if conn.ibuf.length < messageHeadLen + head.length.toInt then
      return .left { pool := p, conn := conn, cleaned := false, effects := [], calls := [] }
    else
      let (p, ibuf) ← ReactorBuf.pop p conn.ibuf messageHeadLen
      let body ← bodyAt ibuf head.length.toInt
      let m : Message := { id := head.id, length := head.length, body := body }
      let (p, obuf, called) ← cb m p conn.obuf
      let (p, ibuf) ← ReactorBuf.pop p ibuf head.length.toInt
      return .dispatched p { conn with ibuf := ibuf, obuf := obuf } called m
  else
    return .left { pool := p, conn := conn, cleaned := false, effects := [], calls := [] }

/-- What the loop does after a round. -/
def Round.continue (rest : BufPool → TcpConn → Except Fault ReadOutcome) :
    Round → Except Fault ReadOutcome
  | .left out => .ok out
  | .dispatched p conn called m => do
      let out ← rest p conn
      return { out with effects := called ++ out.effects, calls := m :: out.calls }

/-- The loop is its rounds. -/
theorem parseLoop_succ (cb : MsgCallback) (rounds : Nat) (p : BufPool) (conn : TcpConn) :
    parseLoop cb (rounds + 1) p conn =
      round cb p conn >>= Round.continue (parseLoop cb rounds) := by
  unfold parseLoop round
  by_cases hhead : conn.ibuf.length ≥ messageHeadLen
  · simp only [hhead, if_true]
    cases InputBuf.peek conn.ibuf messageHeadLen with
    | error e => rfl
    | ok bytes =>
        simp only [ok_bind]
        split_ifs
        · cases cleanConn p conn with
          | error e => rfl
          | ok out => rfl
        · rfl
        · cases ReactorBuf.pop p conn.ibuf messageHeadLen with
          | error e => rfl
          | ok popped =>
              simp only [ok_bind]
              cases bodyAt popped.2 (MsgHead.decode bytes).length.toInt with
              | error e => rfl
              | ok body =>
                  simp only [ok_bind]
                  cases cb _ popped.1 conn.obuf with
                  | error e => rfl
                  | ok called =>
                      simp only [ok_bind]
                      cases ReactorBuf.pop called.1 popped.2
                          (MsgHead.decode bytes).length.toInt with
                      | error e => rfl
                      | ok rest => rfl
  · simp only [hhead, if_false]
    rfl

theorem round_connfd {cb : MsgCallback} {p p' : BufPool} {conn conn' : TcpConn}
    {called : List ConnEffect} {m : Message}
    (h : round cb p conn = .ok (.dispatched p' conn' called m)) : conn'.connfd = conn.connfd := by
  unfold round at h
  split_ifs at h
  · rcases bind_eq_ok.1 h with ⟨bytes, _, h⟩
    dsimp only at h
    split_ifs at h
    · rcases bind_eq_ok.1 h with ⟨_, _, h⟩
      cases h
    · cases h
    · rcases bind_eq_ok.1 h with ⟨_, _, h⟩
      rcases bind_eq_ok.1 h with ⟨_, _, h⟩
      rcases bind_eq_ok.1 h with ⟨_, _, h⟩
      rcases bind_eq_ok.1 h with ⟨_, _, h⟩
      cases h
      rfl
  · cases h

/-- Without a complete message the loop is left. -/
theorem round_wait (cb : MsgCallback) (p : BufPool) {conn : TcpConn} (hconn : conn.Sound)
    (hnext : serverNext conn.ibuf.content = .wait) :
    round cb p conn =
      .ok (.left { pool := p, conn := conn, cleaned := false, effects := [], calls := [] }) := by
  -- what is known about a loop of one round
  have hloop := parseLoop_succ cb 0 p conn
  rw [parseLoop_wait cb hconn hnext] at hloop
  cases hround : round cb p conn with
  | error e =>
      rw [hround] at hloop
      cases hloop
  | ok r =>
      rw [hround, ok_bind] at hloop
      cases r with
      | left out => rw [Except.ok.inj hloop]
      | dispatched p' conn' called m => cases hloop

/-- Popping a part leaves the block where it is. -/
theorem pop_part (p : BufPool) {b : PoolBuf} (hb : b.Sound) {n : Nat}
    (hn : n < b.pending.length) :
    ∃ b', pop p (some b) n = .ok (p, some b') ∧ b'.Sound ∧ b'.pending = b.pending.drop n := by
  have hlen := hb.valid.length_eq
  have hle : (n : Int) ≤ b.length := by omega
  have hvalid : (b.toIoBuf.pop n).Valid := hb.valid.pop (le_of_lt hn)
  have hpending : (b.toIoBuf.pop n).pending = b.pending.drop n :=
    IoBuf.pending_pop hb.valid (le_of_lt hn)
  have hsome : (b.toIoBuf.pop n).length ≠ 0 := by
    intro hzero
    have hnil := congrArg List.length (hpending.symm.trans (IoBuf.pending_eq_nil hzero))
    rw [List.length_drop, List.length_nil] at hnil
    omega
  refine ⟨{ b with toIoBuf := b.toIoBuf.pop n }, ?_, ⟨hvalid, by simpa using hb.fromPool⟩,
    hpending⟩
  simp [pop, hle, hsome]

/-- With a complete message that has a body, the callback is called with the pool as it is. -/
theorem round_dispatch (cb : MsgCallback) (p : BufPool) {conn : TcpConn} (hconn : conn.Sound)
    {m : Message} {n : Nat} (hnext : serverNext conn.ibuf.content = .emit m n)
    (hbody : m.body ≠ []) :
    ∃ b : PoolBuf, b.Sound ∧ b.pending = conn.ibuf.content.drop messageHeadLen ∧
      round cb p conn = (do
        let (p, obuf, called) ← cb m p conn.obuf
        let (p, ibuf) ← ReactorBuf.pop p (some b) (m.body.length : Int)
        return .dispatched p { conn with ibuf := ibuf, obuf := obuf } called m) := by
  have hsize := emit_size hnext
  have hbodyLen : 0 < m.body.length := List.length_pos_iff.2 hbody
  have hlength := ReactorBuf.length_eq hconn.ibuf
  simp only [serverNext] at hnext
  split_ifs at hnext with hshort hbad hpart
  rcases exists_block hconn (by omega) with ⟨b, hbuf, hb, hpend⟩
  rcases peek_head hb (by rw [hpend]; omega) with ⟨bytes, hpeek, hdecode⟩
  rw [hpend] at hdecode
  set head := MsgHead.decode conn.ibuf.content with hhead
  cases hnext
  set k := head.length.toInt.toNat with hk
  have hcast : head.length.toInt = (k : Int) := by omega
  have hbodylen : ((conn.ibuf.content.drop messageHeadLen).take k).length = k := by
    simp only [List.length_take, List.length_drop]
    omega
  rcases pop_part p hb (n := messageHeadLen) (by rw [hpend]; omega) with
    ⟨b₁, hpop, hb₁, hpend₁⟩
  rw [hpend] at hpend₁
  have hne : (k : Int) ≠ 0 := by omega
  have hbodyAt : bodyAt (some b₁) k = .ok ((conn.ibuf.content.drop messageHeadLen).take k) := by
    have hle : k ≤ b₁.pending.length := by
      rw [hpend₁, List.length_drop]
      omega
    simp only [bodyAt, hne, if_false, InputBuf.peek_spec hb₁ hle, hpend₁]
  refine ⟨b₁, hb₁, hpend₁, ?_⟩
  have hge : conn.ibuf.length ≥ messageHeadLen := by omega
  have hok : ¬ ((k : Int) > messageLengthLimit ∨ (k : Int) < 0) := by omega
  have hwhole : ¬ conn.ibuf.length < messageHeadLen + (k : Int) := by omega
  rw [← hbuf] at hpeek hpop
  simp only [round, hge, if_true, hpeek, ok_bind, hdecode, hcast, hok, if_false, hwhole, hpop,
    hbodyAt, hbodylen]

end TcpConn

/-! ## Answers that fit -/

namespace OutputBuf

open ReactorBuf

/-- The capacity of the block that a head goes to. -/
def headBlock : ReactorBuf → Int
  | none => MemCap.m4K.size
  | some b => b.capacity

/-- There is room for a message with `n` bytes: for its head in the block in use, and for the body
behind it, or for everything in the block that is taken for `n` bytes. -/
def MessageFits (buf : ReactorBuf) (n : Nat) : Prop :=
  (buf.content.length + messageHeadLen : Int) ≤ headBlock buf ∧
    ((buf.content.length + messageHeadLen + n : Int) ≤ headBlock buf ∨
      ∃ c ∈ MemCap.forRequest n, (buf.content.length + messageHeadLen + n : Int) ≤ c.size)

instance (buf : ReactorBuf) (n : Nat) : Decidable (MessageFits buf n) :=
  inferInstanceAs (Decidable (_ ∧ (_ ∨ _)))

theorem sendAppend_capacity {b b' : PoolBuf} {data : List UInt8} {n : Int}
    (h : sendAppend b data n = .ok b') : b'.capacity = b.capacity := by
  rcases bind_eq_ok.1 h with ⟨_, _, h⟩
  rcases bind_eq_ok.1 h with ⟨filled, happ, h⟩
  cases h
  exact IoBuf.append_capacity happ

/-- The head of a message that fits is appended, and the pool can still give a block for the body,
if the block of the head is too small for it. -/
theorem sendData_headBlock {p : BufPool} (hp : p.Ample) {buf : ReactorBuf} (hbuf : buf.Resting)
    (head : MsgHead) (hfit : (buf.content.length + messageHeadLen : Int) ≤ headBlock buf) :
    ∃ p' b, sendData p buf head.encode messageHeadLen = .ok (0, p', some b) ∧ p'.Clean ∧
      (∀ c, c ≠ .m4K → p'.pool c ≠ [] ∨ p'.totalMem + c.kb < extraMemLimit) ∧ b.Sound ∧
      b.head = 0 ∧ b.capacity = headBlock buf ∧ b.pending = buf.content ++ head.encode := by
  have hlen : head.encode.length = messageHeadLen := MsgHead.length_encode head
  cases buf with
  | none =>
      have hclass : MemCap.forRequest messageHeadLen = some .m4K := by decide
      rcases hp.allocBuf_m4K hclass with ⟨p', b, halloc, hspare⟩
      rcases BufPool.allocBuf_some hp.clean halloc with ⟨c, hc, hcap, hempty, hhead, hclean⟩
      rw [hclass] at hc
      cases hc
      have hroom : b.length + head.encode.length ≤ b.capacity := by
        rw [hempty, hcap, hlen]
        decide
      rcases sendAppend_spec (PoolBuf.sound_of_empty hcap hempty hhead) hhead hroom with
        ⟨b', happ, hsound, hzero, hpend⟩
      rw [IoBuf.pending_eq_nil hempty] at hpend
      have hsize := (sendAppend_capacity happ).trans hcap
      rw [hlen] at happ
      refine ⟨p', b', ?_, hclean, hspare, hsound, hzero, hsize, hpend⟩
      simp [sendData, sendAlloc, makeRoom, halloc, happ]
  | some b =>
      rcases resting_some.1 hbuf with ⟨hb, hhead⟩
      have hheld := hb.valid.length_eq
      rw [content_some, headBlock] at hfit
      have hroom : b.length + head.encode.length ≤ b.capacity := by omega
      have hnot : ¬ b.capacity - b.length < messageHeadLen := by omega
      rcases sendAppend_spec hb hhead hroom with ⟨b', happ, hsound, hzero, hpend⟩
      have hsize := sendAppend_capacity happ
      rw [hlen] at happ
      refine ⟨p, b', ?_, hp.clean, fun c _ => ?_, hsound, hzero, hsize, hpend⟩
      · simp [sendData, sendAlloc, makeRoom, hhead, hnot, happ]
      · exact (hp.spare c).imp_right fun hlt => by omega

/-- The body of a message that fits is appended behind its head. -/
theorem sendData_body {p : BufPool} (hp : p.Clean)
    (hspare : ∀ c, c ≠ .m4K → p.pool c ≠ [] ∨ p.totalMem + c.kb < extraMemLimit) {b : PoolBuf}
    (hb : b.Sound) (hhead : b.head = 0) {data : List UInt8} (hsize : data.length ≤ 8388608)
    (hfit : b.length + data.length ≤ b.capacity ∨
      ∃ c ∈ MemCap.forRequest data.length, b.length + data.length ≤ c.size) :
    ∃ p' b', sendData p (some b) data data.length = .ok (0, p', some b') ∧ p'.Clean ∧ b'.Sound ∧
      b'.head = 0 ∧ b'.pending = b.pending ++ data := by
  have hroom : RoomFor (some b) p data.length := by
    intro b' hb'
    cases hb'
    rcases hfit with hin | hnew
    · exact Or.inl (by omega)
    · exact Or.inr (Or.inl hnew)
  rcases sendData_room_cases hp (resting_some.2 ⟨hb, hhead⟩) hsize hroom with
    ⟨⟨c, hc, hempty, hcap⟩, hsmall, _⟩ | ⟨p', b', hsend⟩
  · have hless := hsmall b rfl
    rcases hfit with hin | ⟨c', hc', hboth⟩
    · omega
    · -- the block for the body is a larger one, so it is not of the list that the head has used
      rw [Option.mem_def, hc] at hc'
      cases hc'
      have hlarge : c ≠ .m4K := by
        rintro rfl
        rcases hb.fromPool with ⟨d, hd⟩
        have hmin := d.m4K_le_size
        omega
      rcases hspare c hlarge with hne | hlt
      · exact absurd hempty hne
      · omega
  · exact ⟨p', b', hsend⟩

end OutputBuf

namespace TcpConn

open ReactorBuf

theorem Sound.of_ibuf {conn conn' : TcpConn} (h : conn.Sound) (hibuf : conn'.ibuf = conn.ibuf)
    (hobuf : conn'.obuf.Sound) : conn'.Sound := by
  refine ⟨?_, hobuf, ?_⟩
  · rw [hibuf]
    exact h.ibuf
  · rw [hibuf]
    exact h.drained

/-- A message that fits is accepted, and is behind the bytes that were pending. -/
theorem sendMessage_fits {p : BufPool} (hp : p.Ample) {conn : TcpConn}
    (hobuf : conn.obuf.Resting) {id : Int32} {body : List UInt8}
    (hshort : body.length ≤ messageLengthLimit)
    (hfit : OutputBuf.MessageFits conn.obuf body.length) :
    ∃ out, sendMessage p conn body (Int32.ofNat body.length) id = .ok (0, out) ∧
      out.pool.Clean ∧ out.conn.ibuf = conn.ibuf ∧ out.conn.obuf.Resting ∧
      out.conn.obuf.content = conn.obuf.content ++ (Message.of id body).encode := by
  have hbytes : (Message.of id body).encode =
      MsgHead.encode ⟨id, Int32.ofNat body.length⟩ ++ body := rfl
  have hbody : (Int32.ofNat body.length).toInt = (body.length : Int) :=
    (@Message.of_wellFormed id _ hshort).1
  have hsize : body.length ≤ 8388608 := Nat.le_trans hshort (by decide)
  rcases OutputBuf.sendData_headBlock hp hobuf ⟨id, Int32.ofNat body.length⟩ hfit.1 with
    ⟨p₁, b₁, hsend₁, hclean₁, hspare₁, hsound₁, hzero₁, hcap₁, hpend₁⟩
  have hlen₁ : b₁.length = conn.obuf.content.length + messageHeadLen := by
    rw [hsound₁.valid.length_eq, hpend₁, List.length_append, MsgHead.length_encode]
    exact Nat.cast_add _ _
  have hfit₁ := hfit.2
  rw [← hcap₁, ← hlen₁] at hfit₁
  rcases OutputBuf.sendData_body hclean₁ hspare₁ hsound₁ hzero₁ hsize hfit₁ with
    ⟨p₂, b₂, hsend₂, hclean₂, hsound₂, hzero₂, hpend₂⟩
  rw [hpend₁, List.append_assoc, ← hbytes] at hpend₂
  refine ⟨{
      pool := p₂
      conn := { conn with obuf := some b₂ }
      cleaned := false
      effects :=
        if decide (conn.obuf.length = 0) then [.addIoEvent conn.connfd .epollout] else [] },
    ?_, hclean₂, rfl, resting_some.2 ⟨hsound₂, hzero₂⟩, hpend₂⟩
  simp only [sendMessage, hsend₁, ok_bind, hbody, hsend₂]
  rfl

/-- A callback that sends an answer gets along with all calls that find an ample pool and room for
the answer. -/
theorem orderly_answering (mayExit : Prop) (fd : Int) (answer : Message → List UInt8 × Int32)
    {calls : Message → BufPool → ReactorBuf → Prop}
    (hcalls : ∀ m p obuf, calls m p obuf → p.Ample ∧ obuf.Resting ∧
      (answer m).1.length ≤ messageLengthLimit ∧
      OutputBuf.MessageFits obuf (answer m).1.length) :
    Orderly mayExit
      (answering fd fun m => ((answer m).1, Int32.ofNat (answer m).1.length, (answer m).2))
      calls := by
  intro m p obuf hcall _ _
  rcases hcalls m p obuf hcall with ⟨hp, hobuf, hshort, hfit⟩
  rcases @sendMessage_fits p hp { connfd := fd, ibuf := none, obuf := obuf } hobuf (answer m).2 _
    hshort hfit with ⟨out, hsend, hclean, _, hrest, _⟩
  refine Or.inr ⟨out.pool, out.conn.obuf, out.effects, ?_, hclean, hrest.sound⟩
  simp only [answering, hsend, ok_bind, pure_eq_ok]

/-! ## What the kernel takes -/

theorem cleanConn_cleaned {p : BufPool} {conn : TcpConn} {out : Outcome}
    (h : cleanConn p conn = .ok out) : out.cleaned = true := by
  unfold cleanConn at h
  rcases bind_eq_ok.1 h with ⟨_, _, h⟩
  rcases bind_eq_ok.1 h with ⟨_, _, h⟩
  cases h
  rfl

/-- Also if the connection is closed in the end, the kernel has taken the front of what was pending;
and if it is not, the input is as it was. -/
theorem writeLoop_taken {p : BufPool} {results : List SysWrite} :
    ∀ {conn : TcpConn} {out : WriteOutcome}, conn.obuf.Resting →
      writeLoop p conn results = .ok out →
      out.taken <+: conn.obuf.content ∧ (out.cleaned = false → out.conn.ibuf = conn.ibuf) := by
  induction results with
  | nil =>
      intro conn out _ h
      unfold writeLoop at h
      split_ifs at h
      cases h
      exact ⟨List.nil_prefix, fun _ => rfl⟩
  | cons res results ih =>
      intro conn out hobuf h
      unfold writeLoop at h
      split_ifs at h
      · rcases bind_eq_ok.1 h with ⟨⟨ret, obuf, taken⟩, hwrite, h⟩
        rcases OutputBuf.write2fd_spec hobuf hwrite with ⟨hfront, hbytes⟩
        simp only at h
        split_ifs at h
        · rcases bind_eq_ok.1 h with ⟨closed, hclean, h⟩
          cases h
          refine ⟨⟨_, hbytes⟩, fun hopen => ?_⟩
          rw [cleanConn_cleaned hclean] at hopen
          cases hopen
        · cases h
          exact ⟨⟨_, hbytes⟩, fun _ => rfl⟩
        · rcases bind_eq_ok.1 h with ⟨rest, hrest, h⟩
          cases h
          rcases ih hfront hrest with ⟨htaken, hsame⟩
          rw [← hbytes]
          exact ⟨(List.prefix_append_right_inj taken).2 htaken, hsame⟩
      · cases h
        exact ⟨List.nil_prefix, fun _ => rfl⟩

theorem doWrite_taken {p : BufPool} {conn : TcpConn} (hobuf : conn.obuf.Resting)
    {results : List SysWrite} {out : WriteOutcome} (h : doWrite p conn results = .ok out) :
    out.taken <+: conn.obuf.content ∧ (out.cleaned = false → out.conn.ibuf = conn.ibuf) := by
  unfold doWrite at h
  rcases bind_eq_ok.1 h with ⟨written, hloop, h⟩
  have htaken := writeLoop_taken hobuf hloop
  split_ifs at h
  · cases h
    exact htaken
  · cases h
    exact htaken

end TcpConn

end Reactor
end Rins
