import Rins.Reactor.TcpConn

/-!
# ServerFraming — `tcp_conn::do_read` reads the stream, not the segments

The byte stream of a connection reaches `do_read` in chunks that TCP chooses.  This module shows
that the messages dispatched, the decision to close and the bytes kept in `_ibuf` are those of
`serverFraming` on the whole stream, for every way of cutting it.

* `parseLoop_spec` : one pass of the loop over a buffer is `Framing.parse` on its content;
* `doRead_spec`    : one `do_read` is `Framing.feed` of the chunk;
* `readRun_spec`   : a whole run is `Framing.parse` of the concatenated chunks.

There is one exception.  A frame without a body that uses up the buffer leaves a null pointer after
its head is popped, and the second `pop` fails its assertion: whether that happens depends on where
the chunks end, and on nothing else.

The pool is shared with all other connections, so each `do_read` may find a different one; at its
memory cap it ends the process.

A callback has to return only from the calls that the run makes: `LoopCalls`, `ReadCalls` and
`RunCalls` are these calls, with the pool and the output buffer that they find.
-/

namespace Rins
namespace Reactor

open Lib

/-- At each of these calls, the callback returns and leaves the pool and the output buffer in order,
or, where it may, ends the process. -/
def Orderly (mayExit : Prop) (cb : MsgCallback)
    (calls : Message → BufPool → ReactorBuf → Prop) : Prop :=
  ∀ m p obuf, calls m p obuf → p.Clean → obuf.Sound →
    (mayExit ∧ cb m p obuf = .error .exited) ∨
      ∃ p' obuf' effects, cb m p obuf = .ok (p', obuf', effects) ∧ p'.Clean ∧ obuf'.Sound

/-- There may be fewer calls, and more that may end the process. -/
theorem Orderly.mono {mayExit mayExit' : Prop} {cb : MsgCallback}
    {calls calls' : Message → BufPool → ReactorBuf → Prop} (h : Orderly mayExit cb calls)
    (hexit : mayExit → mayExit') (hcalls : ∀ m p obuf, calls' m p obuf → calls m p obuf) :
    Orderly mayExit' cb calls' := by
  intro m p obuf hcall hp hobuf
  exact (h m p obuf (hcalls m p obuf hcall) hp hobuf).imp_left (And.imp_left hexit)

/-- The callback of an unregistered message id: nothing is called. -/
def MsgCallback.none : MsgCallback :=
  fun _ p obuf => .ok (p, obuf, [])

theorem orderly_none (mayExit : Prop) (calls : Message → BufPool → ReactorBuf → Prop) :
    Orderly mayExit MsgCallback.none calls := by
  intro m p obuf _ hp hobuf
  exact Or.inr ⟨p, obuf, [], rfl, hp, hobuf⟩

namespace TcpConn

/-- Both buffers of the connection are sound, and a drained input buffer is a null pointer. -/
structure Sound (conn : TcpConn) : Prop where
  ibuf : conn.ibuf.Sound
  obuf : conn.obuf.Sound
  drained : conn.ibuf.content = [] → conn.ibuf = none

theorem new_sound (fd : Int) : (new fd).Sound :=
  ⟨ReactorBuf.sound_none, ReactorBuf.sound_none, fun _ => rfl⟩

theorem cleanConn_spec {p : BufPool} (hp : p.Clean) {conn : TcpConn} (hconn : conn.Sound) :
    ∃ out, cleanConn p conn = .ok out ∧ out.cleaned = true ∧ out.pool.Clean ∧
      out.conn = { connfd := -1, ibuf := none, obuf := none } := by
  rcases ReactorBuf.clear_spec hp hconn.ibuf with ⟨p₁, hclear₁, hclean₁⟩
  rcases ReactorBuf.clear_spec hclean₁ hconn.obuf with ⟨p₂, hclear₂, hclean₂⟩
  exact ⟨_, by simp [cleanConn, hclear₁, hclear₂]; rfl, rfl, hclean₂, rfl⟩

/-! ## One round of the loop -/

/-- With at least a head in the buffer, `_buf` is a block whose window is the content. -/
theorem exists_block {conn : TcpConn} (hconn : conn.Sound)
    (hlen : messageHeadLen ≤ conn.ibuf.content.length) :
    ∃ b : PoolBuf, conn.ibuf = some b ∧ b.Sound ∧ b.pending = conn.ibuf.content := by
  cases hbuf : conn.ibuf with
  | none =>
      simp [hbuf, ReactorBuf.content, messageHeadLen] at hlen
  | some b =>
      have hsound : b.Sound := by
        have := hconn.ibuf
        rw [hbuf] at this
        exact ReactorBuf.sound_some.1 this
      exact ⟨b, rfl, hsound, rfl⟩

/-- The head the loop reads is the head at the front of the content. -/
theorem peek_head {b : PoolBuf} (hb : b.Sound) (hlen : messageHeadLen ≤ b.pending.length) :
    ∃ bytes, InputBuf.peek (some b) messageHeadLen = .ok bytes ∧
      MsgHead.decode bytes = MsgHead.decode b.pending :=
  ⟨_, InputBuf.peek_spec hb hlen, MsgHead.decode_take hlen⟩

theorem parseLoop_wait (cb : MsgCallback) {rounds : Nat} {p : BufPool} {conn : TcpConn}
    (hconn : conn.Sound) (hnext : serverNext conn.ibuf.content = .wait) :
    parseLoop cb (rounds + 1) p conn =
      .ok { pool := p, conn := conn, cleaned := false, effects := [], calls := [] } := by
  have hlength := ReactorBuf.length_eq hconn.ibuf
  -- there is no whole head, or the head announces more than is there
  by_cases hshort : conn.ibuf.content.length < messageHeadLen
  · have hno : ¬ conn.ibuf.length ≥ messageHeadLen := by omega
    simp [parseLoop, hno]
  · rcases exists_block hconn (by omega) with ⟨b, hbuf, hb, hpend⟩
    rcases peek_head hb (by rw [hpend]; omega) with ⟨bytes, hpeek, hdecode⟩
    rw [hpend] at hdecode
    simp only [serverNext, hshort, if_false] at hnext
    split_ifs at hnext with hbad hpart
    have hge : conn.ibuf.length ≥ messageHeadLen := by omega
    have hok : ¬ ((MsgHead.decode bytes).length.toInt > messageLengthLimit ∨
        (MsgHead.decode bytes).length.toInt < 0) := by
      rw [hdecode]
      omega
    have hless : conn.ibuf.length < messageHeadLen + (MsgHead.decode bytes).length.toInt := by
      rw [hdecode]
      omega
    rw [← hbuf] at hpeek
    simp [parseLoop, hge, hpeek, hok, hless]

theorem parseLoop_reject (cb : MsgCallback) (rounds : Nat) {p : BufPool} (hp : p.Clean)
    {conn : TcpConn} (hconn : conn.Sound) (hnext : serverNext conn.ibuf.content = .reject) :
    ∃ out, parseLoop cb (rounds + 1) p conn = .ok out ∧ out.cleaned = true ∧ out.calls = [] ∧
      out.pool.Clean ∧ out.conn = { connfd := -1, ibuf := none, obuf := none } := by
  have hlength := ReactorBuf.length_eq hconn.ibuf
  simp only [serverNext] at hnext
  split_ifs at hnext with hshort hbad
  rcases exists_block hconn (by omega) with ⟨b, hbuf, hb, hpend⟩
  rcases peek_head hb (by rw [hpend]; omega) with ⟨bytes, hpeek, hdecode⟩
  rw [hpend] at hdecode
  rcases cleanConn_spec hp hconn with ⟨out, hclean, hcleaned, hpool, hempty⟩
  have hge : conn.ibuf.length ≥ messageHeadLen := by omega
  have hbad' : (MsgHead.decode bytes).length.toInt > messageLengthLimit ∨
      (MsgHead.decode bytes).length.toInt < 0 := by
    rw [hdecode]
    omega
  rw [← hbuf] at hpeek
  refine ⟨{ out with calls := [] }, ?_, hcleaned, rfl, hpool, hempty⟩
  simp only [parseLoop, hge, if_true, hpeek, ok_bind, hbad', hclean, pure_eq_ok]

/-- A round of the loop takes this message: the pool and `_ibuf` behind its head. -/
structure TakesHead (p : BufPool) (conn : TcpConn) (m : Message) (p₁ : BufPool)
    (ibuf₁ : ReactorBuf) : Prop where
  front : ∃ n, serverNext conn.ibuf.content = .emit m n
  pop : ReactorBuf.pop p conn.ibuf messageHeadLen = .ok (p₁, ibuf₁)

/-- A complete frame: it is dispatched from what the first `pop` has left, and the loop goes on
behind it. -/
theorem parseLoop_dispatch (cb : MsgCallback) {p : BufPool} (hp : p.Clean) {conn : TcpConn}
    (hconn : conn.Sound) {m : Message} {n : Nat}
    (hnext : serverNext conn.ibuf.content = .emit m n) :
    ∃ (p₁ : BufPool) (ibuf₁ : ReactorBuf), TakesHead p conn m p₁ ibuf₁ ∧ p₁.Clean ∧ ibuf₁.Sound ∧
      ibuf₁.content = conn.ibuf.content.drop messageHeadLen ∧
      (ibuf₁.content = [] → ibuf₁ = none) ∧
      ∀ rounds, parseLoop cb (rounds + 1) p conn = (do
        let (p, obuf, called) ← cb m p₁ conn.obuf
        let (p, ibuf) ← ReactorBuf.pop p ibuf₁ (m.body.length : Int)
        let out ← parseLoop cb rounds p { conn with ibuf := ibuf, obuf := obuf }
        return { out with effects := called ++ out.effects, calls := m :: out.calls }) := by
  have hlength := ReactorBuf.length_eq hconn.ibuf
  have hfront := hnext
  simp only [serverNext] at hnext
  split_ifs at hnext with hshort hbad hpart
  rcases exists_block hconn (by omega) with ⟨b, hbuf, hb, hpend⟩
  rcases peek_head hb (by rw [hpend]; omega) with ⟨bytes, hpeek, hdecode⟩
  rw [hpend] at hdecode
  set head := MsgHead.decode conn.ibuf.content with hhead
  cases hnext
  set k := head.length.toInt.toNat with hk
  have hcast : head.length.toInt = (k : Int) := by omega
  rcases ReactorBuf.pop_spec hp hb (n := messageHeadLen) (by rw [hpend]; omega) with
    ⟨p₁, ibuf₁, hpop₁, hclean₁, hsound₁, hcontent₁, hdrained₁⟩
  rw [hpend] at hcontent₁ hdrained₁
  have hbodylen : ((conn.ibuf.content.drop messageHeadLen).take k).length = k := by
    simp only [List.length_take, List.length_drop]
    omega
  have hk₁ : k ≤ ibuf₁.content.length := by
    rw [hcontent₁, List.length_drop]
    omega
  -- an empty body is not read, also not through a null pointer
  have hbodyAt : bodyAt ibuf₁ k = .ok ((conn.ibuf.content.drop messageHeadLen).take k) := by
    by_cases hzero : k = 0
    · simp [bodyAt, hzero]
    · cases ibuf₁ with
      | none =>
          simp only [ReactorBuf.content_none, List.length_nil] at hk₁
          omega
      | some b₁ =>
          have hne : (k : Int) ≠ 0 := by omega
          rw [ReactorBuf.content_some] at hk₁ hcontent₁
          simp only [bodyAt, hne, if_false,
            InputBuf.peek_spec (ReactorBuf.sound_some.1 hsound₁) hk₁, hcontent₁]
  refine ⟨p₁, ibuf₁, ⟨⟨_, hfront⟩, by rw [hbuf, hpop₁]⟩, hclean₁, hsound₁, hcontent₁,
    fun hnil => hdrained₁ (hcontent₁ ▸ hnil), ?_⟩
  intro rounds
  have hge : conn.ibuf.length ≥ messageHeadLen := by omega
  have hok : ¬ ((k : Int) > messageLengthLimit ∨ (k : Int) < 0) := by omega
  have hwhole : ¬ conn.ibuf.length < messageHeadLen + (k : Int) := by omega
  rw [← hbuf] at hpeek hpop₁
  simp only [parseLoop, hge, if_true, hpeek, ok_bind, hdecode, hcast, hok, if_false, hwhole, hpop₁,
    hbodyAt, hbodylen]

/-- The number of bytes a frame takes is those of its head and its body. -/
theorem emit_size {xs : List UInt8} {m : Message} {n : Nat} (hnext : serverNext xs = .emit m n) :
    n = messageHeadLen + m.body.length ∧ n ≤ xs.length := by
  simp only [serverNext] at hnext
  split_ifs at hnext with hshort hbad hpart
  cases hnext
  simp only [List.length_take, List.length_drop]
  omega

/-- A null pointer after the head: there is no body, and nothing behind it. -/
theorem drained_iff {xs : List UInt8} {m : Message} {n : Nat}
    (hnext : serverNext xs = .emit m n) :
    xs.drop messageHeadLen = [] ↔ xs.drop n = [] ∧ m.body = [] := by
  rcases emit_size hnext with ⟨hsize, hle⟩
  rw [List.drop_eq_nil_iff, List.drop_eq_nil_iff, ← List.length_eq_zero_iff]
  omega

/-! ## The calls of a callback -/

/-- From a pool and a connection, the loop of `do_read` comes to call its callback with a message,
and with the pool and the output buffer as they are by then. -/
inductive LoopCalls (cb : MsgCallback) :
    BufPool → TcpConn → Message → BufPool → ReactorBuf → Prop
  | first {p p₁ : BufPool} {conn : TcpConn} {m : Message} {ibuf₁ : ReactorBuf}
      (htakes : TakesHead p conn m p₁ ibuf₁) : LoopCalls cb p conn m p₁ conn.obuf
  /-- in a later round, behind a call that has returned -/
  | later {p p₁ p₂ p₃ p' : BufPool} {conn : TcpConn} {m m' : Message}
      {ibuf₁ ibuf₃ obuf₂ obuf' : ReactorBuf} {called : List ConnEffect}
      (htakes : TakesHead p conn m p₁ ibuf₁)
      (hcall : cb m p₁ conn.obuf = .ok (p₂, obuf₂, called))
      (hpop : ReactorBuf.pop p₂ ibuf₁ (m.body.length : Int) = .ok (p₃, ibuf₃))
      (hrest : LoopCalls cb p₃ { conn with ibuf := ibuf₃, obuf := obuf₂ } m' p' obuf') :
      LoopCalls cb p conn m' p' obuf'

/-- The same for `do_read`, which enters the loop with what it has read. -/
def ReadCalls (cb : MsgCallback) (p : BufPool) (conn : TcpConn) (sock : Socket) (m : Message)
    (p' : BufPool) (obuf' : ReactorBuf) : Prop :=
  ∃ ret p₁ ibuf, InputBuf.readData p conn.ibuf sock = .ok (ret, p₁, ibuf) ∧ ret ≠ -1 ∧ ret ≠ 0 ∧
    LoopCalls cb p₁ { conn with ibuf := ibuf } m p' obuf'

/-! ## The loop and `do_read` -/

/-- How the state after a pass relates to the residue of the reference reading. -/
def Agrees (conn : TcpConn) (cleaned : Bool) (fd : Int) : Residue UInt8 → Prop
  | .closed => cleaned = true ∧ conn = { connfd := -1, ibuf := none, obuf := none }
  | .pending tail => cleaned = false ∧ conn.connfd = fd ∧ conn.Sound ∧ conn.ibuf.content = tail

/-- All that was read are complete frames, and the last of them has no body. -/
def EndsEmpty (reading : List Message × Residue UInt8) : Prop :=
  Framing.EndsIn (fun m => m.body = []) reading

theorem not_endsEmpty_of_bodies {reading : List Message × Residue UInt8}
    (h : ∀ m ∈ reading.1, m.body ≠ []) : ¬ EndsEmpty reading := by
  rintro ⟨_, m, hlast, hempty⟩
  exact h m (List.mem_of_getLast? hlast) hempty

/-- How a piece of the server can end: where it may, the process ends; where it aborts, an
assertion fails; otherwise it returns something good. -/
def Ends {β : Type} (mayExit aborts : Prop) (good : β → Prop) (result : Except Fault β) : Prop :=
  (mayExit ∧ result = .error .exited) ∨ (aborts ∧ result = .error .assertFailed) ∨
    (¬ aborts ∧ ∃ out, result = .ok out ∧ good out)

/-- One pass of the loop is `parse` on the content of the buffer. -/
theorem parseLoop_spec {mayExit : Prop} {cb : MsgCallback} (xs : List UInt8) :
    ∀ {rounds : Nat} {p : BufPool} {conn : TcpConn}, xs.length < rounds → p.Clean → conn.Sound →
      conn.ibuf.content = xs → Orderly mayExit cb (LoopCalls cb p conn) →
      Ends mayExit (EndsEmpty (serverFraming.parse xs))
        (fun out => out.pool.Clean ∧ out.calls = (serverFraming.parse xs).1 ∧
          Agrees out.conn out.cleaned conn.connfd (serverFraming.parse xs).2)
        (parseLoop cb rounds p conn) := by
  induction xs using serverFraming.frame_induction with
  | hwait xs hnext =>
      intro rounds p conn hrounds hp hconn hcontent _
      rcases Nat.exists_eq_succ_of_ne_zero (Nat.ne_zero_of_lt hrounds) with ⟨k, rfl⟩
      have hnext' : serverNext conn.ibuf.content = .wait := by
        rw [hcontent]
        exact hnext
      rw [serverFraming.parse_wait hnext]
      right; right
      exact ⟨not_endsEmpty_of_bodies (by simp), _, parseLoop_wait cb hconn hnext', hp, rfl, rfl,
        rfl, hconn, hcontent⟩
  | hreject xs hnext =>
      intro rounds p conn hrounds hp hconn hcontent _
      rcases Nat.exists_eq_succ_of_ne_zero (Nat.ne_zero_of_lt hrounds) with ⟨k, rfl⟩
      have hnext' : serverNext conn.ibuf.content = .reject := by
        rw [hcontent]
        exact hnext
      rcases parseLoop_reject cb k hp hconn hnext' with
        ⟨out, hloop, hcleaned, hcalls, hpool, hempty⟩
      rw [serverFraming.parse_reject hnext]
      right; right
      exact ⟨not_endsEmpty_of_bodies (by simp), out, hloop, hpool, hcalls, hcleaned, hempty⟩
  | hemit xs m n hnext ih =>
      intro rounds p conn hrounds hp hconn hcontent hcb
      rcases Nat.exists_eq_succ_of_ne_zero (Nat.ne_zero_of_lt hrounds) with ⟨k, rfl⟩
      subst hcontent
      change serverNext conn.ibuf.content = .emit m n at hnext
      have hends := serverFraming.endsIn_emit (P := fun m => m.body = []) serverFraming_nil hnext
      rcases parseLoop_dispatch cb hp hconn hnext with
        ⟨p₁, ibuf₁, htakes, hclean₁, hsound₁, hcontent₁, hdrained₁, hround⟩
      rw [hround k]
      rcases hcb m p₁ conn.obuf (.first htakes) hclean₁ hconn.obuf with
        ⟨hmay, hexit⟩ | ⟨p₂, obuf₂, called, hcall, hclean₂, hobuf₂⟩
      · -- the callback ends the process
        left
        exact ⟨hmay, by simp [hexit]⟩
      · cases ibuf₁ with
        | none =>
            -- the second `pop` finds the null pointer
            have hnil : conn.ibuf.content.drop messageHeadLen = [] := hcontent₁.symm
            right; left
            refine ⟨hends.2 (Or.inl ((drained_iff hnext).1 hnil)), ?_⟩
            simp [hcall, ReactorBuf.pop]
        | some b₁ =>
            have hb₁ : b₁.Sound := ReactorBuf.sound_some.1 hsound₁
            rw [ReactorBuf.content_some] at hcontent₁
            rcases emit_size hnext with ⟨hsize, hle⟩
            have hbody : m.body.length ≤ b₁.pending.length := by
              rw [hcontent₁, List.length_drop]
              omega
            rcases ReactorBuf.pop_spec hclean₂ hb₁ hbody with
              ⟨p₃, ibuf₃, hpop₃, hclean₃, hsound₃, hcontent₃, hdrained₃⟩
            rw [hcontent₁, List.drop_drop, ← hsize] at hcontent₃ hdrained₃
            have hconn₃ : Sound { conn with ibuf := ibuf₃, obuf := obuf₂ } :=
              ⟨hsound₃, hobuf₂, fun hnil => hdrained₃ (hcontent₃ ▸ hnil)⟩
            -- the rounds are enough for the bytes that are left
            have hpos := serverFraming.emit_pos hnext
            have hfuel : (conn.ibuf.content.drop n).length < k := by
              simp only [List.length_drop]
              omega
            have hblock : ¬ (conn.ibuf.content.drop n = [] ∧ m.body = []) := by
              intro hdrained
              have hnil := (drained_iff hnext).2 hdrained
              have hnone := hdrained₁ (by rw [ReactorBuf.content_some, hcontent₁, hnil])
              cases hnone
            -- the calls from here on are those of later rounds
            have hcb₃ : Orderly mayExit cb
                (LoopCalls cb p₃ { conn with ibuf := ibuf₃, obuf := obuf₂ }) :=
              hcb.mono id fun _ _ _ hlater => .later htakes hcall hpop₃ hlater
            rcases ih hfuel hclean₃ hconn₃ hcontent₃ hcb₃ with
              ⟨hmay, hexit⟩ | ⟨hlater, habort⟩ | ⟨hlater, out, hloop, hpool, hcalls, hagrees⟩
            · left
              exact ⟨hmay, by simp [hcall, hpop₃, hexit]⟩
            · right; left
              exact ⟨hends.2 (Or.inr hlater), by simp [hcall, hpop₃, habort]⟩
            · right; right
              refine ⟨fun hnow => ?_,
                { out with effects := called ++ out.effects, calls := m :: out.calls }, ?_, hpool,
                ?_, ?_⟩
              · rcases hends.1 hnow with hdrained | hrest
                · exact hblock hdrained
                · exact hlater hrest
              · simp [hcall, hpop₃, hloop]
              · rw [serverFraming.parse_emit hnext, hcalls]
              · rw [serverFraming.parse_emit hnext]
                exact hagrees

/-- Between two events: the buffers are sound and the input window starts at offset 0. -/
structure AtRest (conn : TcpConn) : Prop where
  sound : conn.Sound
  front : conn.ibuf.Resting

theorem new_atRest (fd : Int) : (new fd).AtRest :=
  ⟨new_sound fd, ReactorBuf.resting_none⟩

/-- What holds between two events after the reference reading left `r` over. -/
def Kept (conn : TcpConn) (cleaned : Bool) (fd : Int) : Residue UInt8 → Prop
  | .closed => cleaned = true ∧ conn = { connfd := -1, ibuf := none, obuf := none }
  | .pending tail => cleaned = false ∧ conn.connfd = fd ∧ conn.AtRest ∧ conn.ibuf.content = tail

/-- One `do_read` on a reported chunk feeds the chunk to the reference reading. -/
theorem doRead_ends {mayExit : Prop} {cb : MsgCallback} {p : BufPool} (hp : p.Clean)
    (hcap : ¬ p.BelowCap → mayExit) {conn : TcpConn} (hconn : conn.AtRest) {chunk : List UInt8}
    (hne : chunk ≠ []) (hfit : conn.ibuf.content.length + chunk.length ≤ 8388608) {eintrs : Nat}
    (hcb : Orderly mayExit cb (ReadCalls cb p conn (Socket.ofChunk chunk eintrs))) :
    Ends mayExit (EndsEmpty (serverFraming.feed (.pending conn.ibuf.content) chunk))
      (fun out => out.pool.Clean ∧
        out.calls = (serverFraming.feed (.pending conn.ibuf.content) chunk).1 ∧
        Kept out.conn out.cleaned conn.connfd
          (serverFraming.feed (.pending conn.ibuf.content) chunk).2)
      (doRead cb p conn (Socket.ofChunk chunk eintrs)) := by
  rcases InputBuf.readData_spec hp hconn.front hne hfit eintrs with
    ⟨hfull, hexit⟩ | ⟨p₁, b, hread, hclean₁, hb, hhead, hpend⟩
  · left
    exact ⟨hcap hfull, by simp [doRead, hexit]⟩
  have hlenne : (chunk.length : Int) ≠ 0 := by
    simpa using hne
  have hne1 : ((chunk.length : Int)) ≠ -1 := by omega
  -- `do_read` makes no other calls than its loop
  have hcb₁ : Orderly mayExit cb (LoopCalls cb p₁ { conn with ibuf := some b }) :=
    hcb.mono id fun _ _ _ hcall => ⟨_, p₁, some b, hread, hne1, hlenne, hcall⟩
  have hsound₁ : Sound { conn with ibuf := some b } := by
    refine ⟨ReactorBuf.sound_some.2 hb, hconn.sound.obuf, ?_⟩
    intro hnil
    simp [ReactorBuf.content, hpend, hne] at hnil
  have hrounds : (conn.ibuf.content ++ chunk).length < b.length.toNat + 1 := by
    rw [← hpend, IoBuf.length_pending]
    omega
  simp only [Framing.feed]
  rcases parseLoop_spec (conn.ibuf.content ++ chunk) hrounds hclean₁ hsound₁
      (by simp [ReactorBuf.content, hpend]) hcb₁ with
    ⟨hmay, hexit⟩ | ⟨hempty, habort⟩ | ⟨hbody, out, hloop, hpool, hcalls, hagrees⟩
  · left
    refine ⟨hmay, ?_⟩
    simp only [doRead, hread, ok_bind, hne1, if_false, hlenne, ReactorBuf.length, hexit, error_bind]
  · right; left
    refine ⟨hempty, ?_⟩
    simp only [doRead, hread, ok_bind, hne1, if_false, hlenne, ReactorBuf.length, habort,
      error_bind]
  right; right
  refine ⟨hbody, ?_⟩
  cases hres : (serverFraming.parse (conn.ibuf.content ++ chunk)).2 with
  | closed =>
      rw [hres] at hagrees
      -- `clean_conn` has left no block to adjust
      rcases hagrees with ⟨hcleaned, hempty⟩
      refine ⟨out, ?_, hpool, hcalls, hcleaned, hempty⟩
      simp only [doRead, hread, ok_bind, hne1, if_false, hlenne, ReactorBuf.length, hloop, hempty,
        InputBuf.adjust, pure_eq_ok]
      rw [← hempty]
  | pending tail =>
      rw [hres] at hagrees
      rcases hagrees with ⟨hcleaned, hfd, hsound, htail⟩
      rcases InputBuf.adjust_spec hsound.ibuf with ⟨ibuf', hadj, hrest, hcontent, hnone⟩
      refine ⟨{ out with conn := { out.conn with ibuf := ibuf' } }, ?_, hpool, hcalls, hcleaned,
        hfd, ?_, by simp [hcontent, htail]⟩
      · simp only [doRead, hread, ok_bind, hne1, if_false, hlenne, ReactorBuf.length, hloop, hadj,
          pure_eq_ok]
      · refine ⟨⟨?_, hsound.obuf, ?_⟩, hrest⟩
        · intro b' hb'
          exact (hrest b' hb').1
        · intro hnil
          exact hnone (hsound.drained (by rw [← hcontent]; exact hnil))

/-- With bodies, below the cap, and with a callback that returns, `do_read` returns. -/
theorem doRead_spec {cb : MsgCallback} {p : BufPool} (hp : p.Serviceable) {conn : TcpConn}
    (hconn : conn.AtRest) {chunk : List UInt8} (hne : chunk ≠ [])
    (hfit : conn.ibuf.content.length + chunk.length ≤ 8388608) {eintrs : Nat}
    (hcb : Orderly False cb (ReadCalls cb p conn (Socket.ofChunk chunk eintrs)))
    (hbodies : ∀ m ∈ (serverFraming.feed (.pending conn.ibuf.content) chunk).1, m.body ≠ []) :
    ∃ out, doRead cb p conn (Socket.ofChunk chunk eintrs) = .ok out ∧ out.pool.Clean ∧
      out.calls = (serverFraming.feed (.pending conn.ibuf.content) chunk).1 ∧
      Kept out.conn out.cleaned conn.connfd
        (serverFraming.feed (.pending conn.ibuf.content) chunk).2 := by
  rcases doRead_ends hp.clean (fun hfull => hfull hp.belowCap) hconn hne hfit hcb with
    ⟨hmay, _⟩ | ⟨hempty, _⟩ | ⟨_, hgood⟩
  · exact hmay.elim
  · exact absurd hempty (not_endsEmpty_of_bodies hbodies)
  · exact hgood

/-! ## Runs -/

/-- One readiness event: the pool as the rest of the process left it, and the chunk that `FIONREAD`
and, after some interruptions, `read` report. -/
structure Arrival where
  pool : BufPool
  chunk : List UInt8
  eintrs : Nat

/-- The stream that arrives. -/
def Arrival.stream (as : List Arrival) : List UInt8 :=
  (as.map Arrival.chunk).flatten

/-- The longest chunk that fits an 8 MiB block behind an incomplete message. -/
def maxChunk : Nat := 8388608 - 65535

/-- Successive calls of `do_read`, until `clean_conn` has taken the descriptor out of the event
loop: the connection, the messages dispatched and whether `clean_conn` was called. -/
def readRun (cb : MsgCallback) :
    TcpConn → List Arrival → Except Fault (TcpConn × List Message × Bool)
  | conn, [] => .ok (conn, [], false)
  | conn, a :: as => do
      let out ← doRead cb a.pool conn (Socket.ofChunk a.chunk a.eintrs)
      if out.cleaned then
        return (out.conn, out.calls, true)
      else
        let (conn, calls, cleaned) ← readRun cb out.conn as
        return (conn, out.calls ++ calls, cleaned)

/-- The calls of the callback in such a run. -/
inductive RunCalls (cb : MsgCallback) :
    TcpConn → List Arrival → Message → BufPool → ReactorBuf → Prop
  | first {conn : TcpConn} {a : Arrival} {as : List Arrival} {m : Message} {p : BufPool}
      {obuf : ReactorBuf}
      (hcall : ReadCalls cb a.pool conn (Socket.ofChunk a.chunk a.eintrs) m p obuf) :
      RunCalls cb conn (a :: as) m p obuf
  | later {conn : TcpConn} {a : Arrival} {as : List Arrival} {out : ReadOutcome} {m : Message}
      {p : BufPool} {obuf : ReactorBuf}
      (hread : doRead cb a.pool conn (Socket.ofChunk a.chunk a.eintrs) = .ok out)
      (hopen : out.cleaned = false) (hrest : RunCalls cb out.conn as m p obuf) :
      RunCalls cb conn (a :: as) m p obuf

/-- Bytes the server waits on are fewer than a head and the longest body. -/
theorem length_lt_of_wait {xs : List UInt8} (h : serverFraming.next xs = .wait) :
    xs.length < 65535 := by
  change serverNext xs = .wait at h
  simp only [serverNext] at h
  split_ifs at h with hshort hbad hpart <;> simp only [messageHeadLen, messageLengthLimit] at * <;>
    omega

/-- The reading has come to an end of a chunk with a frame that has no body. -/
def AbortsIn (r : Residue UInt8) (chunks : List (List UInt8)) : Prop :=
  ∃ pre, pre <+: chunks ∧ EndsEmpty (serverFraming.feedAll r pre)

theorem abortsIn_nil (tail : List UInt8) : ¬ AbortsIn (.pending tail) [] := by
  rintro ⟨pre, hpre, hends⟩
  rw [List.prefix_nil.1 hpre] at hends
  exact not_endsEmpty_of_bodies (by simp [Framing.feedAll]) hends

theorem abortsIn_cons (r : Residue UInt8) (chunk : List UInt8) {chunks : List (List UInt8)}
    (hne : ∀ c ∈ chunks, c ≠ []) (hr : ¬ EndsEmpty (([], r) : List Message × Residue UInt8)) :
    AbortsIn r (chunk :: chunks) ↔ EndsEmpty (serverFraming.feed r chunk) ∨
      AbortsIn (serverFraming.feed r chunk).2 chunks := by
  have hcons : ∀ pre, pre <+: chunks →
      (EndsEmpty (serverFraming.feedAll r (chunk :: pre)) ↔
        (pre = [] ∧ EndsEmpty (serverFraming.feed r chunk)) ∨
          EndsEmpty (serverFraming.feedAll (serverFraming.feed r chunk).2 pre)) := by
    intro pre hpre
    exact serverFraming.endsIn_feedAll_cons fun c hc => hne c (hpre.subset hc)
  constructor
  · rintro ⟨pre, hpre, hends⟩
    rcases List.prefix_cons_iff.1 hpre with rfl | ⟨rest, rfl, hrest⟩
    · exact absurd hends hr
    · rcases (hcons rest hrest).1 hends with ⟨_, hnow⟩ | hlater
      · exact Or.inl hnow
      · exact Or.inr ⟨rest, hrest, hlater⟩
  · rintro (hnow | ⟨rest, hrest, hlater⟩)
    · exact ⟨[chunk], List.prefix_cons_iff.2 (Or.inr ⟨[], rfl, List.nil_prefix⟩),
        (hcons [] List.nil_prefix).2 (Or.inl ⟨rfl, hnow⟩)⟩
    · exact ⟨chunk :: rest, List.prefix_cons_iff.2 (Or.inr ⟨rest, rfl, hrest⟩),
        (hcons rest hrest).2 (Or.inr hlater)⟩

theorem not_abortsIn_closed (chunks : List (List UInt8)) : ¬ AbortsIn .closed chunks := by
  rintro ⟨pre, _, hclosed, _⟩
  rw [serverFraming.feedAll_closed] at hclosed
  cases hclosed

theorem not_endsEmpty_nil (r : Residue UInt8) :
    ¬ EndsEmpty (([], r) : List Message × Residue UInt8) :=
  not_endsEmpty_of_bodies (by simp)

/-- A run of `do_read` feeds the chunks to the reference reading, one after the other. -/
theorem readRun_ends {mayExit : Prop} {cb : MsgCallback} (as : List Arrival) :
    ∀ {conn : TcpConn}, conn.AtRest → serverFraming.next conn.ibuf.content = .wait →
      (∀ a ∈ as, a.pool.Clean ∧ (¬ a.pool.BelowCap → mayExit) ∧ a.chunk ≠ [] ∧
        a.chunk.length ≤ maxChunk) →
      Orderly mayExit cb (RunCalls cb conn as) →
      Ends mayExit (AbortsIn (.pending conn.ibuf.content) (as.map Arrival.chunk))
        (fun out => out.2.1 =
            (serverFraming.feedAll (.pending conn.ibuf.content) (as.map Arrival.chunk)).1 ∧
          Kept out.1 out.2.2 conn.connfd
            (serverFraming.feedAll (.pending conn.ibuf.content) (as.map Arrival.chunk)).2)
        (readRun cb conn as) := by
  induction as with
  | nil =>
      intro conn hconn _ _ _
      right; right
      exact ⟨abortsIn_nil _, (conn, [], false), rfl, rfl, rfl, rfl, hconn, rfl⟩
  | cons a as ih =>
      intro conn hconn hwait harr hcb
      rcases harr a (by simp) with ⟨hclean, hcap, hne, hmax⟩
      have hshort := length_lt_of_wait hwait
      have hfit : conn.ibuf.content.length + a.chunk.length ≤ 8388608 := by
        simp only [maxChunk] at hmax
        omega
      have hrestne : ∀ c ∈ as.map Arrival.chunk, c ≠ [] := by
        intro c hc
        rcases List.mem_map.1 hc with ⟨a', ha', rfl⟩
        exact (harr a' (by simp [ha'])).2.2.1
      have haborts := abortsIn_cons (.pending conn.ibuf.content) a.chunk hrestne
        (not_endsEmpty_nil _)
      rw [← List.map_cons] at haborts
      rcases doRead_ends hclean hcap hconn hne hfit (hcb.mono id fun _ _ _ => .first) with
        ⟨hmay, hexit⟩ | ⟨hnow, habort⟩ | ⟨hnow, out, hread, _, hcalls, hkept⟩
      · left
        exact ⟨hmay, by simp [readRun, hexit]⟩
      · right; left
        exact ⟨haborts.2 (Or.inl hnow), by simp [readRun, habort]⟩
      simp only [List.map_cons, Framing.feedAll] at haborts ⊢
      cases hres : (serverFraming.feed (.pending conn.ibuf.content) a.chunk).2 with
      | closed =>
          -- nothing is read after `clean_conn`, and nothing is parsed after `reject`
          rw [hres] at hkept haborts
          have hrest : serverFraming.feedAll .closed (as.map Arrival.chunk) = ([], .closed) :=
            serverFraming.feedAll_closed _
          right; right
          refine ⟨fun h => ?_, (out.conn, out.calls, true), ?_, by simp [hcalls, hrest],
            by simpa [hrest] using ⟨rfl, hkept.2⟩⟩
          · rcases haborts.1 h with hagain | hlater
            · exact hnow hagain
            · exact not_abortsIn_closed _ hlater
          · simp [readRun, hread, hkept.1]
      | pending tail =>
          rw [hres] at hkept haborts
          rcases hkept with ⟨hcleaned, hfd, hrest, htail⟩
          -- what was kept is short, so that the next chunk fits as well
          have hwait' : serverFraming.next out.conn.ibuf.content = .wait := by
            rw [htail]
            exact serverFraming.next_of_parse_pending _ hres
          have hih := ih hrest hwait' (fun a' ha' => harr a' (by simp [ha']))
            (hcb.mono id fun _ _ _ => .later hread hcleaned)
          rw [htail] at hih
          rcases hih with ⟨hmay, hexit⟩ | ⟨hlater, habort⟩ | ⟨hlater, out', hrun, hcalls', hkept'⟩
          · left
            exact ⟨hmay, by simp [readRun, hread, hcleaned, hexit]⟩
          · right; left
            exact ⟨haborts.2 (Or.inr hlater), by simp [readRun, hread, hcleaned, habort]⟩
          · right; right
            refine ⟨fun h => ?_, (out'.1, out.calls ++ out'.2.1, out'.2.2), ?_,
              by simp [hcalls, hcalls'], by rw [← hfd]; exact hkept'⟩
            · rcases haborts.1 h with hagain | hrest'
              · exact hnow hagain
              · exact hlater hrest'
            · simp [readRun, hread, hcleaned, hrun]

/-- With bodies, below the cap, and with a callback that returns, the run returns. -/
theorem readRun_spec {cb : MsgCallback} {as : List Arrival} {conn : TcpConn} (hconn : conn.AtRest)
    (hwait : serverFraming.next conn.ibuf.content = .wait)
    (hcb : Orderly False cb (RunCalls cb conn as))
    (harr : ∀ a ∈ as, a.pool.Serviceable ∧ a.chunk ≠ [] ∧ a.chunk.length ≤ maxChunk)
    (hbodies : ∀ m ∈
      (serverFraming.feedAll (.pending conn.ibuf.content) (as.map Arrival.chunk)).1, m.body ≠ []) :
    ∃ conn' cleaned,
      readRun cb conn as = .ok (conn',
        (serverFraming.feedAll (.pending conn.ibuf.content) (as.map Arrival.chunk)).1, cleaned) ∧
      Kept conn' cleaned conn.connfd
        (serverFraming.feedAll (.pending conn.ibuf.content) (as.map Arrival.chunk)).2 := by
  have harr' : ∀ a ∈ as, a.pool.Clean ∧ (¬ a.pool.BelowCap → False) ∧ a.chunk ≠ [] ∧
      a.chunk.length ≤ maxChunk := by
    intro a ha
    rcases harr a ha with ⟨hpool, hrest⟩
    exact ⟨hpool.clean, fun hfull => hfull hpool.belowCap, hrest⟩
  rcases readRun_ends as hconn hwait harr' hcb with
    ⟨hmay, _⟩ | ⟨⟨pre, hpre, hends⟩, _⟩ | ⟨_, ⟨conn', calls, cleaned⟩, hrun, hcalls, hkept⟩
  · exact hmay.elim
  · -- the frames of a part of the stream are among those of the whole
    refine absurd hends (not_endsEmpty_of_bodies fun m hm => hbodies m ?_)
    rcases hpre with ⟨rest, hsplit⟩
    rw [← hsplit, Framing.feedAll_append]
    simp [hm]
  · exact ⟨conn', cleaned, by rw [hrun]; exact congrArg _ (by rw [← hcalls]), hkept⟩

/-- Segmentation does not matter.  Whatever bytes a peer sends, as long as no complete frame has an
empty body, and however they are cut into chunks: the run of `do_read` dispatches exactly the
messages of the reference reading, calls `clean_conn` exactly when that reading closes, and
otherwise keeps in `_ibuf` the bytes that reading has left over, at offset 0 (a null pointer if
there are none).  The callback is to return from the calls that are made in the run. -/
theorem readRun_eq_parse (cb : MsgCallback) (fd : Int) (as : List Arrival)
    (hcb : Orderly False cb (RunCalls cb (new fd) as))
    (harr : ∀ a ∈ as, a.pool.Serviceable ∧ a.chunk ≠ [] ∧ a.chunk.length ≤ maxChunk)
    (hbodies : ∀ m ∈ (serverFraming.parse (Arrival.stream as)).1, m.body ≠ []) :
    ∃ conn cleaned,
      readRun cb (new fd) as =
        .ok (conn, (serverFraming.parse (Arrival.stream as)).1, cleaned) ∧
      (cleaned = true ↔ (serverFraming.parse (Arrival.stream as)).2 = .closed) ∧
      (cleaned = true → conn = { connfd := -1, ibuf := none, obuf := none }) ∧
      ∀ tail, (serverFraming.parse (Arrival.stream as)).2 = .pending tail →
        conn.connfd = fd ∧ conn.ibuf.content = tail ∧ tail.length < 65535 ∧
        (tail = [] → conn.ibuf = none) ∧ ∀ b, conn.ibuf = some b → b.head = 0 ∧ b.Valid := by
  have hparse : serverFraming.feedAll (.pending []) (as.map Arrival.chunk) =
      serverFraming.parse (Arrival.stream as) :=
    serverFraming.feedAll_eq_parse serverFraming_nil _
  rcases readRun_spec (new_atRest fd) serverFraming_nil hcb harr
      (by simpa [new, hparse] using hbodies) with ⟨conn, cleaned, hrun, hkept⟩
  simp only [new, ReactorBuf.content_none, hparse] at hrun hkept
  refine ⟨conn, cleaned, hrun, ?_⟩
  cases hres : (serverFraming.parse (Arrival.stream as)).2 with
  | closed =>
      rw [hres] at hkept
      simp [hkept.1, hkept.2]
  | pending tail =>
      rw [hres] at hkept
      rcases hkept with ⟨hcleaned, hfd, hrest, hcontent⟩
      refine ⟨by simp [hcleaned], by simp [hcleaned], ?_⟩
      intro tail' htail'
      cases htail'
      have hwait : serverFraming.next tail = .wait := serverFraming.next_of_parse_pending _ hres
      refine ⟨hfd, hcontent, length_lt_of_wait hwait, ?_, ?_⟩
      · intro hnil
        exact hrest.sound.drained (by rw [hcontent, hnil])
      · intro b hb
        rcases hrest.front b hb with ⟨hsound, hhead⟩
        exact ⟨hhead, hsound.valid⟩

/-- A one-byte message cut inside its head, the second part read after an interruption. -/
theorem readRun_eq_parse_split :
    ∃ conn,
      readRun MsgCallback.none (new 5)
        [{ pool := BufPool.init, chunk := [1, 0, 0, 0, 1], eintrs := 0 },
          { pool := BufPool.init, chunk := [0, 0, 0, 7], eintrs := 1 }] =
        .ok (conn, [Message.of 1 [7]], false) ∧ conn.ibuf = none := by
  have hstream : Arrival.stream
      [{ pool := BufPool.init, chunk := [1, 0, 0, 0, 1], eintrs := 0 },
        { pool := BufPool.init, chunk := [0, 0, 0, 7], eintrs := 1 }] =
      [Message.of 1 [7]].flatMap Message.encode := rfl
  have hparse : serverFraming.parse ([Message.of 1 [7]].flatMap Message.encode) =
      ([Message.of 1 [7]], .pending []) := by
    apply serverFraming.parse_encode _ serverFraming_nil
    intro m hm
    rw [List.mem_singleton] at hm
    subst hm
    exact serverFraming_encode (Message.of_wellFormed (by decide))
  have harr := readRun_eq_parse MsgCallback.none 5
    [{ pool := BufPool.init, chunk := [1, 0, 0, 0, 1], eintrs := 0 },
      { pool := BufPool.init, chunk := [0, 0, 0, 7], eintrs := 1 }] (orderly_none _ _)
    (by simp [BufPool.init_serviceable, maxChunk])
    (by
      rw [hstream, hparse]
      simp [Message.of])
  rw [hstream, hparse] at harr
  rcases harr with ⟨conn, cleaned, hrun, hclosed, _, hpending⟩
  have hopen : cleaned = false := by
    simpa using hclosed
  rcases hpending [] rfl with ⟨_, _, _, hnull, _⟩
  exact ⟨conn, by rw [hrun, hopen], hnull rfl⟩

/-! ## Which streams abort the server -/

/-- Some chunk ends right behind a frame without a body. -/
def EndsBehindEmptyBody (as : List Arrival) : Prop :=
  ∃ pre, pre <+: as ∧ EndsEmpty (serverFraming.parse (Arrival.stream pre))

theorem abortsIn_iff (as : List Arrival) :
    AbortsIn (.pending []) (as.map Arrival.chunk) ↔ EndsBehindEmptyBody as := by
  have hparse : ∀ pre : List Arrival, serverFraming.feedAll (.pending []) (pre.map Arrival.chunk) =
      serverFraming.parse (Arrival.stream pre) :=
    fun pre => serverFraming.feedAll_eq_parse serverFraming_nil _
  constructor
  · rintro ⟨chunks, ⟨rest, hsplit⟩, hends⟩
    rcases List.map_eq_append_iff.1 hsplit.symm with ⟨pre, post, rfl, rfl, _⟩
    exact ⟨pre, List.prefix_append _ _, by rw [← hparse]; exact hends⟩
  · rintro ⟨pre, hpre, hends⟩
    exact ⟨pre.map Arrival.chunk, hpre.map _, by rw [hparse]; exact hends⟩

/-- Whatever bytes a peer sends and however they are cut: as long as no chunk ends right behind a
frame without a body, no `do_read` of the run fails an assertion, also when the pool is at its cap
or the callback ends the process.  If one does, and neither of these happens, an assertion fails. -/
theorem readRun_assert_iff (mayExit : Prop) (cb : MsgCallback) (fd : Int) (as : List Arrival)
    (hcb : Orderly mayExit cb (RunCalls cb (new fd) as))
    (harr : ∀ a ∈ as, a.pool.Clean ∧ a.chunk ≠ [] ∧ a.chunk.length ≤ maxChunk) :
    (¬ EndsBehindEmptyBody as → readRun cb (new fd) as ≠ .error .assertFailed) ∧
    (¬ mayExit → (∀ a ∈ as, a.pool.BelowCap) →
      readRun cb (new fd) as ≠ .error .assertFailed → ¬ EndsBehindEmptyBody as) := by
  -- the process may end in the callback or at the cap
  have hcb' : Orderly (mayExit ∨ ∃ a ∈ as, ¬ a.pool.BelowCap) cb (RunCalls cb (new fd) as) :=
    hcb.mono Or.inl fun _ _ _ => id
  have hends := readRun_ends as (new_atRest fd) serverFraming_nil (fun a ha =>
    ⟨(harr a ha).1, fun hfull => Or.inr ⟨a, ha, hfull⟩, (harr a ha).2⟩) hcb'
  simp only [new, ReactorBuf.content_none, abortsIn_iff] at hends
  constructor
  · intro hbody hassert
    rcases hends with ⟨_, hexit⟩ | ⟨hempty, _⟩ | ⟨_, out, hrun, _⟩
    · exact absurd (hassert.symm.trans hexit) (by simp)
    · exact hbody hempty
    · exact absurd (hassert.symm.trans hrun) (by simp)
  · intro hstay hbelow hassert hempty
    rcases hends with ⟨hmay | ⟨a, ha, hfull⟩, _⟩ | ⟨_, habort⟩ | ⟨hbody, _⟩
    · exact hstay hmay
    · exact hfull (hbelow a ha)
    · exact hassert habort
    · exact hbody hempty

/-- The head of a message without a body, and after it the first half of another head. -/
theorem readRun_assert_iff_halfHead :
    readRun MsgCallback.none (new 5)
      [{ pool := BufPool.init, chunk := [1, 0, 0, 0, 0, 0, 0, 0, 1, 0, 0, 0], eintrs := 0 }] ≠
        .error .assertFailed := by
  have hparse : serverFraming.parse [1, 0, 0, 0, 0, 0, 0, 0, 1, 0, 0, 0] =
      ([Message.of 1 []], .pending [1, 0, 0, 0]) := by
    rw [serverFraming.parse_emit (m := Message.of 1 []) (n := 8) (by decide),
      serverFraming.parse_wait (by decide)]
    rfl
  have hnot : ¬ EndsBehindEmptyBody
      [{ pool := BufPool.init, chunk := [1, 0, 0, 0, 0, 0, 0, 0, 1, 0, 0, 0], eintrs := 0 }] := by
    rintro ⟨pre, hpre, hends⟩
    rcases List.prefix_cons_iff.1 hpre with rfl | ⟨rest, rfl, hrest⟩
    · rw [Arrival.stream, List.map_nil, List.flatten_nil,
        serverFraming.parse_wait serverFraming_nil] at hends
      exact not_endsEmpty_nil _ hends
    · rw [List.prefix_nil.1 hrest] at hends
      have htail := hends.1
      simp [Arrival.stream, hparse] at htail
  exact (readRun_assert_iff False MsgCallback.none 5 _ (orderly_none _ _)
    (by simp [BufPool.init_clean, maxChunk])).1 hnot

/-- The head of a message without a body, and nothing after it. -/
theorem readRun_asserts :
    ¬ ∀ (cb : MsgCallback) (fd : Int) (as : List Arrival),
      Orderly False cb (RunCalls cb (new fd) as) →
      (∀ a ∈ as, a.pool.Serviceable ∧ a.chunk ≠ [] ∧ a.chunk.length ≤ maxChunk) →
      readRun cb (new fd) as ≠ .error .assertFailed := by
  intro hall
  refine hall MsgCallback.none 5
    [{ pool := BufPool.init, chunk := [1, 0, 0, 0, 0, 0, 0, 0], eintrs := 0 }] (orderly_none _ _)
    (by simp [BufPool.init_serviceable, maxChunk]) ?_
  have hends : Framing.EndsIn (fun m : Message => m.body = [])
      (serverFraming.parse [1, 0, 0, 0, 0, 0, 0, 0]) := by
    rw [serverFraming.parse_emit (m := Message.of 1 []) (n := 8) (by decide),
      serverFraming.parse_wait (by decide)]
    exact ⟨rfl, _, rfl, rfl⟩
  have hne : ([1, 0, 0, 0, 0, 0, 0, 0] : List UInt8) ≠ [] := by simp
  have hcb := orderly_none False (ReadCalls MsgCallback.none BufPool.init (new 5)
    (Socket.ofChunk [1, 0, 0, 0, 0, 0, 0, 0] 0))
  rcases doRead_ends BufPool.init_clean (fun hfull => hfull BufPool.init_serviceable.belowCap)
      (new_atRest 5) hne (by simp [new]) hcb with
    ⟨hmay, _⟩ | ⟨_, habort⟩ | ⟨hnot, _⟩
  · exact hmay.elim
  · simp [readRun, habort]
  · exact absurd hends hnot

end TcpConn
end Reactor
end Rins
