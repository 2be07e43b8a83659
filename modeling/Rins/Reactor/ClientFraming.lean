import Rins.Reactor.TcpClient

/-!
# ClientFraming — `tcp_client::do_read` and the segments it is given

The client's loop takes a head off `_ibuf` and calls the router at once, without looking whether the
body has arrived (`tcp_conn::do_read` does look).  So what is dispatched depends on how the stream
was cut: it is the list of messages exactly if no read ends between the end of a head and the end of
the body that belongs to it.

* `parseLoop_spec` : one pass over a buffer that ends at a harmless place;
* `parseLoop_cut`  : one pass over a buffer that ends inside a body;
* `readRun_spec`   : a whole run.

As on the side of the server, a callback has to return only from the calls that the run makes.
-/

namespace Rins
namespace Reactor

/-- The message callback returns from each of these calls. -/
def Returning (cbs : ClientCallbacks) (calls : ClientCall → IoBuf → Prop) : Prop :=
  ∀ call obuf, calls call obuf → ∃ obuf' effects, cbs.message call obuf = .ok (obuf', effects)

theorem Returning.mono {cbs : ClientCallbacks} {calls calls' : ClientCall → IoBuf → Prop}
    (h : Returning cbs calls) (hcalls : ∀ call obuf, calls' call obuf → calls call obuf) :
    Returning cbs calls' :=
  fun call obuf hcall => h call obuf (hcalls call obuf hcall)

theorem returning_none (calls : ClientCall → IoBuf → Prop) :
    Returning ClientCallbacks.none calls :=
  fun _ obuf _ => ⟨obuf, [], rfl⟩

/-- The message a call hands over, if `_ibuf` holds the whole of its body. -/
def ClientCall.message (call : ClientCall) : Option Message :=
  if 0 ≤ call.length.toInt ∧ call.length.toInt ≤ call.avail.length then
    some
      { id := call.id
        length := call.length
        body := call.avail.take call.length.toInt.toNat }
  else
    none

namespace TcpClient

/-- One chunk of the stream as `do_read` meets it: how often `read` is interrupted first, and what
the kernel would answer to a reconnection. -/
structure Segment where
  chunk : List UInt8
  eintrs : Nat
  reconnect : ConnectAnswer

/-- `do_read` on each segment in turn, with the calls made. -/
def readRun (cbs : ClientCallbacks) (rounds : Nat) :
    TcpClient → List Segment → Except Fault (TcpClient × List ClientCall)
  | cli, [] => .ok (cli, [])
  | cli, seg :: segs => do
      let out ← cli.doRead cbs rounds (Socket.ofChunk seg.chunk seg.eintrs) seg.reconnect
      let (cli, calls) ← readRun cbs rounds out.client segs
      return (cli, out.calls ++ calls)

/-- A round of the loop takes a head off `_ibuf` and makes this call. -/
def TakesHead (cli : TcpClient) (call : ClientCall) : Prop :=
  cli.ibuf.length ≥ messageHeadLen ∧ ∃ bytes,
    cli.ibuf.load cli.ibuf.head messageHeadLen = .ok bytes ∧
    call = {
      id := (MsgHead.decode bytes).id
      length := (MsgHead.decode bytes).length
      avail := (cli.ibuf.pop messageHeadLen).pending }

/-- The loop of `do_read` comes to this call, which finds this `_obuf`. -/
inductive LoopCalls (cbs : ClientCallbacks) : TcpClient → ClientCall → IoBuf → Prop
  | first {cli : TcpClient} {call : ClientCall} (htakes : TakesHead cli call) :
      LoopCalls cbs cli call cli.obuf
  /-- in a later round, behind a call that has returned -/
  | later {cli : TcpClient} {call call' : ClientCall} {obuf obuf' : IoBuf}
      {called : List ClientEffect} (htakes : TakesHead cli call)
      (hcall : cbs.message call cli.obuf = .ok (obuf, called))
      (hrest : LoopCalls cbs { cli with
        ibuf := (cli.ibuf.pop messageHeadLen).pop call.length.toInt
        obuf := obuf } call' obuf') :
      LoopCalls cbs cli call' obuf'

/-- The same for `do_read`, which enters the loop with what it has read. -/
def ReadCalls (cbs : ClientCallbacks) (cli : TcpClient) (sock : Socket) (call : ClientCall)
    (obuf : IoBuf) : Prop :=
  ∃ needRead bs ibuf, sock.fionread = some needRead ∧ readRet needRead sock.read = some bs ∧
    bs ≠ [] ∧ cli.ibuf.append bs = .ok ibuf ∧ LoopCalls cbs { cli with ibuf := ibuf } call obuf

/-- The calls in a run. -/
inductive RunCalls (cbs : ClientCallbacks) :
    TcpClient → List Segment → ClientCall → IoBuf → Prop
  | first {cli : TcpClient} {seg : Segment} {segs : List Segment} {call : ClientCall}
      {obuf : IoBuf}
      (hcall : ReadCalls cbs cli (Socket.ofChunk seg.chunk seg.eintrs) call obuf) :
      RunCalls cbs cli (seg :: segs) call obuf
  | later {cli : TcpClient} {seg : Segment} {segs : List Segment} {call : ClientCall}
      {obuf : IoBuf} {rounds : Nat} {out : ReadOutcome}
      (hread : cli.doRead cbs rounds (Socket.ofChunk seg.chunk seg.eintrs) seg.reconnect = .ok out)
      (hrest : RunCalls cbs out.client segs call obuf) :
      RunCalls cbs cli (seg :: segs) call obuf

/-- Each chunk fits the free space it finds in `_ibuf`. -/
def Fits (cbs : ClientCallbacks) : TcpClient → List Segment → Prop
  | _, [] => True
  | cli, seg :: segs =>
      (seg.chunk.length : Int) ≤ cli.ibuf.capacity - cli.ibuf.length ∧
      ∀ rounds out,
        cli.doRead cbs rounds (Socket.ofChunk seg.chunk seg.eintrs) seg.reconnect = .ok out →
        Fits cbs out.client segs

/-- Position `p` of the encoded messages is not between the end of a head and the end of its
body. -/
def cutOk : List Message → Nat → Prop
  | [], _ => True
  | m :: ms, p =>
      p < messageHeadLen ∨
        (m.encode.length ≤ p ∧ cutOk ms (p - m.encode.length))

/-- Every segment, the first starting at position `p`, ends at such a position. -/
def cutsOk (msgs : List Message) : Nat → List Segment → Prop
  | _, [] => True
  | p, seg :: segs =>
      cutOk msgs (p + seg.chunk.length) ∧ cutsOk msgs (p + seg.chunk.length) segs

/-- Cuts behind some whole messages are cuts of the messages that follow. -/
theorem cutOk_append (done rest : List Message) (p : Nat) :
    cutOk (done ++ rest) ((done.flatMap Message.encode).length + p) ↔ cutOk rest p := by
  induction done with
  | nil =>
      simp
  | cons m done ih =>
      have hlong := m.length_encode
      have hno : ¬ ((m :: done).flatMap Message.encode).length + p < messageHeadLen := by
        simp only [List.flatMap_cons, List.length_append]
        omega
      have hle : m.encode.length ≤ ((m :: done).flatMap Message.encode).length + p := by
        simp only [List.flatMap_cons, List.length_append]
        omega
      have hsub : ((m :: done).flatMap Message.encode).length + p - m.encode.length =
          (done.flatMap Message.encode).length + p := by
        simp only [List.flatMap_cons, List.length_append]
        omega
      rw [List.cons_append, cutOk, hsub, ih]
      simp only [hno, hle, false_or, true_and]

theorem cutsOk_append (done rest : List Message) (segs : List Segment) :
    ∀ p : Nat, cutsOk (done ++ rest) ((done.flatMap Message.encode).length + p) segs ↔
      cutsOk rest p segs := by
  induction segs with
  | nil =>
      intro p
      exact Iff.rfl
  | cons seg segs ih =>
      intro p
      simp only [cutsOk, Nat.add_assoc, cutOk_append, ih]

/-! ## One round of the loop -/

theorem parseLoop_short {cbs : ClientCallbacks} {cli : TcpClient} (rounds : Nat)
    (hlen : cli.ibuf.length < messageHeadLen) :
    parseLoop cbs (rounds + 1) cli = .ok (cli, [], []) := by
  have hno : ¬ cli.ibuf.length ≥ messageHeadLen := by omega
  simp [parseLoop, hno]

/-- The call made for the bytes at the front of `_ibuf`. -/
def frontCall (bytes : List UInt8) : ClientCall :=
  { id := (MsgHead.decode bytes).id
    length := (MsgHead.decode bytes).length
    avail := bytes.drop messageHeadLen }

theorem parseLoop_head {cbs : ClientCallbacks} {cli : TcpClient} (hvalid : cli.ibuf.Valid)
    (rounds : Nat) (hlen : messageHeadLen ≤ cli.ibuf.pending.length) :
    parseLoop cbs (rounds + 1) cli = (do
      let call := frontCall cli.ibuf.pending
      let (obuf, called) ← cbs.message call cli.obuf
      let ibuf := (cli.ibuf.pop messageHeadLen).pop call.length.toInt
      let (cli, calls, effects) ← parseLoop cbs rounds { cli with ibuf := ibuf, obuf := obuf }
      return (cli, call :: calls, called ++ effects)) := by
  have hlength := hvalid.length_eq
  have hge : cli.ibuf.length ≥ messageHeadLen := by omega
  have hdecode := MsgHead.decode_take hlen
  simp only [parseLoop, hge, if_true, IoBuf.load_head hvalid hlen, ok_bind, hdecode, frontCall,
    IoBuf.pending_pop hvalid hlen]

theorem takesHead_front {cli : TcpClient} (hvalid : cli.ibuf.Valid)
    (hlen : messageHeadLen ≤ cli.ibuf.pending.length) :
    TakesHead cli (frontCall cli.ibuf.pending) := by
  have hlength := hvalid.length_eq
  refine ⟨by omega, _, IoBuf.load_head hvalid hlen, ?_⟩
  rw [MsgHead.decode_take hlen, IoBuf.pending_pop hvalid hlen, frontCall]

/-- Two ways to split one list, the first behind the second. -/
theorem take_drop_of_append_eq {α : Type*} {xs later ys rest : List α}
    (h : xs ++ later = ys ++ rest) (hle : ys.length ≤ xs.length) :
    xs.take ys.length = ys ∧ xs.drop ys.length ++ later = rest := by
  refine ⟨?_, ?_⟩
  · rw [← List.take_append_of_le_length hle, h, List.take_left]
  · rw [← List.drop_append_of_le_length hle, h, List.drop_left]

/-- Bytes that begin a message and hold at least its head. -/
theorem frontCall_of_encode {xs later rest : List UInt8} {m : Message}
    (hstream : xs ++ later = m.encode ++ rest) (hlen : messageHeadLen ≤ xs.length) :
    frontCall xs = { id := m.id, length := m.length, avail := xs.drop messageHeadLen } ∧
      xs.drop messageHeadLen ++ later = m.body ++ rest := by
  rw [Message.encode, List.append_assoc] at hstream
  rcases take_drop_of_append_eq hstream (by simpa using hlen) with ⟨htake, hdrop⟩
  rw [MsgHead.length_encode] at htake hdrop
  refine ⟨?_, hdrop⟩
  have hdecode := MsgHead.decode_take hlen
  rw [htake, MsgHead.decode_encode] at hdecode
  rw [frontCall, ← hdecode]

/-- The length that the second `pop` is given. -/
theorem frontCall_length {xs later rest : List UInt8} {m : Message}
    (hm : m.length.toInt = m.body.length) (hstream : xs ++ later = m.encode ++ rest)
    (hlen : messageHeadLen ≤ xs.length) : (frontCall xs).length.toInt = m.body.length := by
  rw [(frontCall_of_encode hstream hlen).1]
  exact hm

/-- The call hands over the message exactly if the buffer holds the whole of it. -/
theorem frontCall_message {xs later rest : List UInt8} {m : Message}
    (hm : m.length.toInt = m.body.length) (hstream : xs ++ later = m.encode ++ rest)
    (hlen : messageHeadLen ≤ xs.length) :
    (frontCall xs).message = if m.encode.length ≤ xs.length then some m else none := by
  rcases frontCall_of_encode hstream hlen with ⟨hcall, hbody⟩
  have henc := m.length_encode
  have hdrop : (xs.drop messageHeadLen).length = xs.length - messageHeadLen := List.length_drop
  rw [hcall, ClientCall.message]
  by_cases hwhole : m.encode.length ≤ xs.length
  · have hin : 0 ≤ m.length.toInt ∧ m.length.toInt ≤ (xs.drop messageHeadLen).length := by omega
    have htake := (take_drop_of_append_eq hbody (by omega)).1
    rw [if_pos hin, if_pos hwhole]
    simp [hm, htake]
  · have hout : ¬ (0 ≤ m.length.toInt ∧ m.length.toInt ≤ (xs.drop messageHeadLen).length) := by
      omega
    rw [if_neg hout, if_neg hwhole]

/-- The two `pop`s take a whole message off the front. -/
theorem pop_frame {b : IoBuf} (hb : b.Valid) {m : Message}
    (hwhole : m.encode.length ≤ b.pending.length) :
    ((b.pop messageHeadLen).pop m.body.length).Valid ∧
      ((b.pop messageHeadLen).pop m.body.length).pending = b.pending.drop m.encode.length := by
  have henc := m.length_encode
  have hlong : messageHeadLen ≤ b.pending.length := by omega
  have hpend : (b.pop messageHeadLen).pending = b.pending.drop messageHeadLen :=
    IoBuf.pending_pop hb hlong
  have hle : m.body.length ≤ (b.pop messageHeadLen).pending.length := by
    rw [hpend, List.length_drop]
    omega
  refine ⟨(hb.pop hlong).pop hle, ?_⟩
  calc
    ((b.pop messageHeadLen).pop m.body.length).pending
        = (b.pop messageHeadLen).pending.drop m.body.length := IoBuf.pending_pop (hb.pop hlong) hle
    _ = (b.pending.drop messageHeadLen).drop m.body.length := by rw [hpend]
    _ = b.pending.drop m.encode.length := by rw [List.drop_drop, henc]

/-! ## One pass of the loop -/

/-- A buffer that ends at a harmless place: the loop hands over the messages that are there, each
with its whole body, and keeps less than a head. -/
theorem parseLoop_spec {cbs : ClientCallbacks} (msgs : List Message)
    (hmsgs : ∀ m ∈ msgs, m.WellFormed) :
    ∀ {rounds : Nat} {cli : TcpClient} {later : List UInt8}, msgs.length < rounds →
      cli.ibuf.Valid → cli.ibuf.pending ++ later = msgs.flatMap Message.encode →
      cutOk msgs cli.ibuf.pending.length → Returning cbs (LoopCalls cbs cli) →
      ∃ ibuf obuf calls effects done rest,
        parseLoop cbs rounds cli =
          .ok ({ cli with ibuf := ibuf, obuf := obuf }, calls, effects) ∧
        msgs = done ++ rest ∧ calls.map ClientCall.message = done.map some ∧
        cli.ibuf.pending = done.flatMap Message.encode ++ ibuf.pending ∧
        ibuf.pending.length < messageHeadLen ∧ ibuf.Valid ∧
        ibuf.capacity = cli.ibuf.capacity := by
  induction msgs with
  | nil =>
      intro rounds cli later hrounds hvalid hstream _ _
      have hnil : cli.ibuf.pending = [] := List.append_eq_nil_iff.1 hstream |>.1
      have hlength := hvalid.length_eq
      rw [hnil, List.length_nil] at hlength
      rcases Nat.exists_eq_succ_of_ne_zero (Nat.ne_zero_of_lt hrounds) with ⟨k, rfl⟩
      refine ⟨cli.ibuf, cli.obuf, [], [], [], [], ?_, rfl, rfl, rfl, ?_, hvalid, rfl⟩
      · exact parseLoop_short k (by simp only [messageHeadLen]; omega)
      · simp [hnil, messageHeadLen]
  | cons m msgs ih =>
      intro rounds cli later hrounds hvalid hstream hcut hcbs
      have hlength := hvalid.length_eq
      rcases Nat.exists_eq_succ_of_ne_zero (Nat.ne_zero_of_lt hrounds) with ⟨k, rfl⟩
      by_cases hshort : cli.ibuf.pending.length < messageHeadLen
      · refine ⟨cli.ibuf, cli.obuf, [], [], [], m :: msgs, ?_, rfl, rfl, rfl, hshort, hvalid, rfl⟩
        exact parseLoop_short k (by omega)
      · -- a whole message is at the front, since the buffer does not end inside its body
        rcases hcut.resolve_left hshort with ⟨hwhole, hcut'⟩
        have hlong : messageHeadLen ≤ cli.ibuf.pending.length := by omega
        have hm : m.WellFormed := hmsgs m (by simp)
        rw [List.flatMap_cons] at hstream
        have hlen₂ := frontCall_length hm.1 hstream hlong
        have hmessage := frontCall_message hm.1 hstream hlong
        rw [if_pos hwhole] at hmessage
        rcases take_drop_of_append_eq hstream hwhole with ⟨hfront, hrest⟩
        rcases pop_frame hvalid hwhole with ⟨hvalid₂, hpend₂⟩
        set xs := cli.ibuf.pending with hxs
        set ibuf₂ := (cli.ibuf.pop messageHeadLen).pop m.body.length with hibuf₂
        have htakes : TakesHead cli (frontCall xs) := takesHead_front hvalid hlong
        rcases hcbs (frontCall xs) cli.obuf (.first htakes) with ⟨obuf₂, called, hret⟩
        have hstream₂ : ibuf₂.pending ++ later = msgs.flatMap Message.encode := by
          rw [hpend₂, hrest]
        have hcut₂ : cutOk msgs ibuf₂.pending.length := by
          rw [hpend₂, List.length_drop]
          exact hcut'
        -- the calls from here on are those of later rounds
        have hcbs₂ : Returning cbs (LoopCalls cbs { cli with ibuf := ibuf₂, obuf := obuf₂ }) := by
          refine hcbs.mono fun _ _ hlater => .later htakes hret ?_
          rw [hlen₂]
          exact hlater
        rcases @ih (fun m' hm' => hmsgs m' (by simp [hm'])) k
            { cli with ibuf := ibuf₂, obuf := obuf₂ } later (Nat.lt_of_succ_lt_succ hrounds) hvalid₂
            hstream₂ hcut₂ hcbs₂ with
          ⟨ibuf, obuf, calls, effects, done, rest, hloop, hsplit, hcalls, hdone, htail, hv, hcap⟩
        refine ⟨ibuf, obuf, frontCall xs :: calls, called ++ effects, m :: done, rest, ?_, ?_, ?_,
          ?_, htail, hv, ?_⟩
        · rw [parseLoop_head hvalid k hlong]
          simp only [← hxs, hret, ok_bind, hlen₂, ← hibuf₂, hloop, pure_eq_ok]
        · rw [hsplit, List.cons_append]
        · rw [List.map_cons, List.map_cons, hmessage, hcalls]
        · calc
            xs = xs.take m.encode.length ++ xs.drop m.encode.length :=
              (List.take_append_drop _ _).symm
            _ = m.encode ++ ibuf₂.pending := by rw [hfront, hpend₂]
            _ = (m :: done).flatMap Message.encode ++ ibuf.pending := by
              rw [List.flatMap_cons, List.append_assoc, ← hdone]
        · rw [hcap]
          simp [hibuf₂]

/-- A buffer that ends inside a body: if the loop returns at all, it has made a call without the
whole body. -/
theorem parseLoop_cut {cbs : ClientCallbacks} (msgs : List Message)
    (hmsgs : ∀ m ∈ msgs, m.WellFormed) :
    ∀ {rounds : Nat} {cli : TcpClient} {later : List UInt8} {out : TcpClient}
      {calls : List ClientCall} {effects : List ClientEffect},
      cli.ibuf.Valid → cli.ibuf.pending ++ later = msgs.flatMap Message.encode →
      ¬ cutOk msgs cli.ibuf.pending.length →
      parseLoop cbs rounds cli = .ok (out, calls, effects) →
      none ∈ calls.map ClientCall.message := by
  induction msgs with
  | nil =>
      intro rounds cli later out calls effects _ _ hcut _
      exact absurd trivial hcut
  | cons m msgs ih =>
      intro rounds cli later out calls effects hvalid hstream hcut hloop
      simp only [cutOk, not_or, not_and] at hcut
      rcases hcut with ⟨hshort, hcut'⟩
      have hlong : messageHeadLen ≤ cli.ibuf.pending.length := by omega
      have hm : m.WellFormed := hmsgs m (by simp)
      rw [List.flatMap_cons] at hstream
      cases rounds with
      | zero =>
          cases hloop
      | succ k =>
          rw [parseLoop_head hvalid k hlong] at hloop
          rcases bind_eq_ok.1 hloop with ⟨⟨obuf₂, called⟩, _, hloop⟩
          rcases bind_eq_ok.1 hloop with ⟨⟨cli₃, calls₃, effects₃⟩, hloop₃, hout⟩
          cases hout
          rw [List.map_cons, List.mem_cons, frontCall_message hm.1 hstream hlong]
          by_cases hwhole : m.encode.length ≤ cli.ibuf.pending.length
          · -- this call is right, a later one is not
            right
            rcases take_drop_of_append_eq hstream hwhole with ⟨_, hrest⟩
            rcases pop_frame hvalid hwhole with ⟨hvalid₂, hpend₂⟩
            simp only [frontCall_length hm.1 hstream hlong] at hloop₃
            have hstream₂ : ((cli.ibuf.pop messageHeadLen).pop m.body.length).pending ++ later =
                msgs.flatMap Message.encode := by
              rw [hpend₂, hrest]
            refine ih (fun m' hm' => hmsgs m' (by simp [hm'])) hvalid₂ hstream₂ ?_ hloop₃
            simp only [hpend₂, List.length_drop]
            exact hcut' hwhole
          · left
            rw [if_neg hwhole]

/-- More rounds than needed change nothing. -/
theorem parseLoop_mono {cbs : ClientCallbacks} {rounds : Nat} :
    ∀ {more : Nat} {cli : TcpClient} {out}, rounds ≤ more →
      parseLoop cbs rounds cli = .ok out → parseLoop cbs more cli = .ok out := by
  induction rounds with
  | zero =>
      intro more cli out _ h
      cases h
  | succ rounds ih =>
      intro more cli out hle h
      rcases Nat.exists_eq_succ_of_ne_zero (by omega : more ≠ 0) with ⟨more, rfl⟩
      rw [parseLoop] at h ⊢
      split_ifs at h ⊢ with hlen
      · -- the rounds are only passed on to the rest of the loop
        rcases bind_eq_ok.1 h with ⟨bytes, hload, h⟩
        rcases bind_eq_ok.1 h with ⟨called, hcall, h⟩
        rcases bind_eq_ok.1 h with ⟨rest, hrest, h⟩
        refine bind_eq_ok.2 ⟨bytes, hload, bind_eq_ok.2 ⟨called, hcall, bind_eq_ok.2 ⟨rest, ?_, h⟩⟩⟩
        exact ih (by omega) hrest
      · exact h

/-! ## `do_read` -/

/-- Between two events: connected, with the window of `_ibuf` at the front of its 4 MiB block. -/
structure InReady (cli : TcpClient) : Prop where
  connected : cli.connected = true
  valid : cli.ibuf.Valid
  front : cli.ibuf.head = 0

theorem readRet_after (chunk : List UInt8) (k : Nat) :
    readRet chunk.length (SysRead.after chunk k) = some chunk := by
  induction k with
  | zero =>
      simp [SysRead.after, readRet]
  | succ k ih =>
      exact ih

/-- `do_read` on a chunk that fits: append it, run the loop, move what is left to the front. -/
theorem doRead_eq (cbs : ClientCallbacks) {cli : TcpClient} (hcli : cli.InReady)
    {chunk : List UInt8} (hne : chunk ≠ [])
    (hfit : (chunk.length : Int) ≤ cli.ibuf.capacity - cli.ibuf.length) (k : Nat)
    (reconnect : ConnectAnswer) :
    ∃ filled : IoBuf, cli.ibuf.append chunk = .ok filled ∧ filled.Valid ∧
      filled.pending = cli.ibuf.pending ++ chunk ∧
      ∀ rounds, cli.doRead cbs rounds (Socket.ofChunk chunk k) reconnect = (do
        let (cli, calls, effects) ← parseLoop cbs rounds { cli with ibuf := filled }
        let ibuf ← cli.ibuf.adjust
        return { ret := 0, client := { cli with ibuf := ibuf }, calls := calls,
                 effects := effects }) := by
  have hroom : cli.ibuf.length + chunk.length ≤ cli.ibuf.capacity := by omega
  rcases IoBuf.append_spec hcli.valid hcli.front hroom with ⟨filled, happ, hvalid, _, hpend, _⟩
  refine ⟨filled, happ, hvalid, hpend, fun rounds => ?_⟩
  cases chunk with
  | nil =>
      exact absurd rfl hne
  | cons x xs =>
      simp only [doRead, hcli.connected, assert_true, ok_bind, Socket.ofChunk, hfit, decide_true,
        readRet_after, happ]

/-- `do_read` when the stream read so far ends at a harmless place. -/
theorem doRead_spec {cbs : ClientCallbacks} {cli : TcpClient} (hcli : cli.InReady)
    {chunk later : List UInt8} (hne : chunk ≠ [])
    (hfit : (chunk.length : Int) ≤ cli.ibuf.capacity - cli.ibuf.length) {msgs : List Message}
    (hmsgs : ∀ m ∈ msgs, m.WellFormed)
    (hstream : cli.ibuf.pending ++ chunk ++ later = msgs.flatMap Message.encode)
    (hcut : cutOk msgs (cli.ibuf.pending.length + chunk.length)) {k : Nat}
    (hcbs : Returning cbs (ReadCalls cbs cli (Socket.ofChunk chunk k)))
    (reconnect : ConnectAnswer) :
    ∃ out, out.client.InReady ∧ out.client.ibuf.pending.length < messageHeadLen ∧
      (∃ done rest, msgs = done ++ rest ∧ out.calls.map ClientCall.message = done.map some ∧
        cli.ibuf.pending ++ chunk = done.flatMap Message.encode ++ out.client.ibuf.pending) ∧
      (∀ rounds, msgs.length < rounds →
        cli.doRead cbs rounds (Socket.ofChunk chunk k) reconnect = .ok out) ∧
      ∀ rounds out', cli.doRead cbs rounds (Socket.ofChunk chunk k) reconnect = .ok out' →
        out' = out := by
  rcases doRead_eq cbs hcli hne hfit k reconnect with ⟨filled, happ, hvalid, hpend, hread⟩
  set cli₁ : TcpClient := { cli with ibuf := filled } with hcli₁
  have hstream₁ : cli₁.ibuf.pending ++ later = msgs.flatMap Message.encode := by
    rw [← hstream, ← hpend]
  have hcut₁ : cutOk msgs cli₁.ibuf.pending.length := by
    rw [show cli₁.ibuf.pending = cli.ibuf.pending ++ chunk from hpend, List.length_append]
    exact hcut
  have hcbs₁ : Returning cbs (LoopCalls cbs cli₁) :=
    hcbs.mono fun _ _ hcall =>
      ⟨_, chunk, filled, rfl, readRet_after chunk k, hne, happ, hcall⟩
  rcases parseLoop_spec msgs hmsgs (Nat.lt_succ_self _) hvalid hstream₁ hcut₁ hcbs₁ with
    ⟨ibuf, obuf, calls, effects, done, rest, hloop, hsplit, hcalls, hdone, htail, hv, _⟩
  rcases IoBuf.adjust_spec hv with ⟨moved, hadj, hvalid₂, hfront₂, hpend₂, _⟩
  refine ⟨{ ret := 0, client := { cli₁ with ibuf := moved, obuf := obuf }, calls := calls,
            effects := effects }, ⟨hcli.connected, hvalid₂, hfront₂⟩, ?_, ?_, ?_, ?_⟩
  · simpa [hpend₂] using htail
  · refine ⟨done, rest, hsplit, hcalls, ?_⟩
    rw [← hpend]
    simpa [hpend₂] using hdone
  · intro rounds hrounds
    rw [hread, parseLoop_mono hrounds hloop]
    simp [hadj]
  · -- a run of the loop that returns is the run with enough rounds
    intro rounds out' hout'
    rw [hread] at hout'
    rcases bind_eq_ok.1 hout' with ⟨looped, hlooped, hout'⟩
    have hmore := parseLoop_mono (le_max_left rounds (msgs.length + 1)) hlooped
    rw [parseLoop_mono (le_max_right rounds (msgs.length + 1)) hloop] at hmore
    cases hmore
    simp only [hadj, ok_bind, pure_eq_ok] at hout'
    cases hout'
    rfl

/-- `do_read` when the stream read so far ends inside a body. -/
theorem doRead_cut {cbs : ClientCallbacks} {cli : TcpClient} (hcli : cli.InReady)
    {chunk later : List UInt8} (hne : chunk ≠ [])
    (hfit : (chunk.length : Int) ≤ cli.ibuf.capacity - cli.ibuf.length) {msgs : List Message}
    (hmsgs : ∀ m ∈ msgs, m.WellFormed)
    (hstream : cli.ibuf.pending ++ chunk ++ later = msgs.flatMap Message.encode)
    (hcut : ¬ cutOk msgs (cli.ibuf.pending.length + chunk.length)) {k rounds : Nat}
    {reconnect : ConnectAnswer} {out : ReadOutcome}
    (hout : cli.doRead cbs rounds (Socket.ofChunk chunk k) reconnect = .ok out) :
    none ∈ out.calls.map ClientCall.message := by
  rcases doRead_eq cbs hcli hne hfit k reconnect with ⟨filled, _, hvalid, hpend, hread⟩
  rw [hread] at hout
  rcases bind_eq_ok.1 hout with ⟨⟨cli₂, calls, effects⟩, hloop, hout⟩
  rcases bind_eq_ok.1 hout with ⟨ibuf, _, hout⟩
  cases hout
  have hstream₁ : filled.pending ++ later = msgs.flatMap Message.encode := by
    rw [← hstream, ← hpend]
  refine parseLoop_cut msgs hmsgs hvalid hstream₁ ?_ hloop
  simp only [hpend, List.length_append]
  exact hcut

/-! ## A whole run -/

/-- The run over the segments makes exactly the calls for the given messages, each with its whole
body. -/
def Dispatches (cbs : ClientCallbacks) (rounds : Nat) (cli : TcpClient) (segs : List Segment)
    (msgs : List Message) : Prop :=
  ∃ cli' calls, readRun cbs rounds cli segs = .ok (cli', calls) ∧
    calls.map ClientCall.message = msgs.map some

/-- From a client that holds less than a head: if the messages are dispatched, no segment ends
inside a body, and then one round more than there are messages is enough. -/
theorem readRun_spec {cbs : ClientCallbacks} (segs : List Segment)
    (hne : ∀ seg ∈ segs, seg.chunk ≠ []) :
    ∀ {cli : TcpClient} {msgs : List Message}, cli.InReady →
      cli.ibuf.pending.length < messageHeadLen → (∀ m ∈ msgs, m.WellFormed) →
      cli.ibuf.pending ++ segs.flatMap Segment.chunk = msgs.flatMap Message.encode →
      Fits cbs cli segs → Returning cbs (RunCalls cbs cli segs) →
      (∀ rounds, Dispatches cbs rounds cli segs msgs →
        cutsOk msgs cli.ibuf.pending.length segs) ∧
      (cutsOk msgs cli.ibuf.pending.length segs → ∀ rounds, msgs.length < rounds →
        Dispatches cbs rounds cli segs msgs) := by
  induction segs with
  | nil =>
      intro cli msgs _ hshort _ hstream _ _
      -- the stream is shorter than a head, so there are no messages
      have hnil : msgs = [] := by
        cases msgs with
        | nil =>
            rfl
        | cons m msgs =>
            have hlen := congrArg List.length hstream
            simp only [List.flatMap_nil, List.append_nil, List.flatMap_cons, List.length_append,
              m.length_encode] at hlen
            omega
      subst hnil
      exact ⟨fun _ _ => trivial, fun _ _ _ => ⟨cli, [], rfl, rfl⟩⟩
  | cons seg segs ih =>
      intro cli msgs hcli hshort hmsgs hstream hfits hcbs
      have hne₁ : seg.chunk ≠ [] := hne seg (by simp)
      have hstream₁ : cli.ibuf.pending ++ seg.chunk ++ segs.flatMap Segment.chunk =
          msgs.flatMap Message.encode := by
        rw [← hstream, List.flatMap_cons, List.append_assoc]
      by_cases hcut : cutOk msgs (cli.ibuf.pending.length + seg.chunk.length)
      · rcases doRead_spec hcli hne₁ hfits.1 hmsgs hstream₁ hcut (hcbs.mono fun _ _ => .first)
          seg.reconnect with
          ⟨out, hready, htail, ⟨done, rest, hsplit, hcalls, hdone⟩, hreturns, honly⟩
        have hstream₂ : out.client.ibuf.pending ++ segs.flatMap Segment.chunk =
            rest.flatMap Message.encode := by
          rw [hdone, hsplit, List.flatMap_append, List.append_assoc] at hstream₁
          exact List.append_cancel_left hstream₁
        have hlen : cli.ibuf.pending.length + seg.chunk.length =
            (done.flatMap Message.encode).length + out.client.ibuf.pending.length := by
          simpa using congrArg List.length hdone
        -- from here on the run is one over the messages that are left
        have hcuts : cutsOk msgs cli.ibuf.pending.length (seg :: segs) ↔
            cutsOk rest out.client.ibuf.pending.length segs := by
          simp only [cutsOk, hcut, true_and]
          rw [hlen, hsplit, cutsOk_append]
        rcases ih (fun s hs => hne s (by simp [hs])) hready htail
          (fun m hm => hmsgs m (by simp [hsplit, hm])) hstream₂
          (hfits.2 _ out (hreturns _ (Nat.lt_succ_self _)))
          (hcbs.mono fun _ _ => .later (hreturns _ (Nat.lt_succ_self _))) with
          ⟨hnecessary, hsufficient⟩
        rw [hcuts]
        constructor
        · rintro rounds ⟨cli', calls, hrun, hall⟩
          rcases bind_eq_ok.1 hrun with ⟨out', hout', hrun⟩
          rw [honly rounds out' hout'] at hrun
          rcases bind_eq_ok.1 hrun with ⟨⟨cli₂, calls₂⟩, hrun₂, hret⟩
          cases hret
          refine hnecessary rounds ⟨cli', calls₂, hrun₂, ?_⟩
          rw [List.map_append, hcalls, hsplit, List.map_append] at hall
          exact List.append_cancel_left hall
        · intro hcuts' rounds hrounds
          have hrest : rest.length < rounds := by
            rw [hsplit, List.length_append] at hrounds
            omega
          rcases hsufficient hcuts' rounds hrest with ⟨cli', calls, hrun, hall⟩
          refine ⟨cli', out.calls ++ calls, ?_, by rw [List.map_append, hcalls, hall, hsplit,
            List.map_append]⟩
          simp [readRun, hreturns rounds hrounds, hrun]
      · -- the calls of this read already contain a wrong one
        constructor
        · rintro rounds ⟨cli', calls, hrun, hall⟩
          rcases bind_eq_ok.1 hrun with ⟨out, hout, hrun⟩
          rcases bind_eq_ok.1 hrun with ⟨⟨cli₂, calls₂⟩, _, hret⟩
          cases hret
          have hbad := doRead_cut hcli hne₁ hfits.1 hmsgs hstream₁ hcut hout
          have hmem : none ∈ msgs.map some := by
            rw [← hall, List.map_append]
            exact List.mem_append_left _ hbad
          simp at hmem
        · intro hcuts
          exact absurd hcuts.1 hcut

theorem new_inReady (sockfd : Int) : InReady { new with connected := true, sockfd := sockfd } :=
  ⟨rfl, IoBuf.new_valid (by decide), rfl⟩

/-- A connected client reads encoded messages in segments.  Its calls are the messages, each once,
in order and with its complete body, exactly if no segment ends between the end of a head and the
end of the body that belongs to it.  The callback is to return from the calls that are made. -/
theorem dispatches_iff_cutsOk (cbs : ClientCallbacks) (sockfd : Int) (msgs : List Message)
    (segs : List Segment) (hmsgs : ∀ m ∈ msgs, m.WellFormed) (hne : ∀ seg ∈ segs, seg.chunk ≠ [])
    (hstream : segs.flatMap Segment.chunk = msgs.flatMap Message.encode)
    (hfits : Fits cbs { new with connected := true, sockfd := sockfd } segs)
    (hcbs : Returning cbs (RunCalls cbs { new with connected := true, sockfd := sockfd } segs)) :
    (∃ rounds, Dispatches cbs rounds { new with connected := true, sockfd := sockfd } segs msgs) ↔
      cutsOk msgs 0 segs := by
  rcases readRun_spec segs hne (new_inReady sockfd) (by simp [new, messageHeadLen]) hmsgs hstream
    hfits hcbs with ⟨hnecessary, hsufficient⟩
  constructor
  · rintro ⟨rounds, hdispatches⟩
    exact hnecessary rounds hdispatches
  · intro hcuts
    exact ⟨msgs.length + 1, hsufficient hcuts _ (Nat.lt_succ_self _)⟩

/-- A segment that is read at once, on a client that never reconnects. -/
def segment (chunk : List UInt8) : Segment :=
  { chunk := chunk
    eintrs := 0
    reconnect := { socket := none, connect := .failed } }

/-- A message cut inside its head. -/
theorem dispatches_iff_cutsOk_head :
    ∃ rounds, Dispatches ClientCallbacks.none rounds { new with connected := true, sockfd := 3 }
      [segment [1, 0, 0, 0, 2], segment [0, 0, 0, 7, 8]] [Message.of 1 [7, 8]] := by
  refine (dispatches_iff_cutsOk ClientCallbacks.none 3 [Message.of 1 [7, 8]]
    [segment [1, 0, 0, 0, 2], segment [0, 0, 0, 7, 8]] ?_ ?_ rfl ?_ (returning_none _)).2 ?_
  · have hwell : (Message.of 1 [7, 8]).WellFormed := Message.of_wellFormed (by decide)
    simpa using hwell
  · simp [segment]
  · refine ⟨by decide, ?_⟩
    intro rounds out hout
    cases rounds with
    | zero =>
        cases hout
    | succ k =>
        cases hout
        exact ⟨by decide, fun _ _ _ => trivial⟩
  · exact ⟨Or.inl (by decide), Or.inr ⟨by decide, trivial⟩, trivial⟩

/-- The same message cut inside its body: the router is called when one of the two bytes is
there. -/
theorem dispatches_fails_body :
    ¬ ∃ rounds, Dispatches ClientCallbacks.none rounds { new with connected := true, sockfd := 3 }
      [segment [1, 0, 0, 0, 2, 0, 0, 0, 7], segment [8]] [Message.of 1 [7, 8]] := by
  rintro ⟨rounds, cli', calls, hrun, hall⟩
  rcases bind_eq_ok.1 hrun with ⟨out, hout, hrun⟩
  rcases bind_eq_ok.1 hrun with ⟨⟨cli₂, calls₂⟩, _, hret⟩
  cases hret
  have hbad : none ∈ out.calls.map ClientCall.message := by
    have hwell : ∀ m ∈ [Message.of 1 [7, 8]], m.WellFormed := by
      have hone : (Message.of 1 [7, 8]).WellFormed := Message.of_wellFormed (by decide)
      simpa using hone
    have hstream : (new.ibuf.pending ++ [1, 0, 0, 0, 2, 0, 0, 0, 7]) ++ [8] =
        [Message.of 1 [7, 8]].flatMap Message.encode := by
      decide
    refine doRead_cut (new_inReady 3) (by simp) (by decide) hwell hstream ?_ hout
    rintro (hlt | ⟨hle, _⟩)
    · exact absurd hlt (by decide)
    · exact absurd hle (by decide)
  have hmem : none ∈ [Message.of 1 [7, 8]].map some := by
    rw [← hall, List.map_append]
    exact List.mem_append_left _ hbad
  simp at hmem

end TcpClient
end Reactor
end Rins
