import Rins.Lib.Run
import Rins.Reactor.ClientFraming

/-!
# Reconnect — what a `tcp_client` carries over to its next connection

A run of a client over any number of connections, with a log of each.  `clean_conn` closes the
socket and makes a new one, but `_obuf` and `_ibuf` stay as they are (`tcp_conn::clean_conn` clears
both), so what was cut off on one connection goes on with the next.

The steps are those inside the methods of the client: one `send_message`, one `write` of the loop in
`do_write`, one `do_read` that reads something, `connection_delay`, and `clean_conn`.  The last
section shows that the methods, with callbacks that send, are made of these steps.
-/

namespace Rins
namespace Reactor

open Lib

/-- What went over one socket. -/
structure ConnLog where
  written : List UInt8
  received : List UInt8
  /-- the calls of `_router.call` -/
  calls : List ClientCall

def ConnLog.new : ConnLog :=
  { written := [], received := [], calls := [] }

/-- A client with its history. -/
structure Session where
  client : TcpClient
  /-- the connections that are gone -/
  past : List ConnLog
  now : ConnLog
  /-- the messages for which `send_message` returned 0 -/
  accepted : List Message

namespace Session

/-- All connections. -/
def logs (s : Session) : List ConnLog :=
  s.past ++ [s.now]

/-- The client after its constructor, with the kernel's answers to `do_connect`. -/
def init (ans : ConnectAnswer) : Option Session :=
  match TcpClient.doConnect ClientCallbacks.none TcpClient.new ans with
  | .error _ => none
  | .ok (client, _) => some { client := client, past := [], now := .new, accepted := [] }

/-- The arguments of `send_message`. -/
structure SendArgs where
  data : List UInt8
  msglen : Int32
  msgid : Int32

/-- The message that the arguments make. -/
def SendArgs.message (args : SendArgs) : Message :=
  { id := args.msgid
    length := args.msglen
    body := args.data.take args.msglen.toInt.toNat }

/-- A round of the loop in `do_write` in which the kernel takes `n` bytes. -/
def writeRound (cli : TcpClient) (n : Nat) : Except Fault (TcpClient × List UInt8) := do
  let bytes ← cli.obuf.load cli.obuf.head n
  let obuf ← (cli.obuf.pop n).adjust
  return ({ cli with obuf := obuf }, bytes)

/-- What `do_read` gets from the socket; nothing if it calls `clean_conn` or gives up. -/
def delivered (sock : Socket) : Option (List UInt8) :=
  match sock.fionread with
  | none => none
  | some needRead =>
      match TcpClient.readRet needRead sock.read with
      | none | some [] => none
      | some (b :: bs) => some (b :: bs)

inductive Act
  /-- `send_message`, from wherever it is called -/
  | send (args : SendArgs)
  /-- `write` takes at most `n` bytes -/
  | write (n : Nat)
  /-- `do_read`, with the rounds that its loop needs -/
  | read (sock : Socket) (rounds : Nat)
  /-- `connection_delay`, with the value of `SO_ERROR` -/
  | connectionDelay (soError : Int)
  /-- `clean_conn`, with the kernel's answers to `do_connect` -/
  | cleanConn (ans : ConnectAnswer)

def step (s : Session) : Act → Option Session
  | .send args =>
      match s.client.sendMessage args.data args.msglen args.msgid with
      | .error _ => none
      | .ok (ret, client, _) =>
          some { s with
            client := client
            accepted := if ret = 0 then s.accepted ++ [args.message] else s.accepted }
  | .write n =>
      match writeRound s.client (min n s.client.obuf.length.toNat) with
      | .error _ => none
      | .ok (client, bytes) =>
          some { s with
            client := client
            now := { s.now with written := s.now.written ++ bytes } }
  | .read sock rounds =>
      -- a read that fails or ends is a `cleanConn`
      match delivered sock with
      | none => none
      | some bs =>
          match s.client.doRead ClientCallbacks.none rounds sock
              { socket := none, connect := .failed } with
          | .error _ => none
          | .ok out =>
              some { s with
                client := out.client
                now := { s.now with
                  received := s.now.received ++ bs
                  calls := s.now.calls ++ out.calls } }
  | .connectionDelay soError =>
      match s.client.connectionDelay ClientCallbacks.none s.client.sockfd soError with
      | .error _ => none
      | .ok (client, _) => some { s with client := client }
  | .cleanConn ans =>
      match s.client.cleanConn ClientCallbacks.none ans with
      | .error _ => none
      | .ok (client, _) =>
          some { s with client := client, past := s.past ++ [s.now], now := .new }

/-! ## The property and the condition -/

/-- What was written is the beginning of whole accepted messages, and every call was made with the
whole of a message that was received on the same connection. -/
def Framed (s : Session) (log : ConnLog) : Prop :=
  (∃ ms : List Message, (∀ m ∈ ms, m ∈ s.accepted) ∧
    log.written <+: ms.flatMap Message.encode) ∧
  ∀ call ∈ log.calls, ∃ m, call.message = some m ∧ m.encode <:+: log.received

/-- The bytes are whole messages, followed by less than a head. -/
def EndsWhole (bs : List UInt8) : Prop :=
  ∃ (ms : List Message) (tail : List UInt8), bs = ms.flatMap Message.encode ++ tail ∧
    (∀ m ∈ ms, m.length.toInt = m.body.length) ∧ tail.length < messageHeadLen

/-- `_obuf` begins at the beginning of a message. -/
def AtBoundary (s : Session) : Prop :=
  ∃ ms : List Message, ms <:+ s.accepted ∧ s.client.obuf.pending = ms.flatMap Message.encode

/-- The condition: a connection is given up only while `_obuf` begins at the beginning of a message
and `_ibuf` is empty, and no read ends inside the body of a message. -/
def Clean (s : Session) : Act → Prop
  | .read sock _ => ∀ bs, delivered sock = some bs → EndsWhole (s.client.ibuf.pending ++ bs)
  | .cleanConn _ => s.AtBoundary ∧ s.client.ibuf.length = 0
  | _ => True

/-! ## The invariant -/

structure Inv (s : Session) : Prop where
  out : s.client.OutReady
  valid : s.client.ibuf.Valid
  front : s.client.ibuf.head = 0
  /-- what is written and what is to be written are whole messages, the last ones accepted -/
  stream : ∃ ms : List Message, ms <:+ s.accepted ∧
    s.now.written ++ s.client.obuf.pending = ms.flatMap Message.encode
  received : s.client.ibuf.pending <:+ s.now.received
  framed : ∀ log ∈ s.logs, s.Framed log

theorem Framed.mono {s t : Session} {log : ConnLog} (h : s.Framed log)
    (hsub : ∀ m ∈ s.accepted, m ∈ t.accepted) : t.Framed log := by
  rcases h with ⟨⟨ms, hms, hpre⟩, hcalls⟩
  exact ⟨⟨ms, fun m hm => hsub m (hms m hm), hpre⟩, hcalls⟩

theorem mem_logs {s : Session} {log : ConnLog} : log ∈ s.logs ↔ log ∈ s.past ∨ log = s.now := by
  simp [logs]

/-- The present connection is framed if its stream and its calls are. -/
theorem framed_now {s : Session} {ms : List Message} (hms : ms <:+ s.accepted)
    {rest : List UInt8} (hstream : s.now.written ++ rest = ms.flatMap Message.encode)
    (hcalls : ∀ call ∈ s.now.calls, ∃ m, call.message = some m ∧ m.encode <:+: s.now.received) :
    s.Framed s.now :=
  ⟨⟨ms, fun _ hm => hms.subset hm, ⟨rest, hstream⟩⟩, hcalls⟩

/-- `do_read` where it gets something from the socket. -/
theorem doRead_delivered {cbs : ClientCallbacks} {cli : TcpClient} {sock : Socket}
    {bs : List UInt8} (hsock : delivered sock = some bs) {rounds : Nat}
    {reconnect : ConnectAnswer} {out : TcpClient.ReadOutcome} :
    cli.doRead cbs rounds sock reconnect = .ok out ↔
      cli.connected = true ∧ sock.fionread = some (bs.length : Int) ∧
      (bs.length : Int) ≤ cli.ibuf.capacity - cli.ibuf.length ∧
      ∃ filled cli₁ ibuf, cli.ibuf.append bs = .ok filled ∧
        TcpClient.parseLoop cbs rounds { cli with ibuf := filled } =
          .ok (cli₁, out.calls, out.effects) ∧
        cli₁.ibuf.adjust = .ok ibuf ∧ out.ret = 0 ∧ out.client = { cli₁ with ibuf := ibuf } := by
  unfold delivered at hsock
  split at hsock
  · cases hsock
  · next needRead hneed =>
      split at hsock
      · cases hsock
      · cases hsock
      · next b bs' hret =>
          cases hsock
          unfold TcpClient.doRead
          simp only [hneed, hret]
          constructor
          · -- down the statements of `do_read`, one bind after the other
            intro h
            rcases bind_eq_ok.1 h with ⟨_, hconn, h⟩
            rcases bind_eq_ok.1 h with ⟨_, hroom, h⟩
            rcases bind_eq_ok.1 h with ⟨filled, happ, h⟩
            rcases bind_eq_ok.1 h with ⟨_, hall, h⟩
            rcases bind_eq_ok.1 h with ⟨⟨cli₁, calls, effects⟩, hloop, h⟩
            rcases bind_eq_ok.1 h with ⟨ibuf, hadj, h⟩
            cases h
            have hsize : ((b :: bs').length : Int) = needRead := by
              simpa using assert_eq_ok.1 hall
            have hfits : needRead ≤ cli.ibuf.capacity - cli.ibuf.length := by
              simpa using assert_eq_ok.1 hroom
            exact ⟨assert_eq_ok.1 hconn, by rw [hsize], by rw [hsize]; exact hfits, filled, cli₁,
              ibuf, happ, hloop, hadj, rfl, rfl⟩
          · rintro ⟨hconn, hsize, hroom, filled, cli₁, ibuf, happ, hloop, hadj, hzero, hclient⟩
            cases hsize
            rcases out with ⟨ret, client, calls, effects⟩
            simp only at hloop hzero hclient
            subst hzero hclient
            have hup : assert cli.connected = .ok () := assert_eq_ok.2 hconn
            simp only [hup, hroom, decide_true, assert_true, happ, hloop, hadj, ok_bind, pure_eq_ok]

/-- The loop over whole messages and less than a head. -/
theorem parseLoop_whole {ms : List Message} (hms : ∀ m ∈ ms, m.length.toInt = m.body.length)
    {tail : List UInt8} (htail : tail.length < messageHeadLen) :
    ∀ {rounds : Nat} {cli cli' : TcpClient} {calls : List ClientCall}
      {effects : List ClientEffect}, cli.ibuf.Valid →
      cli.ibuf.pending = ms.flatMap Message.encode ++ tail →
      TcpClient.parseLoop ClientCallbacks.none rounds cli = .ok (cli', calls, effects) →
      calls.map ClientCall.message = ms.map some ∧ cli' = { cli with ibuf := cli'.ibuf } ∧
        cli'.ibuf.Valid ∧ cli'.ibuf.pending = tail := by
  induction ms with
  | nil =>
      intro rounds cli cli' calls effects hvalid hpend hloop
      have hlen := hvalid.length_eq
      rw [hpend] at hlen
      cases rounds with
      | zero =>
          cases hloop
      | succ rounds =>
          rw [TcpClient.parseLoop_short rounds (by simp at hlen; omega)] at hloop
          cases hloop
          exact ⟨rfl, rfl, hvalid, hpend⟩
  | cons m ms ih =>
      intro rounds cli cli' calls effects hvalid hpend hloop
      have hm := hms m (by simp)
      -- the message at the front is whole, so it is the call of this round
      have hstream : cli.ibuf.pending ++ [] = m.encode ++ (ms.flatMap Message.encode ++ tail) := by
        rw [List.append_nil, hpend, List.flatMap_cons, List.append_assoc]
      have hwhole : m.encode.length ≤ cli.ibuf.pending.length := by
        rw [hpend, List.flatMap_cons]
        simp only [List.length_append]
        omega
      have hlong : messageHeadLen ≤ cli.ibuf.pending.length := by
        have := m.length_encode
        omega
      cases rounds with
      | zero =>
          cases hloop
      | succ rounds =>
          rw [TcpClient.parseLoop_head hvalid rounds hlong] at hloop
          simp only [ClientCallbacks.none, ok_bind,
            TcpClient.frontCall_length hm hstream hlong] at hloop
          rcases bind_eq_ok.1 hloop with ⟨⟨cli₁, calls₁, effects₁⟩, hrest, hout⟩
          cases hout
          rcases TcpClient.pop_frame hvalid hwhole with ⟨hvalid₁, hpend₁⟩
          have hpend₂ : ((cli.ibuf.pop messageHeadLen).pop m.body.length).pending =
              ms.flatMap Message.encode ++ tail := by
            calc
              ((cli.ibuf.pop messageHeadLen).pop m.body.length).pending
                  = (m.encode ++ (ms.flatMap Message.encode ++ tail)).drop m.encode.length := by
                    rw [hpend₁, ← hstream, List.append_nil]
              _ = ms.flatMap Message.encode ++ tail := List.drop_left
          rcases ih (fun m' hm' => hms m' (by simp [hm'])) hvalid₁ hpend₂ hrest with
            ⟨hcalls, hsame, hvalid₂, htail₂⟩
          refine ⟨?_, hsame, hvalid₂, htail₂⟩
          rw [List.map_cons, List.map_cons, TcpClient.frontCall_message hm hstream hlong,
            if_pos hwhole, hcalls]

theorem init_inv {ans : ConnectAnswer} {s : Session} (h : init ans = some s) : s.Inv := by
  unfold init at h
  split at h
  · cases h
  · next client effects hconnect =>
      cases h
      rcases TcpClient.doConnect_bufs hconnect with ⟨hobuf, hibuf⟩
      refine ⟨(TcpClient.new_outReady false 0).of_obuf hobuf, ?_, ?_, ⟨[], by simp, ?_⟩, ?_, ?_⟩
      · rw [hibuf]
        exact IoBuf.new_valid (by decide)
      · rw [hibuf]
        rfl
      · simp [hobuf, TcpClient.new, ConnLog.new]
      · simp [hibuf, TcpClient.new, ConnLog.new]
      · intro log hlog
        rcases mem_logs.1 hlog with hpast | rfl
        · simp at hpast
        · exact ⟨⟨[], by simp, by simp [ConnLog.new]⟩, by simp [ConnLog.new]⟩

theorem send_inv {s t : Session} (h : s.Inv) {args : SendArgs}
    (hstep : s.step (.send args) = some t) : t.Inv := by
  simp only [step] at hstep
  split at hstep
  · cases hstep
  · next ret client effects hsend =>
      cases hstep
      rcases TcpClient.sendMessage_cases h.out hsend with
        ⟨rfl, rfl⟩ | ⟨rfl, _, hclient, hready, hpend⟩
      · exact h
      · -- the message comes behind everything that is to be written
        rcases h.stream with ⟨ms, hms, hstream⟩
        have hibuf : client.ibuf = s.client.ibuf := by rw [hclient]
        refine ⟨hready, by rw [hibuf]; exact h.valid, by rw [hibuf]; exact h.front,
          ⟨ms ++ [args.message], ?_, ?_⟩, by rw [hibuf]; exact h.received, ?_⟩
        · rcases hms with ⟨gone, hgone⟩
          exact ⟨gone, by rw [if_pos rfl, ← hgone, List.append_assoc]⟩
        · calc
            s.now.written ++ client.obuf.pending
                = (s.now.written ++ s.client.obuf.pending) ++ args.message.encode := by
                  rw [hpend, List.append_assoc]
                  rfl
            _ = (ms ++ [args.message]).flatMap Message.encode := by
                  simp [hstream]
        · intro log hlog
          exact (h.framed log hlog).mono (by simp +contextual)

theorem write_inv {s t : Session} (h : s.Inv) {n : Nat} (hstep : s.step (.write n) = some t) :
    t.Inv := by
  simp only [step] at hstep
  split at hstep
  · cases hstep
  · next client bytes hround =>
      cases hstep
      rcases h.out.written (min_le_right n s.client.obuf.length.toNat) with
        ⟨bytes', obuf, hload, hadj, hready, hpend⟩
      simp only [writeRound, hload, hadj, ok_bind] at hround
      cases hround
      rcases h.stream with ⟨ms, hms, hstream⟩
      -- the bytes go from the buffer to the log
      have hstream' : s.now.written ++ bytes ++ obuf.pending = ms.flatMap Message.encode :=
        calc
          s.now.written ++ bytes ++ obuf.pending
              = s.now.written ++ (bytes ++ obuf.pending) := List.append_assoc _ _ _
          _ = s.now.written ++ s.client.obuf.pending := by rw [hpend]
          _ = ms.flatMap Message.encode := hstream
      refine ⟨hready, h.valid, h.front, ⟨ms, hms, hstream'⟩, h.received, ?_⟩
      intro log hlog
      rcases mem_logs.1 hlog with hpast | rfl
      · exact h.framed log (mem_logs.2 (Or.inl hpast))
      · exact framed_now hms hstream' (h.framed s.now (mem_logs.2 (Or.inr rfl))).2

theorem connectionDelay_inv {s t : Session} (h : s.Inv) {soError : Int}
    (hstep : s.step (.connectionDelay soError) = some t) : t.Inv := by
  simp only [step] at hstep
  split at hstep
  · cases hstep
  · next client effects hdelay =>
      cases hstep
      rcases TcpClient.connectionDelay_bufs hdelay with ⟨hobuf, hibuf⟩
      refine ⟨h.out.of_obuf hobuf, by rw [hibuf]; exact h.valid, by rw [hibuf]; exact h.front, ?_,
        by rw [hibuf]; exact h.received, h.framed⟩
      rw [hobuf]
      exact h.stream

/-- Where the condition holds, a read hands over whole messages of this connection. -/
theorem read_inv {s t : Session} (h : s.Inv) {sock : Socket} {rounds : Nat}
    (hclean : s.Clean (.read sock rounds)) (hstep : s.step (.read sock rounds) = some t) :
    t.Inv := by
  simp only [step] at hstep
  split at hstep
  · cases hstep
  · next bs hsock =>
      split at hstep
      · cases hstep
      · next out hread =>
          cases hstep
          rcases (doRead_delivered hsock).1 hread with
            ⟨_, _, hroom, filled, cli₁, ibuf, happ, hloop, hadj, _, hclient⟩
          rcases IoBuf.append_spec h.valid h.front (IoBuf.append_room happ) with
            ⟨_, heq, hvalid, _, hpend, _⟩
          rw [happ] at heq
          cases heq
          rcases hclean bs hsock with ⟨ms, tail, hbytes, hms, htail⟩
          rcases parseLoop_whole hms htail hvalid (hpend.trans hbytes) hloop with
            ⟨hcalls, hsame, hvalid₁, hpend₁⟩
          rcases IoBuf.adjust_spec hvalid₁ with ⟨_, heq, hvalid₂, hfront₂, hpend₂, _⟩
          rw [hadj] at heq
          cases heq
          have hobuf : out.client.obuf = s.client.obuf := by
            rw [hclient, hsame]
          have hibuf : out.client.ibuf = ibuf := by
            rw [hclient]
          -- what was in the buffer, with the bytes of this read, came over this connection
          have hbuffer : s.client.ibuf.pending ++ bs <:+ s.now.received ++ bs :=
            List.suffix_append_self_iff.2 h.received
          rcases h.stream with ⟨ms₀, hms₀, hstream⟩
          have hold := (h.framed s.now (mem_logs.2 (Or.inr rfl))).2
          refine ⟨h.out.of_obuf hobuf, by rw [hibuf]; exact hvalid₂, by rw [hibuf]; exact hfront₂,
            ⟨ms₀, hms₀, by rw [hobuf]; exact hstream⟩, ?_, ?_⟩
          · rw [hibuf, hpend₂, hpend₁]
            refine List.IsSuffix.trans ?_ hbuffer
            rw [hbytes]
            exact List.suffix_append _ _
          · intro log hlog
            rcases mem_logs.1 hlog with hpast | rfl
            · exact h.framed log (mem_logs.2 (Or.inl hpast))
            · refine framed_now hms₀ hstream ?_
              intro call hcall
              -- a call of an earlier read, or one of this read
              rcases List.mem_append.1 hcall with hprev | hnew
              · rcases hold call hprev with ⟨m, hm, hinfix⟩
                exact ⟨m, hm, hinfix.trans (List.prefix_append _ _).isInfix⟩
              · have hmem : call.message ∈ ms.map some := by
                  rw [← hcalls]
                  exact List.mem_map_of_mem hnew
                rcases List.mem_map.1 hmem with ⟨m, hm, hmessage⟩
                refine ⟨m, hmessage.symm, ?_⟩
                have hencode : m.encode <:+: s.client.ibuf.pending ++ bs := by
                  rw [hbytes]
                  exact (List.infix_of_mem_flatten (List.mem_map_of_mem hm)).trans
                    (List.prefix_append _ _).isInfix
                exact hencode.trans hbuffer.isInfix

/-- Where the condition holds, the new connection starts with a message of its own. -/
theorem cleanConn_inv {s t : Session} (h : s.Inv) {ans : ConnectAnswer}
    (hclean : s.Clean (.cleanConn ans)) (hstep : s.step (.cleanConn ans) = some t) : t.Inv := by
  simp only [step] at hstep
  split at hstep
  · cases hstep
  · next client effects hconn =>
      cases hstep
      rcases TcpClient.cleanConn_bufs hconn with ⟨hobuf, hibuf⟩
      rcases hclean with ⟨⟨ms, hms, hpend⟩, hempty⟩
      -- `_obuf` is carried over, and the condition says that it begins with a message
      have hstream : ConnLog.new.written ++ client.obuf.pending = ms.flatMap Message.encode := by
        rw [hobuf, hpend]
        rfl
      refine ⟨h.out.of_obuf hobuf, by rw [hibuf]; exact h.valid, by rw [hibuf]; exact h.front,
        ⟨ms, hms, hstream⟩, ?_, ?_⟩
      · rw [hibuf, IoBuf.pending_eq_nil hempty]
        exact List.nil_suffix
      · intro log hlog
        rcases mem_logs.1 hlog with hpast | rfl
        · exact h.framed log hpast
        · exact framed_now hms hstream (by simp [ConnLog.new])

/-! ## Whole runs -/

/-- A run whose steps all meet the condition starts every connection at a message boundary, in both
directions. -/
theorem connections_framed (ans : ConnectAnswer) (acts : List Act) (s₀ s : Session)
    (hinit : init ans = some s₀) (hclean : Meets step Clean s₀ acts)
    (hrun : run step s₀ acts = some s) : ∀ log ∈ s.logs, s.Framed log := by
  have h : s.Inv := by
    refine run_invariant ?_ (init_inv hinit) hclean hrun
    intro s a t hs hcond hstep
    cases a with
    | send args =>
        exact send_inv hs hstep
    | write n =>
        exact write_inv hs hstep
    | read sock rounds =>
        exact read_inv hs hcond hstep
    | connectionDelay soError =>
        exact connectionDelay_inv hs hstep
    | cleanConn ans =>
        exact cleanConn_inv hs hcond hstep
  exact h.framed

/-- A client whose connection is being established. -/
def connecting : Session :=
  { client := { TcpClient.new with sockfd := 3 }
    past := []
    now := .new
    accepted := [] }

/-- The connection is lost after a message was written and another one was read. -/
def lostBetween : List Act :=
  [.connectionDelay 0, .send ⟨[7, 8], 2, 1⟩, .write 3, .write 9,
    .read (Socket.ofChunk (Message.of 5 [9]).encode 1) 2, .cleanConn ⟨some 3, .inProgress⟩,
    .connectionDelay 0, .send ⟨[6], 1, 1⟩, .write 4]

/-- Enough for the condition: a read is one whole message, and when a connection is given up, both
buffers are empty. -/
def atRest (s : Session) : Act → Bool
  | .read sock _ => s.client.ibuf.length = 0 ∧ delivered sock = some (Message.of 5 [9]).encode
  | .cleanConn _ => s.client.obuf.length = 0 ∧ s.client.ibuf.length = 0
  | _ => true

theorem clean_of_atRest (s : Session) (a : Act) (h : s.atRest a = true) : s.Clean a := by
  cases a with
  | read sock rounds =>
      have hread : s.client.ibuf.length = 0 ∧ delivered sock = some (Message.of 5 [9]).encode := by
        simpa [atRest] using h
      intro bs hbs
      rw [hread.2] at hbs
      cases hbs
      refine ⟨[Message.of 5 [9]], [], ?_, by decide, by decide⟩
      rw [IoBuf.pending_eq_nil hread.1]
      rfl
  | cleanConn ans =>
      have hempty : s.client.obuf.length = 0 ∧ s.client.ibuf.length = 0 := by
        simpa [atRest] using h
      exact ⟨⟨[], by simp, by simp [IoBuf.pending_eq_nil hempty.1]⟩, hempty.2⟩
  | send args => trivial
  | write n => trivial
  | connectionDelay soError => trivial

theorem connections_framed_lostBetween :
    ∃ s, run step connecting lostBetween = some s ∧
      s.now.written = (Message.of 1 [6]).encode.take 4 ∧ ∀ log ∈ s.logs, s.Framed log := by
  have hcheck : (run step connecting lostBetween).map (·.now.written) =
      some ((Message.of 1 [6]).encode.take 4) := by
    decide +kernel
  rcases Option.map_eq_some_iff.1 hcheck with ⟨s, hrun, hs⟩
  have hrest : Meets step (fun s a => s.atRest a = true) connecting lostBetween := by
    decide +kernel
  refine ⟨s, hrun, hs, ?_⟩
  exact connections_framed ⟨some 3, .inProgress⟩ lostBetween connecting s rfl
    (hrest.mono clean_of_atRest) hrun

/-- The connection is lost when three bytes of a message are written. -/
def lostWithin : List Act :=
  [.connectionDelay 0, .send ⟨[7, 8], 2, 1⟩, .write 3, .cleanConn ⟨some 3, .inProgress⟩,
    .connectionDelay 0, .write 9]

/-- The next connection begins with the rest of the message. -/
theorem connections_not_framed :
    ¬ ∀ (ans : ConnectAnswer) (acts : List Act) (s₀ s : Session), init ans = some s₀ →
      run step s₀ acts = some s → ∀ log ∈ s.logs, s.Framed log := by
  intro hall
  have hcheck : (run step connecting lostWithin).map (fun s => (s.now.written, s.accepted)) =
      some ([0, 2, 0, 0, 0, 7, 8], [Message.of 1 [7, 8]]) := by
    decide +kernel
  rcases Option.map_eq_some_iff.1 hcheck with ⟨s, hrun, hs⟩
  rw [Prod.mk.injEq] at hs
  rcases hs with ⟨hwritten, haccepted⟩
  rcases hall ⟨some 3, .inProgress⟩ lostWithin connecting s rfl hrun s.now
    (mem_logs.2 (Or.inr rfl)) with ⟨⟨ms, hms, hpre⟩, _⟩
  rw [hwritten] at hpre
  rw [haccepted] at hms
  cases ms with
  | nil =>
      exact absurd hpre (by decide)
  | cons m ms =>
      -- every accepted message begins with the byte 1
      have hm : m = Message.of 1 [7, 8] := by simpa using hms m (by simp)
      rcases hpre with ⟨rest, hrest⟩
      rw [List.flatMap_cons, hm] at hrest
      have hencode : (Message.of 1 [7, 8]).encode = [1, 0, 0, 0, 2, 0, 0, 0, 7, 8] := by decide
      rw [hencode] at hrest
      simp at hrest

/-! ## The methods are made of these steps -/

/-- What a callback does that only calls `send_message`. -/
def sends : List SendArgs → TcpClient → Except Fault TcpClient
  | [], cli => .ok cli
  | args :: script, cli => do
      let (_, cli, _) ← cli.sendMessage args.data args.msglen args.msgid
      sends script cli

/-- Callbacks that act on the client through `send_message` only. -/
structure SendingCallbacks extends ClientCallbacks where
  start_sends : ∀ f cli cli' effects, connStart = some f → f cli = .ok (cli', effects) →
    ∃ script, sends script cli = .ok cli'
  close_sends : ∀ f cli cli' effects, connClose = some f → f cli = .ok (cli', effects) →
    ∃ script, sends script cli = .ok cli'
  message_sends : ∀ call (cli : TcpClient) obuf effects, cli.connected = true →
    message call cli.obuf = .ok (obuf, effects) →
    ∃ script, sends script cli = .ok { cli with obuf := obuf }

theorem sends_append (script script' : List SendArgs) (cli : TcpClient) :
    sends (script ++ script') cli = (sends script cli >>= sends script') := by
  induction script generalizing cli with
  | nil =>
      rfl
  | cons args script ih =>
      simp only [List.cons_append, sends, ih, bind_assoc]

/-- `send_message` does not look at `_ibuf`, and changes `_obuf` only. -/
theorem sendMessage_ibuf {cli cli' : TcpClient} {data : List UInt8} {msglen msgid : Int32}
    {ret : Int} {effects : List ClientEffect}
    (h : cli.sendMessage data msglen msgid = .ok (ret, cli', effects)) :
    cli' = { cli with obuf := cli'.obuf } ∧
      ∀ ibuf, ({ cli with ibuf := ibuf } : TcpClient).sendMessage data msglen msgid =
        .ok (ret, { cli' with ibuf := ibuf }, effects) := by
  unfold TcpClient.sendMessage at h ⊢
  split_ifs at h with hconn hfull
  · cases h
    exact ⟨rfl, fun ibuf => by simp [hconn]⟩
  · cases h
    exact ⟨rfl, fun ibuf => by simp [hconn, hfull]⟩
  · rcases bind_eq_ok.1 h with ⟨obuf₁, happ₁, h⟩
    rcases bind_eq_ok.1 h with ⟨body, hbody, h⟩
    rcases bind_eq_ok.1 h with ⟨obuf₂, happ₂, h⟩
    cases h
    exact ⟨rfl, fun ibuf => by simp [hconn, hfull, happ₁, hbody, happ₂]⟩

theorem sends_ibuf {script : List SendArgs} :
    ∀ {cli cli' : TcpClient}, sends script cli = .ok cli' →
      cli' = { cli with obuf := cli'.obuf } ∧
        ∀ ibuf, sends script { cli with ibuf := ibuf } = .ok { cli' with ibuf := ibuf } := by
  induction script with
  | nil =>
      intro cli cli' h
      cases h
      exact ⟨rfl, fun _ => rfl⟩
  | cons args script ih =>
      intro cli cli' h
      rcases bind_eq_ok.1 h with ⟨⟨ret, cli₁, effects⟩, hsend, hrest⟩
      rcases sendMessage_ibuf hsend with ⟨hsame, hframe⟩
      rcases ih hrest with ⟨hsame', hframe'⟩
      refine ⟨?_, ?_⟩
      · rw [hsame', hsame]
      · intro ibuf
        simp only [sends, hframe ibuf, ok_bind]
        exact hframe' ibuf

/-- Nothing is accepted on a client that is not connected. -/
theorem sends_disconnected {script : List SendArgs} {cli cli' : TcpClient}
    (hdown : cli.connected = false) (h : sends script cli = .ok cli') : cli' = cli := by
  induction script with
  | nil =>
      cases h
      rfl
  | cons args script ih =>
      simp only [sends, TcpClient.sendMessage, hdown, if_true, ok_bind] at h
      exact ih h

theorem sends_run {script : List SendArgs} :
    ∀ {s : Session} {cli : TcpClient}, sends script s.client = .ok cli →
      ∃ t, run step s (script.map .send) = some t ∧ t.client = cli ∧ t.past = s.past ∧
        t.now = s.now := by
  induction script with
  | nil =>
      intro s cli h
      cases h
      exact ⟨s, rfl, rfl, rfl, rfl⟩
  | cons args script ih =>
      intro s cli h
      rcases bind_eq_ok.1 h with ⟨⟨ret, cli₁, effects⟩, hsend, hrest⟩
      have hstep : s.step (.send args) = some { s with
          client := cli₁
          accepted := if ret = 0 then s.accepted ++ [args.message] else s.accepted } := by
        simp only [step, hsend]
      rcases ih (s := { s with
          client := cli₁
          accepted := if ret = 0 then s.accepted ++ [args.message] else s.accepted }) hrest with
        ⟨t, hrun, hclient, hpast, hnow⟩
      exact ⟨t, run_cons.2 ⟨_, hstep, hrun⟩, hclient, hpast, hnow⟩

section Methods

variable (cbs : SendingCallbacks)

theorem connectionUp_split {cli cli' : TcpClient} {fdOf : TcpClient → Int}
    {effects : List ClientEffect}
    (h : TcpClient.connectionUp cbs.toClientCallbacks cli fdOf = .ok (cli', effects)) :
    ∃ script, sends script { cli with connected := true } = .ok cli' := by
  unfold TcpClient.connectionUp at h
  rcases bind_eq_ok.1 h with ⟨⟨cli₁, called⟩, hcall, h⟩
  cases h
  unfold TcpClient.callback at hcall
  split at hcall
  · cases hcall
    exact ⟨[], rfl⟩
  · next f hf =>
      exact cbs.start_sends f _ _ _ hf hcall

/-- `do_connect` is the one without callbacks, followed by what the callback sends. -/
theorem doConnect_split {cli cli' : TcpClient} {ans : ConnectAnswer} {effects : List ClientEffect}
    (h : TcpClient.doConnect cbs.toClientCallbacks cli ans = .ok (cli', effects)) :
    ∃ cli₁ effects₁ script,
      TcpClient.doConnect ClientCallbacks.none cli ans = .ok (cli₁, effects₁) ∧
      sends script cli₁ = .ok cli' := by
  unfold TcpClient.doConnect at h ⊢
  split_ifs at h ⊢ with hdead
  · cases h
    exact ⟨cli, [], [], rfl, rfl⟩
  · cases hsocket : ans.socket with
    | none =>
        simp [hsocket] at h
    | some fd =>
        simp only [hsocket] at h ⊢
        cases hconnect : ans.connect with
        | inProgress =>
            simp only [hconnect] at h ⊢
            cases h
            exact ⟨_, _, [], rfl, rfl⟩
        | failed =>
            simp [hconnect] at h
        | done =>
            simp only [hconnect] at h ⊢
            rcases connectionUp_split cbs h with ⟨script, hscript⟩
            exact ⟨_, _, script, rfl, hscript⟩

theorem connectionDelay_split {cli cli' : TcpClient} {fd soError : Int}
    {effects : List ClientEffect}
    (h : cli.connectionDelay cbs.toClientCallbacks fd soError = .ok (cli', effects)) :
    ∃ cli₁ effects₁ script,
      cli.connectionDelay ClientCallbacks.none cli.sockfd soError = .ok (cli₁, effects₁) ∧
      sends script cli₁ = .ok cli' := by
  unfold TcpClient.connectionDelay at h ⊢
  split_ifs at h ⊢ with hok
  · rcases bind_eq_ok.1 h with ⟨⟨cli₁, effects₁⟩, hup, h⟩
    cases h
    rcases connectionUp_split cbs hup with ⟨script, hscript⟩
    exact ⟨_, _, script, rfl, hscript⟩
  · cases h
    exact ⟨cli, _, [], rfl, rfl⟩

/-- What `conn_close_cb` sends is refused. -/
theorem cleanConn_split {cli cli' : TcpClient} {ans : ConnectAnswer} {effects : List ClientEffect}
    (h : cli.cleanConn cbs.toClientCallbacks ans = .ok (cli', effects)) :
    ∃ cli₁ effects₁ script,
      cli.cleanConn ClientCallbacks.none ans = .ok (cli₁, effects₁) ∧
      sends script cli₁ = .ok cli' := by
  unfold TcpClient.cleanConn at h ⊢
  rcases bind_eq_ok.1 h with ⟨⟨cli₀, called⟩, hcall, h⟩
  rcases bind_eq_ok.1 h with ⟨⟨cli₁, effects₁⟩, hconnect, h⟩
  cases h
  -- `_connected` is reset before the callback is called
  have hclosed : cli₀ = { cli with connected := false } := by
    unfold TcpClient.callback at hcall
    split at hcall
    · cases hcall
      rfl
    · next f hf =>
        rcases cbs.close_sends f _ _ _ hf hcall with ⟨script, hscript⟩
        exact sends_disconnected rfl hscript
  subst hclosed
  rcases doConnect_split cbs hconnect with ⟨cli₂, effects₂, script, hconnect₂, hscript⟩
  exact ⟨cli₂, _, script,
    bind_eq_ok.2 ⟨(_, []), rfl, bind_eq_ok.2 ⟨(cli₂, effects₂), hconnect₂, rfl⟩⟩, hscript⟩

/-- Without callbacks the loop does not look at `_obuf`. -/
theorem parseLoop_obuf {rounds : Nat} :
    ∀ {cli cli' : TcpClient} {calls : List ClientCall} {effects : List ClientEffect},
      TcpClient.parseLoop ClientCallbacks.none rounds cli = .ok (cli', calls, effects) →
      cli' = { cli with ibuf := cli'.ibuf } ∧
        ∀ obuf, TcpClient.parseLoop ClientCallbacks.none rounds { cli with obuf := obuf } =
          .ok ({ cli' with obuf := obuf }, calls, effects) := by
  induction rounds with
  | zero =>
      intro cli cli' calls effects h
      cases h
  | succ rounds ih =>
      intro cli cli' calls effects h
      unfold TcpClient.parseLoop at h ⊢
      split_ifs at h ⊢ with hlen
      · rcases bind_eq_ok.1 h with ⟨bytes, hload, h⟩
        simp only [ClientCallbacks.none, ok_bind] at h
        rcases bind_eq_ok.1 h with ⟨⟨cli₁, calls₁, effects₁⟩, hrest, h⟩
        cases h
        rcases ih hrest with ⟨hsame, hframe⟩
        refine ⟨hsame, fun obuf => ?_⟩
        have hrest' := hframe obuf
        simp only [ClientCallbacks.none] at hrest'
        simp only [hload, ClientCallbacks.none, ok_bind, hrest', pure_eq_ok]
      · cases h
        exact ⟨rfl, fun _ => rfl⟩

/-- What the message callbacks send may as well be sent behind the loop. -/
theorem parseLoop_split {rounds : Nat} :
    ∀ {cli cli' : TcpClient} {calls : List ClientCall} {effects : List ClientEffect},
      cli.connected = true →
      TcpClient.parseLoop cbs.toClientCallbacks rounds cli = .ok (cli', calls, effects) →
      ∃ cli₁ effects₁ script,
        TcpClient.parseLoop ClientCallbacks.none rounds cli = .ok (cli₁, calls, effects₁) ∧
        sends script cli₁ = .ok cli' := by
  induction rounds with
  | zero =>
      intro cli cli' calls effects _ h
      cases h
  | succ rounds ih =>
      intro cli cli' calls effects hup h
      unfold TcpClient.parseLoop at h ⊢
      split_ifs at h ⊢ with hlen
      · rcases bind_eq_ok.1 h with ⟨bytes, hload, h⟩
        rcases bind_eq_ok.1 h with ⟨⟨obuf, called⟩, hcall, h⟩
        rcases bind_eq_ok.1 h with ⟨⟨cli₂, calls₂, effects₂⟩, hrest, h⟩
        cases h
        rcases cbs.message_sends _ cli obuf called hup hcall with ⟨first, hfirst⟩
        rcases ih (by exact hup) hrest with ⟨cli₃, effects₃, script, hloop, hscript⟩
        -- the rest of the loop, from the `_obuf` that it would find without the callback
        rcases parseLoop_obuf hloop with ⟨hsame, hframe⟩
        have hscripts : sends (first ++ script) { cli₃ with obuf := cli.obuf } = .ok cli' := by
          have hfirst' := (sends_ibuf hfirst).2 cli₃.ibuf
          have hstart : ({ cli₃ with obuf := cli.obuf } : TcpClient) =
              { cli with ibuf := cli₃.ibuf } := by
            rw [hsame]
          have hmiddle : ({ cli with obuf := obuf, ibuf := cli₃.ibuf } : TcpClient) = cli₃ := by
            rw [hsame]
          calc
            sends (first ++ script) { cli₃ with obuf := cli.obuf }
                = (sends first { cli with ibuf := cli₃.ibuf } >>= sends script) := by
                  rw [sends_append, hstart]
            _ = sends script { cli with obuf := obuf, ibuf := cli₃.ibuf } := by
                  rw [hfirst', ok_bind]
            _ = .ok cli' := by
                  rw [hmiddle, hscript]
        exact ⟨_, _, first ++ script, bind_eq_ok.2 ⟨bytes, hload, bind_eq_ok.2 ⟨(cli.obuf, []), rfl,
          bind_eq_ok.2 ⟨_, hframe cli.obuf, rfl⟩⟩⟩, hscripts⟩
      · cases h
        exact ⟨cli, [], [], rfl, rfl⟩

/-- All bytes written so far, on whichever connection. -/
def allWritten (s : Session) : List UInt8 :=
  s.logs.flatMap ConnLog.written

/-- All calls made so far, on whichever connection. -/
def allCalls (s : Session) : List ClientCall :=
  s.logs.flatMap ConnLog.calls

/-- A step, then what the callbacks send. -/
theorem run_step_sends {s t : Session} {a : Act} {script : List SendArgs} {cli : TcpClient}
    (hstep : s.step a = some t) (hscript : sends script t.client = .ok cli) :
    ∃ u, run step s (a :: script.map .send) = some u ∧ u.client = cli ∧ u.logs = t.logs := by
  rcases sends_run hscript with ⟨u, hrun, hclient, hpast, hnow⟩
  exact ⟨u, run_cons.2 ⟨t, hstep, hrun⟩, hclient, by rw [logs, logs, hpast, hnow]⟩

theorem cleanConn_run {s : Session} {ans : ConnectAnswer} {cli : TcpClient}
    {effects : List ClientEffect}
    (h : s.client.cleanConn cbs.toClientCallbacks ans = .ok (cli, effects)) :
    ∃ acts t, run step s acts = some t ∧ t.client = cli ∧ t.logs = s.logs ++ [.new] := by
  rcases cleanConn_split cbs h with ⟨cli₁, effects₁, script, hclean, hscript⟩
  have hstep : s.step (.cleanConn ans) =
      some { s with client := cli₁, past := s.past ++ [s.now], now := .new } := by
    simp only [step, hclean]
  rcases run_step_sends hstep hscript with ⟨t, hrun, hclient, hlogs⟩
  exact ⟨_, t, hrun, hclient, hlogs⟩

theorem connectionDelay_run {s : Session} {fd soError : Int} {cli : TcpClient}
    {effects : List ClientEffect}
    (h : s.client.connectionDelay cbs.toClientCallbacks fd soError = .ok (cli, effects)) :
    ∃ acts t, run step s acts = some t ∧ t.client = cli ∧ t.logs = s.logs := by
  rcases connectionDelay_split cbs h with ⟨cli₁, effects₁, script, hdelay, hscript⟩
  have hstep : s.step (.connectionDelay soError) = some { s with client := cli₁ } := by
    simp only [step, hdelay]
  rcases run_step_sends hstep hscript with ⟨t, hrun, hclient, hlogs⟩
  exact ⟨_, t, hrun, hclient, hlogs⟩

/-- `do_read`, whatever the socket answers. -/
theorem doRead_run {s : Session} {rounds : Nat} {sock : Socket} {reconnect : ConnectAnswer}
    {out : TcpClient.ReadOutcome}
    (h : s.client.doRead cbs.toClientCallbacks rounds sock reconnect = .ok out) :
    ∃ acts t, run step s acts = some t ∧ t.client = out.client ∧
      t.allCalls = s.allCalls ++ out.calls := by
  cases hsock : delivered sock with
  | some bs =>
      rcases (doRead_delivered hsock).1 h with
        ⟨hup, hsize, hroom, filled, cli₁, ibuf, happ, hloop, hadj, _, hclient⟩
      rcases parseLoop_split cbs (by exact hup) hloop with
        ⟨cli₂, effects₂, script, hloop₂, hscript⟩
      -- sending does not touch `_ibuf`, so it may be adjusted before
      rcases sends_ibuf hscript with ⟨hsame, hframe⟩
      have hibuf : cli₁.ibuf = cli₂.ibuf := by rw [hsame]
      rw [hibuf] at hadj
      have hread : s.client.doRead ClientCallbacks.none rounds sock
          { socket := none, connect := .failed } = .ok
            { ret := 0
              client := { cli₂ with ibuf := ibuf }
              calls := out.calls
              effects := effects₂ } :=
        (doRead_delivered hsock).2 ⟨hup, hsize, hroom, filled, cli₂, ibuf, happ, hloop₂, hadj, rfl,
          rfl⟩
      have hstep : s.step (.read sock rounds) = some { s with
          client := { cli₂ with ibuf := ibuf }
          now := { s.now with
            received := s.now.received ++ bs
            calls := s.now.calls ++ out.calls } } := by
        simp only [step, hsock, hread]
      rcases run_step_sends hstep (hframe ibuf) with ⟨t, hrun, hclient', hlogs⟩
      refine ⟨_, t, hrun, by rw [hclient', hclient], ?_⟩
      rw [allCalls, allCalls, hlogs]
      simp [logs]
  | none =>
      unfold TcpClient.doRead at h
      rcases bind_eq_ok.1 h with ⟨_, _, h⟩
      cases hneed : sock.fionread with
      | none =>
          simp only [hneed] at h
          cases h
          exact ⟨[], s, rfl, rfl, by simp⟩
      | some needRead =>
          simp only [hneed] at h
          rcases bind_eq_ok.1 h with ⟨_, _, h⟩
          -- end of file and errors come to the same
          have hfailed : ∀ {cli effects},
              s.client.cleanConn cbs.toClientCallbacks reconnect = .ok (cli, effects) →
              ∃ acts t, run step s acts = some t ∧ t.client = cli ∧
                t.allCalls = s.allCalls ++ [] := by
            intro cli effects hclean
            rcases cleanConn_run cbs hclean with ⟨acts, t, hrun, hclient, hlogs⟩
            refine ⟨acts, t, hrun, hclient, ?_⟩
            rw [allCalls, allCalls, hlogs]
            simp [ConnLog.new]
          cases hret : TcpClient.readRet needRead sock.read with
          | none =>
              simp only [hret] at h
              rcases bind_eq_ok.1 h with ⟨⟨cli₁, effects₁⟩, hclean, h⟩
              cases h
              exact hfailed hclean
          | some bs =>
              cases bs with
              | nil =>
                  simp only [hret] at h
                  rcases bind_eq_ok.1 h with ⟨⟨cli₁, effects₁⟩, hclean, h⟩
                  cases h
                  exact hfailed hclean
              | cons b bs =>
                  simp [delivered, hneed, hret] at hsock

/-- `do_write`, whatever the kernel answers. -/
theorem writeLoop_run {answers : List WriteAnswer} :
    ∀ {s : Session} {out : TcpClient.WriteOutcome},
      TcpClient.writeLoop cbs.toClientCallbacks s.client answers = .ok out →
      ∃ acts t, run step s acts = some t ∧ t.client = out.client ∧
        t.allWritten = s.allWritten ++ (out.taken.map Prod.snd).flatten := by
  induction answers with
  | nil =>
      intro s out h
      unfold TcpClient.writeLoop at h
      split_ifs at h
      cases h
      exact ⟨[], s, rfl, rfl, by simp⟩
  | cons ans answers ih =>
      intro s out h
      unfold TcpClient.writeLoop at h
      split_ifs at h with hsome
      · cases hret : ans.write.ret with
        | again =>
            simp only [hret] at h
            cases h
            exact ⟨[], s, rfl, rfl, by simp⟩
        | error =>
            -- the loop goes on with the new socket
            simp only [hret] at h
            rcases bind_eq_ok.1 h with ⟨⟨cli₁, effects₁⟩, hclean, h⟩
            rcases bind_eq_ok.1 h with ⟨out₁, hrest, h⟩
            cases h
            rcases cleanConn_run cbs hclean with ⟨acts, t, hrun, hclient, hlogs⟩
            rw [← hclient] at hrest
            rcases ih hrest with ⟨acts', u, hrun', hclient', hwritten⟩
            refine ⟨acts ++ acts', u, by rw [run_append, hrun]; exact hrun', hclient', ?_⟩
            rw [hwritten, allWritten, allWritten, hlogs]
            simp [ConnLog.new]
        | wrote n =>
            simp only [hret] at h
            split_ifs at h with hpos
            · rcases bind_eq_ok.1 h with ⟨bytes, hload, h⟩
              rcases bind_eq_ok.1 h with ⟨obuf, hadj, h⟩
              rcases bind_eq_ok.1 h with ⟨out₁, hrest, h⟩
              cases h
              have hstep : s.step (.write n) = some { s with
                  client := { s.client with obuf := obuf }
                  now := { s.now with written := s.now.written ++ bytes } } := by
                simp only [step, writeRound, hload, hadj, ok_bind, pure_eq_ok]
              rcases ih (s := { s with
                  client := { s.client with obuf := obuf }
                  now := { s.now with written := s.now.written ++ bytes } }) hrest with
                ⟨acts, t, hrun, hclient, hwritten⟩
              refine ⟨.write n :: acts, t, run_cons.2 ⟨_, hstep, hrun⟩, hclient, ?_⟩
              rw [hwritten]
              simp [allWritten, logs]
            · cases h
              exact ⟨[], s, rfl, rfl, by simp⟩
      · cases h
        exact ⟨[], s, rfl, rfl, by simp⟩

theorem doWrite_run {s : Session} {answers : List WriteAnswer} {out : TcpClient.WriteOutcome}
    (h : s.client.doWrite cbs.toClientCallbacks answers = .ok out) :
    ∃ acts t, run step s acts = some t ∧ t.client = out.client ∧
      t.allWritten = s.allWritten ++ (out.taken.map Prod.snd).flatten := by
  unfold TcpClient.doWrite at h
  rcases bind_eq_ok.1 h with ⟨_, _, h⟩
  rcases bind_eq_ok.1 h with ⟨out₁, hloop, h⟩
  have hrun := writeLoop_run cbs hloop
  split_ifs at h <;> cases h <;> exact hrun

end Methods

end Session
end Reactor
end Rins
