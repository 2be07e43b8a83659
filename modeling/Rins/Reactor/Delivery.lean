import Rins.Lib.Run
import Rins.Reactor.ServerFraming
import Rins.Reactor.TcpClient

/-!
# Delivery — messages from a client to a server over one connection

A client, the network and a server connection, moving in any order: the application calls
`send_message`, the event loop calls `do_write` with whatever the kernel answers, and bytes that
were written reach `do_read` on the other side in chunks that the network chooses.

The invariant ties the five places where a message can be: all bytes ever accepted are the bytes the
server has read, then the bytes in flight, then the bytes pending in the client's `_obuf`; and the
server has made of the bytes it has read what the reference reading makes of them.
-/

namespace Rins
namespace Reactor

open Lib

/-- A client connected to a server, and what was asked of and seen at both ends. -/
structure Link where
  client : TcpClient
  /-- bytes written and not yet read, in order -/
  net : List UInt8
  server : TcpConn
  /-- messages for which `send_message` returned 0 -/
  accepted : List Message
  /-- messages handed to `tcp_server::router.call` -/
  dispatched : List Message
  /-- the fault of either process, if there was one -/
  crashed : Option Fault

namespace Link

/-- What can happen on the connection. -/
inductive Act
  /-- `send_message(body, body.length, id)` -/
  | send (id : Int32) (body : List UInt8)
  /-- `do_write`, with the kernel's answers -/
  | write (answers : List WriteAnswer)
  /-- the network hands over the next `n` bytes and `do_read` reads them, with the server's pool as
  it is then -/
  | deliver (n : Nat) (pool : BufPool) (eintrs : Nat)

/-- Both ends just after the connection was established. -/
def init (sockfd connfd : Int) : Link :=
  { client := { TcpClient.new with connected := true, sockfd := sockfd }
    net := []
    server := TcpConn.new connfd
    accepted := []
    dispatched := []
    crashed := none }

/-- One step of the system.  `do_write` is called only while there is something to write, and is a
step once the kernel has answered often enough for it to return. -/
def step (cbs : ClientCallbacks) (cb : MsgCallback) (s : Link) : Act → Option Link
  | .send id body =>
      if s.crashed = none ∧ 1 ≤ body.length ∧ body.length ≤ messageLengthLimit then
        match s.client.sendMessage body (Int32.ofNat body.length) id with
        | .error e => some { s with crashed := some e }
        | .ok (ret, client, _) =>
            if ret = 0 then
              some { s with client := client, accepted := s.accepted ++ [Message.of id body] }
            else
              some { s with client := client }
      else
        none
  | .write answers =>
      if s.crashed = none ∧ s.client.obuf.length ≠ 0 ∧ TcpClient.KeepsUp answers then
        match s.client.doWrite cbs answers with
        | .error .unfinished => none
        | .error e => some { s with crashed := some e }
        | .ok out =>
            some { s with client := out.client, net := s.net ++ (out.taken.map Prod.snd).flatten }
      else
        none
  | .deliver n pool eintrs =>
      if s.crashed = none ∧ 1 ≤ n ∧ n ≤ s.net.length ∧ n ≤ TcpConn.maxChunk then
        match s.server.doRead cb pool (Socket.ofChunk (s.net.take n) eintrs) with
        | .error e => some { s with crashed := some e }
        | .ok out =>
            some { s with
              net := s.net.drop n
              server := out.conn
              dispatched := s.dispatched ++ out.calls }
      else
        none

/-- The assumption on the environment: the buffer pool stays below its memory cap. -/
def PoolServes (_ : Link) : Act → Prop
  | .deliver _ pool _ => pool.Serviceable
  | _ => True

/-- The assumption on the callback of the server: it returns from the calls that `do_read` makes. -/
def CallbackReturns (cb : MsgCallback) (s : Link) : Act → Prop
  | .deliver n pool eintrs =>
      Orderly False cb
        (TcpConn.ReadCalls cb pool s.server (Socket.ofChunk (s.net.take n) eintrs))
  | _ => True

theorem callbackReturns_none (s : Link) (a : Act) : CallbackReturns MsgCallback.none s a := by
  cases a with
  | deliver n pool eintrs => exact orderly_none _ _
  | _ => trivial

/-! ## The invariant -/

/-- The bytes of all accepted messages, in order. -/
def stream (s : Link) : List UInt8 :=
  s.accepted.flatMap Message.encode

/-- `consumed` is what the server has read so far. -/
structure Inv (s : Link) (consumed : List UInt8) : Prop where
  alive : s.crashed = none
  client : s.client.OutReady
  server : s.server.AtRest
  wellFormed : ∀ m ∈ s.accepted, m.WellFormed ∧ m.body ≠ []
  bytes : consumed ++ s.net ++ s.client.obuf.pending = s.stream
  parsed : serverFraming.parse consumed = (s.dispatched, .pending s.server.ibuf.content)

theorem init_inv (sockfd connfd : Int) : Inv (init sockfd connfd) [] where
  alive := rfl
  client := TcpClient.new_outReady true sockfd
  server := TcpConn.new_atRest connfd
  wellFormed := by simp [init]
  bytes := rfl
  parsed := serverFraming.parse_wait serverFraming_nil

/-- The reference reading of all accepted bytes is the list of accepted messages. -/
theorem Inv.parse_stream {s : Link} {consumed : List UInt8} (h : Inv s consumed) :
    serverFraming.parse s.stream = (s.accepted, .pending []) :=
  serverFraming.parse_encode _ serverFraming_nil _ fun m hm =>
    serverFraming_encode (h.wellFormed m hm).1

/-- After reading `c` more of the accepted bytes the reference reading is still waiting, and what it
has emitted is a prefix of what was accepted. -/
theorem Inv.parse_more {s : Link} {consumed c rest : List UInt8} (h : Inv s consumed)
    (hsplit : consumed ++ c ++ rest = s.stream) :
    (serverFraming.parse (consumed ++ c)).1 <+: s.accepted ∧
      ∃ tail, (serverFraming.parse (consumed ++ c)).2 = .pending tail := by
  have hall := h.parse_stream
  rw [← hsplit, serverFraming.parse_append] at hall
  have hmsgs := congrArg Prod.fst hall
  have hres := congrArg Prod.snd hall
  refine ⟨⟨_, hmsgs⟩, ?_⟩
  cases hclosed : (serverFraming.parse (consumed ++ c)).2 with
  | closed =>
      rw [hclosed] at hres
      cases hres
  | pending tail =>
      exact ⟨tail, rfl⟩

theorem send_inv {cbs : ClientCallbacks} {cb : MsgCallback} {s t : Link} {consumed : List UInt8}
    (h : Inv s consumed) {id : Int32} {body : List UInt8}
    (hstep : step cbs cb s (.send id body) = some t) : Inv t consumed := by
  simp only [step] at hstep
  split_ifs at hstep with hguard
  rcases TcpClient.sendMessage_spec h.client id hguard.2.2 with
    ⟨effects, hsend⟩ | ⟨obuf, effects, hsend, hready, hpend⟩
  · -- refused: nothing changed
    simp only [hsend] at hstep
    cases hstep
    exact h
  · simp only [hsend, if_true] at hstep
    cases hstep
    refine ⟨h.alive, hready, h.server, ?_, ?_, h.parsed⟩
    · intro m hm
      rcases List.mem_append.1 hm with hold | hnew
      · exact h.wellFormed m hold
      · rw [List.mem_singleton] at hnew
        subst hnew
        refine ⟨Message.of_wellFormed hguard.2.2, ?_⟩
        exact List.ne_nil_of_length_pos hguard.2.1
    · have hbytes := h.bytes
      simp only [stream] at hbytes ⊢
      rw [hpend, List.flatMap_append, ← hbytes]
      simp

theorem write_inv {cbs : ClientCallbacks} {cb : MsgCallback} {s t : Link} {consumed : List UInt8}
    (h : Inv s consumed) {answers : List WriteAnswer}
    (hstep : step cbs cb s (.write answers) = some t) : Inv t consumed := by
  simp only [step] at hstep
  split_ifs at hstep with hguard
  have hup : TcpClient.KeepsUp answers := hguard.2.2
  cases hwrite : s.client.doWrite cbs answers with
  | error e =>
      -- `do_write` asks for more answers, which is no step
      have he : e = .unfinished := TcpClient.doWrite_fault hup h.client hguard.2.1 hwrite
      subst he
      simp [hwrite] at hstep
  | ok out =>
      rcases TcpClient.doWrite_spec hup h.client hwrite with ⟨_, hready, hbytes⟩
      simp only [hwrite, Option.some.injEq] at hstep
      subst hstep
      refine ⟨h.alive, hready, h.server, h.wellFormed, ?_, h.parsed⟩
      have := h.bytes
      simp only [List.append_assoc, hbytes] at this ⊢
      exact this

theorem deliver_inv {cbs : ClientCallbacks} {cb : MsgCallback} {s t : Link}
    {consumed : List UInt8} (h : Inv s consumed) {n : Nat} {pool : BufPool} {eintrs : Nat}
    (hpool : pool.Serviceable) (hcb : CallbackReturns cb s (.deliver n pool eintrs))
    (hstep : step cbs cb s (.deliver n pool eintrs) = some t) :
    Inv t (consumed ++ s.net.take n) := by
  simp only [step] at hstep
  split_ifs at hstep with hguard
  set c := s.net.take n with hc
  have hne : c ≠ [] := by
    apply List.ne_nil_of_length_pos
    rw [hc, List.length_take]
    omega
  -- the chunk moves from the network to what the server has read
  have hsplit : consumed ++ c ++ (s.net.drop n ++ s.client.obuf.pending) = s.stream :=
    calc
      consumed ++ c ++ (s.net.drop n ++ s.client.obuf.pending)
          = consumed ++ (s.net.take n ++ s.net.drop n) ++ s.client.obuf.pending := by
            rw [hc, ← List.append_assoc, List.append_assoc consumed]
      _ = consumed ++ s.net ++ s.client.obuf.pending := by
            rw [List.take_append_drop]
      _ = s.stream := h.bytes
  rcases h.parse_more hsplit with ⟨hsome, tail, htail⟩
  -- reading on from what is in `_ibuf` is reading on from `consumed`
  have hfeed : serverFraming.parse (consumed ++ c) =
      (s.dispatched ++ (serverFraming.feed (.pending s.server.ibuf.content) c).1,
        (serverFraming.feed (.pending s.server.ibuf.content) c).2) := by
    rw [serverFraming.parse_append, h.parsed]
  have hwait : serverFraming.next s.server.ibuf.content = .wait :=
    serverFraming.next_of_parse_pending consumed (by rw [h.parsed])
  have hshort := TcpConn.length_lt_of_wait hwait
  have hfit : s.server.ibuf.content.length + c.length ≤ 8388608 := by
    have hmax := hguard.2.2.2
    simp only [TcpConn.maxChunk] at hmax
    rw [hc, List.length_take]
    omega
  rw [hfeed] at hsome htail
  rcases TcpConn.doRead_spec hpool h.server hne hfit hcb
      (fun m hm => (h.wellFormed m (hsome.subset (by simp [hm]))).2) with
    ⟨out, hread, _, hcalls, hkept⟩
  rw [htail] at hkept
  simp only [hread, Option.some.injEq] at hstep
  subst hstep
  refine ⟨h.alive, h.client, hkept.2.2.1, h.wellFormed, ?_, ?_⟩
  · simpa [stream] using hsplit
  · rw [hfeed, hcalls, htail, hkept.2.2.2]

/-- Whatever happens on the connection, some list of bytes is what the server has read. -/
theorem run_inv {cbs : ClientCallbacks} {cb : MsgCallback} {sockfd connfd : Int} {as : List Act}
    {s : Link} (hpool : Meets (step cbs cb) PoolServes (init sockfd connfd) as)
    (hcb : Meets (step cbs cb) (CallbackReturns cb) (init sockfd connfd) as)
    (hrun : run (step cbs cb) (init sockfd connfd) as = some s) :
    ∃ consumed, Inv s consumed := by
  refine run_invariant (I := fun s => ∃ consumed, Inv s consumed) ?_
    ⟨[], init_inv sockfd connfd⟩ (hpool.and hcb) hrun
  rintro s a t ⟨consumed, h⟩ ⟨hserves, hreturns⟩ hstep
  cases a with
  | send id body =>
      exact ⟨consumed, send_inv h hstep⟩
  | write answers =>
      exact ⟨consumed, write_inv h hstep⟩
  | deliver n pool eintrs =>
      exact ⟨_, deliver_inv h hserves hreturns hstep⟩

/-- Exactly-once, in-order delivery.  In every run, neither process fails, the messages dispatched
are a prefix of the messages accepted, and they are all of them whenever the client's `_obuf`, the
network and the server's `_ibuf` are empty. -/
theorem dispatched_isPrefix_accepted (cbs : ClientCallbacks) (cb : MsgCallback)
    (sockfd connfd : Int) (as : List Act) (s : Link)
    (hpool : Meets (step cbs cb) PoolServes (init sockfd connfd) as)
    (hcb : Meets (step cbs cb) (CallbackReturns cb) (init sockfd connfd) as)
    (hrun : run (step cbs cb) (init sockfd connfd) as = some s) :
    s.crashed = none ∧ s.dispatched <+: s.accepted ∧
      (s.client.obuf.pending = [] → s.net = [] → s.server.ibuf.content = [] →
        s.dispatched = s.accepted) := by
  rcases run_inv hpool hcb hrun with ⟨consumed, h⟩
  refine ⟨h.alive, ?_, ?_⟩
  · have hsplit : consumed ++ [] ++ (s.net ++ s.client.obuf.pending) = s.stream := by
      rw [← h.bytes]
      simp
    rcases h.parse_more hsplit with ⟨hsome, _⟩
    simpa [h.parsed] using hsome
  · intro hobuf hnet _
    have hbytes := h.bytes
    rw [hobuf, hnet, List.append_nil, List.append_nil] at hbytes
    have hall := h.parse_stream
    rw [← hbytes, h.parsed] at hall
    exact congrArg Prod.fst hall

/-- One message, written in two parts after an `EAGAIN` and read in two parts cut elsewhere. -/
def sampleRun : List Act :=
  let answer (res : SysWrite) : WriteAnswer :=
    { write := res
      reconnect := { socket := none, connect := .failed } }
  [.send 2 [7, 8], .write [answer .again], .write [answer (.wrote 3), answer (.eintr .again)],
    .deliver 2 BufPool.init 0, .write [answer (.wrote 7)], .deliver 8 BufPool.init 1]

theorem dispatched_isPrefix_accepted_sampleRun :
    ∃ s, run (step ClientCallbacks.none MsgCallback.none) (init 3 5) sampleRun = some s ∧
      s.crashed = none ∧ s.dispatched = [Message.of 2 [7, 8]] ∧ s.dispatched <+: s.accepted := by
  have hdone : (run (step ClientCallbacks.none MsgCallback.none) (init 3 5) sampleRun).map
      Link.dispatched = some [Message.of 2 [7, 8]] := by
    decide +kernel
  rcases Option.map_eq_some_iff.1 hdone with ⟨s, hrun, hdispatched⟩
  have hpool : Meets (step ClientCallbacks.none MsgCallback.none) PoolServes (init 3 5)
      sampleRun :=
    ⟨trivial, fun _ _ => ⟨trivial, fun _ _ => ⟨trivial, fun _ _ => ⟨BufPool.init_serviceable,
      fun _ _ => ⟨trivial, fun _ _ => ⟨BufPool.init_serviceable, fun _ _ => trivial⟩⟩⟩⟩⟩⟩
  have hcb : Meets (step ClientCallbacks.none MsgCallback.none) (CallbackReturns MsgCallback.none)
      (init 3 5) sampleRun :=
    (meets_true _ _).mono fun s a _ => callbackReturns_none s a
  rcases dispatched_isPrefix_accepted ClientCallbacks.none MsgCallback.none 3 5 sampleRun s hpool
    hcb hrun with ⟨halive, hpre, _⟩
  exact ⟨s, hrun, halive, hdispatched, hpre⟩

end Link
end Reactor
end Rins
