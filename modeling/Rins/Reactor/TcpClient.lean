import Rins.Reactor.Message
import Rins.Reactor.TcpConn

/-!
# TcpClient — the client side of a connection

A `tcp_client` owns two 4 MiB blocks that outlive its sockets: whatever happens to a connection, the
bytes in `_obuf` and `_ibuf` stay.  Its methods return the calls they make on the event loop and the
kernel as a list of effects; the answers of the kernel are arguments.
-/

namespace Rins
namespace Reactor

/-- The functions a client registers with the event loop. -/
inductive ClientProc
  | readCallback
  | writeCallback
  | connectionDelay
  deriving DecidableEq, Repr

/-- Calls a `tcp_client` makes on the event loop and the kernel. -/
inductive ClientEffect
  | addIoEvent (fd : Int) (proc : ClientProc) (mask : EpollMask)
  | delIoEvent (fd : Int)
  | delIoEventMask (fd : Int) (mask : EpollMask)
  | close (fd : Int)
  deriving DecidableEq, Repr

structure TcpClient where
  ibuf : IoBuf
  obuf : IoBuf
  connected : Bool
  sockfd : Int

/-- One call of `_router.call(msgid, length, data)` in `tcp_client::do_read`; `avail` is what
`_ibuf` holds from the data pointer on. -/
structure ClientCall where
  id : Int32
  length : Int32
  avail : List UInt8
  deriving DecidableEq, Repr

/-- Outcomes of `connect` on a fresh non-blocking socket. -/
inductive ConnectRet
  | done
  | inProgress
  | failed
  deriving DecidableEq, Repr

/-- What the kernel answers to `socket` (`none` is -1) and `connect` in `do_connect`. -/
structure ConnectAnswer where
  socket : Option Int
  connect : ConnectRet
  deriving DecidableEq, Repr

/-- What the kernel answers in one round of the loop of `do_write`; the second part is used only if
the write fails and the client reconnects. -/
structure WriteAnswer where
  write : SysWrite
  reconnect : ConnectAnswer
  deriving DecidableEq, Repr

/-- The user's callbacks: `_conn_start_cb`, `_conn_close_cb` (null or a function of the client) and
the message callbacks behind `_router`, which do not touch `_ibuf`. -/
structure ClientCallbacks where
  connStart : Option (TcpClient → Except Fault (TcpClient × List ClientEffect))
  connClose : Option (TcpClient → Except Fault (TcpClient × List ClientEffect))
  message : ClientCall → IoBuf → Except Fault (IoBuf × List ClientEffect)

/-- No callbacks at all. -/
def ClientCallbacks.none : ClientCallbacks :=
  { connStart := .none
    connClose := .none
    message := fun _ obuf => .ok (obuf, []) }

namespace TcpClient

/-- The fields as the constructor sets them, before it calls `do_connect`. -/
def new : TcpClient :=
  { ibuf := IoBuf.new 4194304
    obuf := IoBuf.new 4194304
    connected := false
    sockfd := 0 }

/-- `if (cb) cb(this, args)`. -/
def callback (cb : Option (TcpClient → Except Fault (TcpClient × List ClientEffect)))
    (cli : TcpClient) : Except Fault (TcpClient × List ClientEffect) :=
  match cb with
  | none => .ok (cli, [])
  | some f => f cli

/-! ## Connecting -/

/-- The common end of `do_connect` and `connection_delay` on a connected socket. -/
def connectionUp (cbs : ClientCallbacks) (cli : TcpClient) (fdOf : TcpClient → Int) :
    Except Fault (TcpClient × List ClientEffect) := do
  let (cli, called) ← callback cbs.connStart { cli with connected := true }
  let armed :=
    if cli.obuf.length ≠ 0 then [ClientEffect.addIoEvent (fdOf cli) .writeCallback .epollout]
    else []
  return (cli, called ++ [.addIoEvent (fdOf cli) .readCallback .epollin] ++ armed)

/-- `tcp_client::do_connect`. -/
def doConnect (cbs : ClientCallbacks) (cli : TcpClient) (ans : ConnectAnswer) :
    Except Fault (TcpClient × List ClientEffect) :=
  if cli.sockfd = -1 then
    .ok (cli, [])
  else
    match ans.socket with
    | none => .error .exited
    | some fd =>
        let cli := { cli with sockfd := fd }
        match ans.connect with
        -- the event loop calls `connection_delay` when the socket becomes writable
        | .inProgress => .ok (cli, [.addIoEvent fd .connectionDelay .epollout])
        | .failed => .error .exited
        | .done => connectionUp cbs cli TcpClient.sockfd

/-- `connection_delay`, with the value of `SO_ERROR`. -/
def connectionDelay (cbs : ClientCallbacks) (cli : TcpClient) (fd : Int) (soError : Int) :
    Except Fault (TcpClient × List ClientEffect) :=
  if soError = 0 then do
    let (cli, effects) ← connectionUp cbs cli fun _ => fd
    return (cli, .delIoEvent fd :: effects)
  else
    .ok (cli, [.delIoEvent fd])

/-- `tcp_client::clean_conn`. -/
def cleanConn (cbs : ClientCallbacks) (cli : TcpClient) (ans : ConnectAnswer) :
    Except Fault (TcpClient × List ClientEffect) := do
  let dropped : List ClientEffect :=
    if cli.sockfd ≠ -1 then [.delIoEvent cli.sockfd, .close cli.sockfd] else []
  let (cli, called) ← callback cbs.connClose { cli with connected := false }
  let (cli, effects) ← doConnect cbs cli ans
  return (cli, dropped ++ called ++ effects)

/-! ## Reading -/

/-- What `do_read` leaves behind: its return value, the client, the calls of `_router.call` and the
effects. -/
structure ReadOutcome where
  ret : Int
  client : TcpClient
  calls : List ClientCall
  effects : List ClientEffect

/-- The `while` loop of `tcp_client::do_read`, for at most the given number of rounds: the head is
taken off, the callback is called and `length` is popped, whether or not the body is there. -/
def parseLoop (cbs : ClientCallbacks) : Nat → TcpClient →
    Except Fault (TcpClient × List ClientCall × List ClientEffect)
  | 0, _ => .error .unfinished
  | rounds + 1, cli =>
      if cli.ibuf.length ≥ messageHeadLen then do
        let bytes ← cli.ibuf.load cli.ibuf.head messageHeadLen
        let head := MsgHead.decode bytes
        let ibuf := cli.ibuf.pop messageHeadLen
        let call : ClientCall := { id := head.id, length := head.length, avail := ibuf.pending }
        let (obuf, called) ← cbs.message call cli.obuf
        -- `pop` does nothing if the body is not there, and the next round takes it for a head
        let cli := { cli with ibuf := ibuf.pop head.length.toInt, obuf := obuf }
        let (cli, calls, effects) ← parseLoop cbs rounds cli
        return (cli, call :: calls, called ++ effects)
      else
        return (cli, [], [])

/-- The `read` loop of `tcp_client::do_read`: `none` is -1. -/
def readRet (needRead : Int) : SysRead → Option (List UInt8)
  | .eintr retry => readRet needRead retry
  | .error => none
  | .bytes bs => some (bs.take needRead.toNat)

/-- `tcp_client::do_read`, granting the parse loop the given number of rounds. -/
def doRead (cbs : ClientCallbacks) (rounds : Nat) (cli : TcpClient) (sock : Socket)
    (reconnect : ConnectAnswer) : Except Fault ReadOutcome := do
  assert cli.connected
  match sock.fionread with
  | none => return { ret := -1, client := cli, calls := [], effects := [] }
  | some needRead =>
      assert (needRead ≤ cli.ibuf.capacity - cli.ibuf.length)
      match readRet needRead sock.read with
      | none | some [] =>
          let (cli, effects) ← cleanConn cbs cli reconnect
          return { ret := -1, client := cli, calls := [], effects := effects }
      | some bs =>
          let ibuf ← cli.ibuf.append bs
          assert (bs.length = needRead)
          let (cli, calls, effects) ← parseLoop cbs rounds { cli with ibuf := ibuf }
          let ibuf ← cli.ibuf.adjust
          return {
            ret := 0
            client := { cli with ibuf := ibuf }
            calls := calls
            effects := effects }

/-! ## Writing -/

/-- What `do_write` leaves behind, with the bytes each socket took, in order. -/
structure WriteOutcome where
  client : TcpClient
  effects : List ClientEffect
  taken : List (Int × List UInt8)

/-- The `while` loop of `tcp_client::do_write`.  After a failed write the client reconnects and the
loop goes on with the new socket. -/
def writeLoop (cbs : ClientCallbacks) (cli : TcpClient) :
    List WriteAnswer → Except Fault WriteOutcome
  | [] =>
      if cli.obuf.length ≠ 0 then .error .unfinished
      else .ok { client := cli, effects := [], taken := [] }
  | ans :: answers =>
      if cli.obuf.length ≠ 0 then
        match ans.write.ret with
        | .again => .ok { client := cli, effects := [], taken := [] }
        | .error => do
            let (cli, effects) ← cleanConn cbs cli ans.reconnect
            let out ← writeLoop cbs cli answers
            return { out with effects := effects ++ out.effects }
        | .wrote n =>
            let n := min n cli.obuf.length.toNat
            if n > 0 then do
              let bytes ← cli.obuf.load cli.obuf.head n
              let obuf ← (cli.obuf.pop n).adjust
              let out ← writeLoop cbs { cli with obuf := obuf } answers
              return { out with taken := (cli.sockfd, bytes) :: out.taken }
            else
              .ok { client := cli, effects := [], taken := [] }
      else
        .ok { client := cli, effects := [], taken := [] }

/-- `tcp_client::do_write`. -/
def doWrite (cbs : ClientCallbacks) (cli : TcpClient) (answers : List WriteAnswer) :
    Except Fault WriteOutcome := do
  assert (cli.obuf.head = 0 ∧ cli.obuf.length ≠ 0)
  let out ← writeLoop cbs cli answers
  if out.client.obuf.length = 0 then
    return { out with effects := out.effects ++ [.delIoEventMask out.client.sockfd .epollout] }
  else
    return out

/-- `tcp_client::send_message`: the return value, then the client. -/
def sendMessage (cli : TcpClient) (data : List UInt8) (msglen msgid : Int32) :
    Except Fault (Int × TcpClient × List ClientEffect) :=
  if cli.connected = false then
    .ok (-1, cli, [])
  else
    let needAddEvent := decide (cli.obuf.length = 0)
    if cInt (msglen.toInt + messageHeadLen) > cli.obuf.capacity - cli.obuf.length then
      .ok (-1, cli, [])
    else do
      let head : MsgHead := { id := msgid, length := msglen }
      let obuf ← cli.obuf.append head.encode
      let body ← callerBytes data msglen.toInt
      let obuf ← obuf.append body
      let effects : List ClientEffect :=
        if needAddEvent then [.addIoEvent cli.sockfd .writeCallback .epollout] else []
      return (0, { cli with obuf := obuf }, effects)

/-! ## What sending and writing do to the output stream -/

/-- Between two events the window of `_obuf` starts at the front of its 4 MiB block. -/
structure OutReady (cli : TcpClient) : Prop where
  valid : cli.obuf.Valid
  front : cli.obuf.head = 0
  capacity : cli.obuf.capacity = 4194304

theorem new_outReady (connected : Bool) (sockfd : Int) :
    OutReady { new with connected := connected, sockfd := sockfd } :=
  ⟨IoBuf.new_valid (by decide), rfl, rfl⟩

theorem OutReady.of_obuf {cli cli' : TcpClient} (h : cli.OutReady) (hobuf : cli'.obuf = cli.obuf) :
    cli'.OutReady := by
  refine ⟨?_, ?_, ?_⟩ <;> rw [hobuf]
  exacts [h.valid, h.front, h.capacity]

/-- A client without callbacks keeps its buffers when it connects. -/
theorem doConnect_bufs {cli cli' : TcpClient} {ans : ConnectAnswer} {effects : List ClientEffect}
    (h : doConnect ClientCallbacks.none cli ans = .ok (cli', effects)) :
    cli'.obuf = cli.obuf ∧ cli'.ibuf = cli.ibuf := by
  unfold doConnect at h
  split_ifs at h with hdead
  · cases h
    exact ⟨rfl, rfl⟩
  · split at h
    · cases h
    · split at h
      · cases h
        exact ⟨rfl, rfl⟩
      · cases h
      · simp only [connectionUp, callback, ClientCallbacks.none, ok_bind] at h
        cases h
        exact ⟨rfl, rfl⟩

theorem connectionDelay_bufs {cli cli' : TcpClient} {fd soError : Int} {effects : List ClientEffect}
    (h : connectionDelay ClientCallbacks.none cli fd soError = .ok (cli', effects)) :
    cli'.obuf = cli.obuf ∧ cli'.ibuf = cli.ibuf := by
  unfold connectionDelay at h
  split_ifs at h with hok
  · simp only [connectionUp, callback, ClientCallbacks.none, ok_bind] at h
    cases h
    exact ⟨rfl, rfl⟩
  · cases h
    exact ⟨rfl, rfl⟩

theorem cleanConn_bufs {cli cli' : TcpClient} {ans : ConnectAnswer} {effects : List ClientEffect}
    (h : cleanConn ClientCallbacks.none cli ans = .ok (cli', effects)) :
    cli'.obuf = cli.obuf ∧ cli'.ibuf = cli.ibuf := by
  simp only [cleanConn, callback, ClientCallbacks.none, ok_bind] at h
  rcases bind_eq_ok.1 h with ⟨⟨cli₁, effects₁⟩, hconnect, hout⟩
  cases hout
  have hkept : cli₁.obuf = { cli with connected := false }.obuf ∧
      cli₁.ibuf = { cli with connected := false }.ibuf := doConnect_bufs hconnect
  exact hkept

/-- Neither the length of an admissible body nor that of its message overflows. -/
theorem admissible_lengths {body : List UInt8} (hbody : body.length ≤ messageLengthLimit) :
    (Int32.ofNat body.length).toInt = body.length ∧
      cInt ((body.length : Int) + messageHeadLen) = (body.length : Int) + messageHeadLen := by
  simp only [messageLengthLimit] at hbody
  refine ⟨Int32.toInt_ofNat_of_lt (by omega), ?_⟩
  simp only [messageHeadLen]
  apply cInt_eq <;> omega

/-- `send_message` on a connected client whose `_obuf` has room for head and body appends both. -/
theorem sendMessage_fits {cli : TcpClient} (hvalid : cli.obuf.Valid) (hfront : cli.obuf.head = 0)
    (hconn : cli.connected = true) {data : List UInt8} {msglen msgid : Int32}
    (h₀ : 0 ≤ msglen.toInt) (hdata : msglen.toInt ≤ data.length)
    (hint : msglen.toInt + messageHeadLen < 2147483648)
    (hroom : msglen.toInt + messageHeadLen ≤ cli.obuf.capacity - cli.obuf.length) :
    ∃ obuf effects,
      cli.sendMessage data msglen msgid = .ok (0, { cli with obuf := obuf }, effects) ∧
      obuf.Valid ∧ obuf.head = 0 ∧ obuf.capacity = cli.obuf.capacity ∧
      obuf.pending = cli.obuf.pending ++ Message.encode
        { id := msgid, length := msglen, body := data.take msglen.toInt.toNat } := by
  have hsum : cInt (msglen.toInt + messageHeadLen) = msglen.toInt + messageHeadLen :=
    cInt_eq (by omega) hint
  have hfits : ¬ msglen.toInt + messageHeadLen > cli.obuf.capacity - cli.obuf.length := by omega
  set head : MsgHead := { id := msgid, length := msglen } with hhead
  set body := data.take msglen.toInt.toNat with hbody
  have hcaller : callerBytes data msglen.toInt = .ok body := if_pos ⟨h₀, hdata⟩
  have hlen : (body.length : Int) = msglen.toInt := by
    rw [hbody, List.length_take]
    omega
  have henc : (head.encode.length : Int) = messageHeadLen := by simp
  -- the head, then the body behind it
  have hfirst : cli.obuf.length + head.encode.length ≤ cli.obuf.capacity := by omega
  rcases IoBuf.append_spec hvalid hfront hfirst with
    ⟨obuf₁, happ₁, hvalid₁, hfront₁, hpend₁, hcap₁⟩
  have hlen₁ := hvalid₁.length_eq
  have hlen₀ := hvalid.length_eq
  rw [hpend₁, List.length_append] at hlen₁
  have hback : obuf₁.length + body.length ≤ obuf₁.capacity := by omega
  rcases IoBuf.append_spec hvalid₁ hfront₁ hback with
    ⟨obuf₂, happ₂, hvalid₂, hfront₂, hpend₂, hcap₂⟩
  refine ⟨obuf₂,
    if cli.obuf.length = 0 then [.addIoEvent cli.sockfd .writeCallback .epollout] else [],
    ?_, hvalid₂, hfront₂, hcap₂.trans hcap₁, ?_⟩
  · simp [sendMessage, hconn, hsum, hfits, ← hhead, happ₁, hcaller, happ₂]
  · rw [hpend₂, hpend₁]
    simp [Message.encode, hhead]

/-- `send_message` on a client that is connected and has room for the message appends it. -/
theorem sendMessage_of_room {cli : TcpClient} (hcli : cli.OutReady) (hconn : cli.connected = true)
    (id : Int32) {body : List UInt8} (hbody : body.length ≤ messageLengthLimit)
    (hroom : (body.length : Int) + messageHeadLen ≤ cli.obuf.capacity - cli.obuf.length) :
    ∃ obuf effects,
      cli.sendMessage body (Int32.ofNat body.length) id =
        .ok (0, { cli with obuf := obuf }, effects) ∧
      OutReady { cli with obuf := obuf } ∧
      obuf.pending = cli.obuf.pending ++ (Message.of id body).encode := by
  rcases admissible_lengths hbody with ⟨hlen, _⟩
  simp only [messageLengthLimit] at hbody
  have hint : (Int32.ofNat body.length).toInt + messageHeadLen < 2147483648 := by
    simp only [hlen, messageHeadLen]
    omega
  rcases sendMessage_fits hcli.valid hcli.front hconn (by omega) hlen.le hint
    (by rw [hlen]; exact hroom) with ⟨obuf, effects, hsend, hvalid, hfront, hcap, hpend⟩
  refine ⟨obuf, effects, hsend, ⟨hvalid, hfront, hcap.trans hcli.capacity⟩, ?_⟩
  rw [hpend, hlen, Int.toNat_natCast, List.take_length]
  rfl

/-- `send_message` with a body of admissible length appends the whole message or nothing. -/
theorem sendMessage_spec {cli : TcpClient} (hcli : cli.OutReady) (id : Int32) {body : List UInt8}
    (hbody : body.length ≤ messageLengthLimit) :
    (∃ effects, cli.sendMessage body (Int32.ofNat body.length) id = .ok (-1, cli, effects)) ∨
      ∃ obuf effects,
        cli.sendMessage body (Int32.ofNat body.length) id =
          .ok (0, { cli with obuf := obuf }, effects) ∧
        OutReady { cli with obuf := obuf } ∧
        obuf.pending = cli.obuf.pending ++ (Message.of id body).encode := by
  by_cases hconn : cli.connected = true
  swap
  · exact Or.inl ⟨[], by simp [sendMessage, hconn]⟩
  by_cases hroom : (body.length : Int) + messageHeadLen ≤ cli.obuf.capacity - cli.obuf.length
  · exact Or.inr (sendMessage_of_room hcli hconn id hbody hroom)
  · rcases admissible_lengths hbody with ⟨hlen, hsum⟩
    have hfull : (body.length : Int) + messageHeadLen > cli.obuf.capacity - cli.obuf.length := by
      omega
    exact Or.inl ⟨[], by simp [sendMessage, hconn, hlen, hsum, hfull]⟩

/-- `send_message` with any arguments: where it returns, it has appended the whole message or
nothing. -/
theorem sendMessage_cases {cli cli' : TcpClient} (hcli : cli.OutReady) {data : List UInt8}
    {msglen msgid : Int32} {ret : Int} {effects : List ClientEffect}
    (h : cli.sendMessage data msglen msgid = .ok (ret, cli', effects)) :
    (ret = -1 ∧ cli' = cli) ∨
      (ret = 0 ∧ cli.connected = true ∧ cli' = { cli with obuf := cli'.obuf } ∧ cli'.OutReady ∧
        cli'.obuf.pending = cli.obuf.pending ++ Message.encode
          { id := msgid, length := msglen, body := data.take msglen.toInt.toNat }) := by
  unfold sendMessage at h
  split_ifs at h with hconn hfull
  · cases h
    exact Or.inl ⟨rfl, rfl⟩
  · cases h
    exact Or.inl ⟨rfl, rfl⟩
  · rcases bind_eq_ok.1 h with ⟨obuf₁, happ₁, h⟩
    rcases bind_eq_ok.1 h with ⟨body, hbody, h⟩
    rcases bind_eq_ok.1 h with ⟨obuf₂, happ₂, h⟩
    cases h
    rcases IoBuf.append_spec hcli.valid hcli.front (IoBuf.append_room happ₁) with
      ⟨_, heq₁, hvalid₁, hfront₁, hpend₁, hcap₁⟩
    rw [happ₁] at heq₁
    cases heq₁
    rcases IoBuf.append_spec hvalid₁ hfront₁ (IoBuf.append_room happ₂) with
      ⟨_, heq₂, hvalid₂, hfront₂, hpend₂, hcap₂⟩
    rw [happ₂] at heq₂
    cases heq₂
    unfold callerBytes at hbody
    split_ifs at hbody
    cases hbody
    refine Or.inr ⟨rfl, by simpa using hconn, rfl, ⟨hvalid₂, hfront₂, ?_⟩, ?_⟩
    · rw [hcap₂, hcap₁]
      exact hcli.capacity
    · simp [hpend₂, hpend₁, Message.encode]

/-- The kernel keeps the connection up: no answer is a failure. -/
def KeepsUp (answers : List WriteAnswer) : Prop :=
  ∀ ans ∈ answers, ans.write.ret ≠ .error

instance (answers : List WriteAnswer) : Decidable (KeepsUp answers) :=
  inferInstanceAs (Decidable (∀ ans ∈ answers, ans.write.ret ≠ .error))

/-- The socket takes `n` of the pending bytes. -/
theorem OutReady.written {cli : TcpClient} (hcli : cli.OutReady) {n : Nat}
    (hn : n ≤ cli.obuf.length.toNat) :
    ∃ bytes obuf, cli.obuf.load cli.obuf.head n = .ok bytes ∧ (cli.obuf.pop n).adjust = .ok obuf ∧
      OutReady { cli with obuf := obuf } ∧ bytes ++ obuf.pending = cli.obuf.pending := by
  rw [← IoBuf.length_pending] at hn
  rcases IoBuf.popAdjust_spec hcli.valid hn with ⟨obuf, hadj, hvalid, hfront, hpend, hcap⟩
  refine ⟨_, obuf, IoBuf.load_head hcli.valid hn, hadj, ⟨hvalid, hfront, ?_⟩, hpend⟩
  rw [hcap]
  exact hcli.capacity

/-- As long as no write fails, the bytes taken followed by the bytes still pending are the bytes
that were pending. -/
theorem writeLoop_spec {cbs : ClientCallbacks} {answers : List WriteAnswer}
    (hup : KeepsUp answers) :
    ∀ {cli : TcpClient} {out : WriteOutcome}, cli.OutReady → writeLoop cbs cli answers = .ok out →
      out.client = { cli with obuf := out.client.obuf } ∧ out.client.OutReady ∧
      (out.taken.map Prod.snd).flatten ++ out.client.obuf.pending = cli.obuf.pending := by
  induction answers with
  | nil =>
      intro cli out hcli hloop
      simp only [writeLoop] at hloop
      split_ifs at hloop
      cases hloop
      exact ⟨rfl, hcli, rfl⟩
  | cons ans answers ih =>
      intro cli out hcli hloop
      simp only [writeLoop] at hloop
      split_ifs at hloop with hempty
      · cases hret : ans.write.ret with
        | again =>
            simp only [hret] at hloop
            cases hloop
            exact ⟨rfl, hcli, rfl⟩
        | error =>
            exact absurd hret (hup ans (by simp))
        | wrote n =>
            simp only [hret] at hloop
            set k := min n cli.obuf.length.toNat with hk
            split_ifs at hloop with hpos
            · rcases hcli.written (n := k) (by omega) with ⟨bytes, obuf, hload, hadj, hready, hpend⟩
              simp only [hload, ok_bind, hadj] at hloop
              rcases bind_eq_ok.1 hloop with ⟨out', hrest, hout'⟩
              cases hout'
              rcases ih (fun a ha => hup a (by simp [ha])) hready hrest with ⟨hsame, hout, hbytes⟩
              refine ⟨hsame, hout, ?_⟩
              calc
                ((bytes :: out'.taken.map Prod.snd).flatten) ++ out'.client.obuf.pending
                    = bytes ++ ((out'.taken.map Prod.snd).flatten ++ out'.client.obuf.pending) := by
                  rw [List.flatten_cons, List.append_assoc]
                _ = bytes ++ obuf.pending := by rw [hbytes]
                _ = cli.obuf.pending := hpend
            · cases hloop
              exact ⟨rfl, hcli, rfl⟩
      · cases hloop
        exact ⟨rfl, hcli, rfl⟩

/-- A loop in which no write fails can only end badly by running out of answers. -/
theorem writeLoop_fault {cbs : ClientCallbacks} {answers : List WriteAnswer}
    (hup : KeepsUp answers) :
    ∀ {cli : TcpClient} {e : Fault}, cli.OutReady → writeLoop cbs cli answers = .error e →
      e = .unfinished := by
  induction answers with
  | nil =>
      intro cli e _ hloop
      simp only [writeLoop] at hloop
      split_ifs at hloop
      cases hloop
      rfl
  | cons ans answers ih =>
      intro cli e hcli hloop
      simp only [writeLoop] at hloop
      split_ifs at hloop with hempty
      cases hret : ans.write.ret with
      | again =>
          simp [hret] at hloop
      | error =>
          -- excluded: the kernel keeps the connection up
          exact absurd hret (hup ans (by simp))
      | wrote n =>
          simp only [hret] at hloop
          set k := min n cli.obuf.length.toNat with hk
          split_ifs at hloop with hpos
          rcases hcli.written (n := k) (by omega) with ⟨bytes, obuf, hload, hadj, hready, _⟩
          simp only [hload, ok_bind, hadj] at hloop
          cases hrest : writeLoop cbs { cli with obuf := obuf } answers with
          | error e' =>
              rw [hrest] at hloop
              cases hloop
              exact ih (fun a ha => hup a (by simp [ha])) hready hrest
          | ok out =>
              rw [hrest] at hloop
              cases hloop

theorem doWrite_spec {cbs : ClientCallbacks} {answers : List WriteAnswer} (hup : KeepsUp answers)
    {cli : TcpClient} {out : WriteOutcome} (hcli : cli.OutReady)
    (hwrite : cli.doWrite cbs answers = .ok out) :
    out.client = { cli with obuf := out.client.obuf } ∧ out.client.OutReady ∧
      (out.taken.map Prod.snd).flatten ++ out.client.obuf.pending = cli.obuf.pending := by
  unfold doWrite at hwrite
  rcases bind_eq_ok.1 hwrite with ⟨_, _, hwrite⟩
  rcases bind_eq_ok.1 hwrite with ⟨out', hloop, hout⟩
  have hspec := writeLoop_spec hup hcli hloop
  split_ifs at hout <;> cases hout <;> exact hspec

theorem doWrite_fault {cbs : ClientCallbacks} {answers : List WriteAnswer} (hup : KeepsUp answers)
    {cli : TcpClient} {e : Fault} (hcli : cli.OutReady) (hsome : cli.obuf.length ≠ 0)
    (hwrite : cli.doWrite cbs answers = .error e) : e = .unfinished := by
  have hguard : assert (cli.obuf.head = 0 ∧ cli.obuf.length ≠ 0) = .ok () := by
    simp [assert, hcli.front, hsome]
  cases hloop : writeLoop cbs cli answers with
  | error e' =>
      simp only [doWrite, hguard, hloop, ok_bind, error_bind] at hwrite
      cases hwrite
      exact writeLoop_fault hup hcli hloop
  | ok out =>
      simp only [doWrite, hguard, hloop, ok_bind] at hwrite
      split_ifs at hwrite <;> cases hwrite

end TcpClient
end Reactor
end Rins
