import Rins.Reactor.Udp

/-!
# UdpLoop — what the UDP loops pass on

`do_read` receives datagram after datagram into one buffer, which still holds what earlier ones have
left there, and calls the router for those whose head is in order.  `readLoop` is the loop of both
`udp_server` and `udp_client`; they differ in what they receive into and in what they pass on.

`judge` says of a datagram alone what becomes of it.  For datagrams that fit into the buffer this is
what `udp_server` does, whatever is left in the buffer and whatever the callbacks do.
-/

namespace Rins
namespace Reactor

open Lib

/-! ## The loop -/

section Loop

variable {S Addr σ δ : Type}

/-- The loop of `do_read`.  `receive` is the `recvfrom` with the check of the head, `call` is
`msg_router::call` with all that the callback does. -/
def readLoop (receive : S → List UInt8 → Addr → Except Fault (S × Option Message))
    (call : Message → S → σ → Except Fault (S × σ × List δ)) :
    List (SysRecv Addr) → S → σ → Except Fault (S × σ × List δ)
  | [], _, _ => .error .unfinished
  | .eintr :: answers, s, st => readLoop receive call answers s st
  | .failed :: _, s, st => .ok (s, st, [])
  | .pkg pkg addr :: answers, s, st => do
      let (s, message) ← receive s pkg addr
      match message with
      | none => readLoop receive call answers s st
      | some m =>
          let (s, st, sent) ← call m s st
          let (s, st, more) ← readLoop receive call answers s st
          return (s, st, sent ++ more)

/-- The datagrams that the loop gets before it ends. -/
def received : List (SysRecv Addr) → List (List UInt8)
  | [] => []
  | .eintr :: answers => received answers
  | .failed :: _ => []
  | .pkg pkg _ :: answers => pkg :: received answers

/-- Datagrams that are there when `do_read` is called, one after the other. -/
def arrivals (datagrams : List (List UInt8 × Addr)) : List (SysRecv Addr) :=
  datagrams.map fun d => .pkg d.1 d.2

@[simp] theorem received_arrivals (datagrams : List (List UInt8 × Addr)) :
    received (arrivals datagrams) = datagrams.map Prod.fst := by
  unfold arrivals
  induction datagrams with
  | nil => rfl
  | cons d datagrams ih => simp [received, ih]

/-- Calls of the router that return, written down in their order. -/
def logged (call : Message → S → σ → S × σ × List δ) (m : Message) (s : S) :
    σ × List Message → Except Fault (S × (σ × List Message) × List δ)
  | (st, calls) =>
      let (s, st, sent) := call m s st
      .ok (s, (st, calls ++ [m]), sent)

/-- Whatever the callbacks do, as long as they return: the loop ends, and has called the router with
these arguments. -/
def MakesCalls (receive : S → List UInt8 → Addr → Except Fault (S × Option Message))
    (answers : List (SysRecv Addr)) (s : S) (calls : List Message) : Prop :=
  ∀ (σ δ : Type) (call : Message → S → σ → S × σ × List δ) (st : σ), ∃ s' st' sent,
    readLoop receive (logged call) answers s (st, []) = .ok (s', (st', calls), sent)

theorem MakesCalls.unique {receive : S → List UInt8 → Addr → Except Fault (S × Option Message)}
    {answers : List (SysRecv Addr)} {s : S} {calls calls' : List Message}
    (h : MakesCalls receive answers s calls) (h' : MakesCalls receive answers s calls') :
    calls = calls' := by
  rcases h Unit Unit (fun _ s st => (s, st, [])) () with ⟨_, _, _, hrun⟩
  rcases h' Unit Unit (fun _ s st => (s, st, [])) () with ⟨_, _, _, hrun'⟩
  rw [hrun] at hrun'
  cases hrun'
  rfl

/-- Where a datagram that fits is judged by its own bytes, the calls are those of the datagrams one
by one. -/
theorem makesCalls_of_judged {receive : S → List UInt8 → Addr → Except Fault (S × Option Message)}
    {size : Nat} {verdict : List UInt8 → Option Message}
    (hreceive : ∀ s pkg addr, pkg.length ≤ size → ∃ s', receive s pkg addr = .ok (s', verdict pkg))
    {answers : List (SysRecv Addr)} (hfit : ∀ pkg ∈ received answers, pkg.length ≤ size) (s : S) :
    MakesCalls receive (answers ++ [SysRecv.failed]) s ((received answers).filterMap verdict) := by
  intro σ δ call st
  -- the calls so far only stand in front
  suffices hrun : ∀ before s st, ∃ s' st' sent,
      readLoop receive (logged call) (answers ++ [SysRecv.failed]) s (st, before) =
        .ok (s', (st', before ++ (received answers).filterMap verdict), sent) by
    simpa using hrun [] s st
  clear s st
  induction answers with
  | nil =>
      intro before s st
      exact ⟨s, st, [], by simp [readLoop, received]⟩
  | cons answer answers ih =>
      intro before s st
      cases answer with
      | eintr => exact ih hfit before s st
      | failed => exact ⟨s, st, [], by simp [readLoop, received]⟩
      | pkg pkg addr =>
          simp only [received, List.mem_cons, forall_eq_or_imp] at hfit
          rcases hfit with ⟨hpkg, hrest⟩
          rcases hreceive s pkg addr hpkg with ⟨s₁, hs₁⟩
          simp only [List.cons_append, readLoop, hs₁, ok_bind, received]
          cases hverdict : verdict pkg with
          | none =>
              rw [List.filterMap_cons_none hverdict]
              exact ih hrest before s₁ st
          | some m =>
              rw [List.filterMap_cons_some hverdict]
              rcases ih hrest (before ++ [m]) (call m s₁ st).1 (call m s₁ st).2.1 with
                ⟨s', st', sent, hrun⟩
              refine ⟨s', st', (call m s₁ st).2.2 ++ sent, ?_⟩
              simp only [logged, ok_bind, hrun, List.append_assoc, List.singleton_append]
              rfl

end Loop

/-! ## The verdict on a datagram -/

/-- What a datagram says of itself: the message, if it has a head and the length in the head is that
of the rest. -/
def judge (pkg : List UInt8) : Option Message :=
  let head := MsgHead.decode pkg
  if messageHeadLen ≤ pkg.length ∧ head.length.toInt = (pkg.length : Int) - messageHeadLen then
    some { id := head.id, length := head.length, body := pkg.drop messageHeadLen }
  else
    none

theorem judge_eq_some {pkg : List UInt8} {m : Message} :
    judge pkg = some m ↔
      (messageHeadLen ≤ pkg.length ∧
        (MsgHead.decode pkg).length.toInt = (pkg.length : Int) - messageHeadLen) ∧
      m = ⟨(MsgHead.decode pkg).id, (MsgHead.decode pkg).length, pkg.drop messageHeadLen⟩ := by
  simp only [judge]
  split_ifs with h
  · simp [h, eq_comm]
  · simp [h]

/-- The length that is passed on is that of the body. -/
theorem length_of_judge {pkg : List UInt8} {m : Message} (h : judge pkg = some m) :
    m.length.toInt = m.body.length := by
  rcases judge_eq_some.1 h with ⟨⟨hlong, hlen⟩, rfl⟩
  simp only [List.length_drop]
  omega

/-- A datagram that holds a head and the body of that length. -/
theorem judge_encode {m : Message} (h : m.length.toInt = m.body.length) :
    judge m.encode = some m := by
  have hhead : MsgHead.decode m.encode = ⟨m.id, m.length⟩ := by
    rw [Message.encode, MsgHead.decode_append (le_refl _), MsgHead.decode_encode]
  have hbody : m.encode.drop messageHeadLen = m.body := by
    rw [Message.encode]
    exact List.drop_left' (MsgHead.length_encode _)
  refine judge_eq_some.2 ⟨⟨?_, ?_⟩, ?_⟩
  · rw [Message.length_encode]
    omega
  · rw [Message.length_encode, hhead]
    simp only
    omega
  · rw [hhead, hbody]

/-- The check of the head in `do_read`. -/
abbrev BadHead (head : MsgHead) (pkgLen : Nat) : Prop :=
  head.length.toInt > messageLengthLimit ∨ head.length.toInt < 0 ∨
    head.length.toInt + messageHeadLen ≠ pkgLen

/-- What the check sees of a datagram that fits.  The front of the buffer holds the head of a
datagram that has one; of a shorter one the front is partly stale, but no head is in order then. -/
theorem recvfrom_judge (buf : CharArray messageLengthLimit) {pkg : List UInt8}
    (hfit : pkg.length ≤ messageLengthLimit) :
    ∃ front, (buf.recvfrom pkg).2.load 0 messageHeadLen = .ok front ∧
      (judge pkg = none → BadHead (MsgHead.decode front) (buf.recvfrom pkg).1) ∧
      ∀ m, judge pkg = some m →
        ¬ BadHead (MsgHead.decode front) (buf.recvfrom pkg).1 ∧
          MsgHead.decode front = ⟨m.id, m.length⟩ ∧
          (buf.recvfrom pkg).2.load messageHeadLen m.length.toInt = .ok m.body := by
  have hlen : (buf.recvfrom pkg).1 = pkg.length := by
    simp [CharArray.recvfrom, hfit]
  simp only [BadHead, hlen]
  by_cases hlong : messageHeadLen ≤ pkg.length
  · have hload := CharArray.load_recvfrom buf hfit 0 messageHeadLen (by omega)
    refine ⟨pkg.take messageHeadLen, by simpa using hload, ?_, ?_⟩
    · intro hnone
      by_contra hgood
      rw [MsgHead.decode_take hlong] at hgood
      have hsome : judge pkg ≠ none := by
        simp only [judge]
        rw [if_pos ⟨hlong, by omega⟩]
        exact Option.some_ne_none _
      exact hsome hnone
    · intro m hm
      have hbody := length_of_judge hm
      rcases judge_eq_some.1 hm with ⟨⟨_, hlength⟩, rfl⟩
      rw [MsgHead.decode_take hlong]
      refine ⟨by omega, rfl, ?_⟩
      have hrest := CharArray.load_recvfrom buf hfit messageHeadLen
        (pkg.drop messageHeadLen).length (by rw [List.length_drop]; omega)
      rw [List.take_length] at hrest
      rw [hbody]
      exact hrest
  · -- a length that is not negative is more than such a datagram has behind a head
    refine ⟨_, CharArray.load_eq_ok.2 ⟨by decide, rfl⟩, fun _ => ?_, fun m hm => ?_⟩
    · omega
    · exact absurd (judge_eq_some.1 hm).1.1 hlong

/-! ## The server -/

namespace UdpServer

variable {Addr κ σ : Type}

/-- A datagram that fits is judged on its own bytes. -/
theorem receive_eq (s : UdpServer Addr κ) {pkg : List UInt8} (addr : Addr)
    (hfit : pkg.length ≤ messageLengthLimit) :
    s.receive pkg addr =
      .ok ({ s with readBuf := (s.readBuf.recvfrom pkg).2, clientAddr := addr }, judge pkg) := by
  rcases recvfrom_judge s.readBuf hfit with ⟨front, hfront, hnone, hsome⟩
  simp only [receive, hfront, ok_bind]
  cases hjudge : judge pkg with
  | none =>
      rw [if_pos (hnone hjudge)]
      rfl
  | some m =>
      rcases hsome m hjudge with ⟨hgood, hdecode, hbody⟩
      rw [if_neg hgood, hdecode, hbody]
      rfl

/-- `msg_router::call` in the server: the callback, if there is one for the id. -/
def dispatch (callback : Callback Addr κ σ) (m : Message) (s : UdpServer Addr κ) (st : σ) :
    Except Fault (UdpServer Addr κ × σ × List (Datagram Addr)) :=
  match s.router.call m.id with
  | none => .ok (s, st, [])
  | some cb => callback cb m s st

theorem doRead_eq (callback : Callback Addr κ σ) (answers : List (SysRecv Addr))
    (s : UdpServer Addr κ) (st : σ) :
    doRead callback answers s st = readLoop receive (dispatch callback) answers s st := by
  induction answers generalizing s st with
  | nil => rfl
  | cons answer answers ih =>
      cases answer with
      | eintr => exact ih s st
      | failed => rfl
      | pkg pkg addr =>
          simp only [doRead, readLoop]
          refine bind_congr fun r => ?_
          rcases r with ⟨s₁, message⟩
          cases message with
          | none => exact ih s₁ st
          | some m =>
              simp only [Option.bind_some, dispatch]
              cases hcb : s₁.router.call m.id with
              | none =>
                  simp only [Option.map_none, ok_bind, List.nil_append, ih]
                  exact (bind_pure _).symm
              | some cb =>
                  simp only [Option.map_some, ih]

/-- The router calls of a `do_read`. -/
def DoReadCalls (s : UdpServer Addr κ) (answers : List (SysRecv Addr)) (calls : List Message) :
    Prop :=
  MakesCalls receive answers s calls

theorem doReadCalls (s : UdpServer Addr κ) (answers : List (SysRecv Addr))
    (hfit : ∀ pkg ∈ received answers, pkg.length ≤ messageLengthLimit) :
    s.DoReadCalls (answers ++ [SysRecv.failed]) ((received answers).filterMap judge) :=
  makesCalls_of_judged (fun s _ addr hpkg => ⟨_, s.receive_eq addr hpkg⟩) hfit s

theorem doReadCalls_arrivals (s : UdpServer Addr κ) {datagrams : List (List UInt8 × Addr)}
    (hfit : ∀ d ∈ datagrams, d.1.length ≤ messageLengthLimit) :
    s.DoReadCalls (arrivals datagrams ++ [SysRecv.failed])
      ((datagrams.map Prod.fst).filterMap judge) := by
  have hcalls := s.doReadCalls (arrivals datagrams) (by simpa using hfit)
  rwa [received_arrivals] at hcalls

/-- One more datagram adds what becomes of it. -/
theorem doReadCalls_snoc (s : UdpServer Addr κ) {datagrams : List (List UInt8 × Addr)}
    (hfit : ∀ d ∈ datagrams, d.1.length ≤ messageLengthLimit) {pkg : List UInt8}
    (hpkg : pkg.length ≤ messageLengthLimit) (addr : Addr) :
    s.DoReadCalls (arrivals (datagrams ++ [(pkg, addr)]) ++ [SysRecv.failed])
      ((datagrams.map Prod.fst).filterMap judge ++ (judge pkg).toList) := by
  have hall : ∀ d ∈ datagrams ++ [(pkg, addr)], d.1.length ≤ messageLengthLimit := by
    intro d hd
    rcases List.mem_append.1 hd with hold | hnew
    · exact hfit d hold
    · rw [List.mem_singleton.1 hnew]
      exact hpkg
  have hcalls := doReadCalls_arrivals s hall
  rw [List.map_append, List.filterMap_append] at hcalls
  cases hjudge : judge pkg with
  | none => simpa [hjudge] using hcalls
  | some m => simpa [hjudge] using hcalls

/-- A datagram is dispatched if it has a head and the length field is that of the rest, and then as
it is.  Nothing that came before matters. -/
theorem doRead_judges_own_bytes :
    (∀ (s : UdpServer Addr κ) (answers : List (SysRecv Addr)),
      (∀ pkg ∈ received answers, pkg.length ≤ messageLengthLimit) →
        s.DoReadCalls (answers ++ [SysRecv.failed]) ((received answers).filterMap judge)) ∧
    (∀ pkg m, judge pkg = some m ↔
      (messageHeadLen ≤ pkg.length ∧
        (MsgHead.decode pkg).length.toInt = (pkg.length : Int) - messageHeadLen) ∧
      m = ⟨(MsgHead.decode pkg).id, (MsgHead.decode pkg).length, pkg.drop messageHeadLen⟩) ∧
    ∀ (s₁ s₂ : UdpServer Addr κ) (history₁ history₂ : List (List UInt8 × Addr)) (pkg : List UInt8)
      (addr₁ addr₂ : Addr),
      (∀ d ∈ history₁, d.1.length ≤ messageLengthLimit) →
      (∀ d ∈ history₂, d.1.length ≤ messageLengthLimit) → pkg.length ≤ messageLengthLimit →
      ∃ calls₁ calls₂ dispatched,
        s₁.DoReadCalls (arrivals history₁ ++ [SysRecv.failed]) calls₁ ∧
        s₂.DoReadCalls (arrivals history₂ ++ [SysRecv.failed]) calls₂ ∧
        s₁.DoReadCalls (arrivals (history₁ ++ [(pkg, addr₁)]) ++ [SysRecv.failed])
          (calls₁ ++ dispatched) ∧
        s₂.DoReadCalls (arrivals (history₂ ++ [(pkg, addr₂)]) ++ [SysRecv.failed])
          (calls₂ ++ dispatched) ∧
        (pkg.length < messageHeadLen → dispatched = []) := by
  refine ⟨fun s answers hfit => s.doReadCalls answers hfit, fun pkg m => judge_eq_some, ?_⟩
  intro s₁ s₂ history₁ history₂ pkg addr₁ addr₂ h₁ h₂ hpkg
  refine ⟨_, _, (judge pkg).toList, doReadCalls_arrivals s₁ h₁, doReadCalls_arrivals s₂ h₂,
    ?_, ?_, ?_⟩
  · exact doReadCalls_snoc s₁ h₁ hpkg addr₁
  · exact doReadCalls_snoc s₂ h₂ hpkg addr₂
  · intro hshort
    have hnone : judge pkg = none := by
      rw [Option.eq_none_iff_forall_ne_some]
      intro m hm
      exact absurd (judge_eq_some.1 hm).1.1 (not_le.2 hshort)
    rw [hnone]
    rfl

/-- A server whose buffer holds the head of an earlier datagram. -/
def staleServer : UdpServer Nat Unit :=
  { readBuf := { data := fun i => if i = 0 then 1 else 0 }
    writeBuf := { data := fun _ => 0 }
    clientAddr := 0
    router := MsgRouter.new }

/-- Three bytes are not taken for a message with the rest of the head from before; a message of one
byte behind them is passed on. -/
theorem staleServer_doRead :
    staleServer.DoReadCalls
      ([SysRecv.pkg [1, 0, 0] 3, SysRecv.pkg [1, 0, 0, 0, 1, 0, 0, 0, 65] 4] ++ [SysRecv.failed])
      [⟨1, 1, [65]⟩] := by
  have hcalls := doRead_judges_own_bytes.1 staleServer
    [.pkg [1, 0, 0] 3, .pkg [1, 0, 0, 0, 1, 0, 0, 0, 65] 4] (by simp [received, messageLengthLimit])
  have hjudge : (received ([.pkg [1, 0, 0] 3, .pkg [1, 0, 0, 0, 1, 0, 0, 0, 65] 4] :
      List (SysRecv Nat))).filterMap judge = [⟨1, 1, [65]⟩] := by decide
  rwa [hjudge] at hcalls

end UdpServer

end Reactor
end Rins
