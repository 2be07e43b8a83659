import Rins.Base.Messages
import Rins.Reactor.Delivery

/-!
# ReportPath — reports on their way from an agent to the reporter

`new_report_request` of the agent takes the reports out of `report_queue` and sends them on the
connection of the report client; `get_report_status` of the reporter parses what arrives.  In
between there is a connection as in `Delivery`, with writes and reads in any order.

The bytes of a report in which everything has its default are none at all, and the server has its
troubles with empty messages; it also refuses messages that are too long.  `Sendable` keeps both
out.
-/

namespace Rins
namespace Report

open Lib
open Proto (MessageId ReportStatusRequest)
open Reactor

variable (w : Wire)

/-! ## Reports as messages -/

/-- The report is not all defaults, and a message can hold it. -/
def Sendable (req : ReportStatusRequest) : Prop :=
  req ≠ (Proto.reportStatusRequest w).default ∧
    ((Proto.reportStatusRequest w).internalSerialize req).length ≤ messageLengthLimit

instance (req : ReportStatusRequest) : Decidable (Sendable w req) :=
  inferInstanceAs (Decidable (_ ∧ _))

/-- The message that is sent for a report. -/
def reportMessage (req : ReportStatusRequest) : Message :=
  Message.of MessageId.reportStatusRequest.num ((Proto.reportStatusRequest w).internalSerialize req)

/-- `get_report_status` for the messages that the router passes on to it. -/
def reportsIn (messages : List Message) : List ReportStatusRequest :=
  (messages.filter fun m => m.id = MessageId.reportStatusRequest.num).map fun m =>
    ((Proto.reportStatusRequest w).parseFromArray m.body).2

theorem reportsIn_reportMessage (reqs : List ReportStatusRequest) :
    reportsIn w (reqs.map (reportMessage w)) = reqs := by
  induction reqs with
  | nil => rfl
  | cons req reqs ih =>
      have hparse : ((Proto.reportStatusRequest w).parseFromArray (reportMessage w req).body).2 =
          req :=
        congrArg Prod.snd ((Proto.reportStatusRequest w).parseFromArray_serialize req)
      have hid : (reportMessage w req).id = MessageId.reportStatusRequest.num := rfl
      rw [List.map_cons, reportsIn, List.filter_cons_of_pos (by simp [hid]), List.map_cons, hparse]
      exact congrArg (req :: ·) ih

variable {w}

/-- A message can hold 1723 results, whatever the numbers in them. -/
theorem sendable_of_results {req : ReportStatusRequest}
    (hreq : req ≠ (Proto.reportStatusRequest w).default) (hfew : req.results.length ≤ 1723) :
    Sendable w req := by
  refine ⟨hreq, ?_⟩
  have hsize := Proto.reportStatusRequest_byteSizeLong_le w req
  rw [MessageType.byteSizeLong_eq] at hsize
  simp only [messageLengthLimit]
  omega

theorem Sendable.length_pos {req : ReportStatusRequest} (h : Sendable w req) :
    1 ≤ ((Proto.reportStatusRequest w).internalSerialize req).length :=
  List.length_pos_iff.2 (MessageType.serialize_ne_nil _ h.1)

/-! ## The system -/

variable (w)

/-- The loop of `new_report_request`: the client, and the reports for which `send_message` returned
0.  The loop itself does not look at what `send_message` returns. -/
def newReportRequest : List ReportStatusRequest → TcpClient →
    Except Fault (TcpClient × List ReportStatusRequest)
  | [], client => .ok (client, [])
  | msg :: queue, client => do
      let requestString := (Proto.reportStatusRequest w).internalSerialize msg
      let (ret, client, _) ← client.sendMessage requestString (Int32.ofNat requestString.length)
        MessageId.reportStatusRequest.num
      let (client, accepted) ← newReportRequest queue client
      return (client, if ret = 0 then msg :: accepted else accepted)

/-- The connection, and the reports that were accepted for it. -/
structure ReportPath where
  link : Link
  /-- history: the reports for which `send_message` returned 0 -/
  accepted : List ReportStatusRequest

namespace ReportPath

def init (sockfd connfd : Int) : ReportPath :=
  { link := Link.init sockfd connfd
    accepted := [] }

inductive Act
  /-- `new_report_request`, with what it finds in `report_queue` -/
  | request (queue : List ReportStatusRequest)
  /-- `do_write` of the report client, with the kernel's answers -/
  | write (answers : List WriteAnswer)
  /-- `do_read` of the reporter, for the next `n` bytes -/
  | deliver (n : Nat) (pool : BufPool) (eintrs : Nat)

def step (cbs : ClientCallbacks) (cb : MsgCallback) (s : ReportPath) : Act → Option ReportPath
  | .request queue =>
      if s.link.crashed = none ∧ ∀ req ∈ queue, Sendable w req then
        match newReportRequest w queue s.link.client with
        | .error e => some { s with link := { s.link with crashed := some e } }
        | .ok (client, accepted) => some {
            link := { s.link with
              client := client
              accepted := s.link.accepted ++ accepted.map (reportMessage w) }
            accepted := s.accepted ++ accepted }
      else
        none
  | .write answers => (s.link.step cbs cb (.write answers)).map fun link => { s with link := link }
  | .deliver n pool eintrs =>
      (s.link.step cbs cb (.deliver n pool eintrs)).map fun link => { s with link := link }

/-- The buffer pool of the reporter stays below its memory cap. -/
def PoolServes (_ : ReportPath) : Act → Prop
  | .deliver _ pool _ => pool.Serviceable
  | _ => True

/-- `get_report_status` returns from the calls that `do_read` makes. -/
def CallbackReturns (cb : MsgCallback) (s : ReportPath) : Act → Prop
  | .deliver n pool eintrs => s.link.CallbackReturns cb (.deliver n pool eintrs)
  | _ => True

theorem callbackReturns_none (s : ReportPath) (a : Act) :
    CallbackReturns MsgCallback.none s a := by
  cases a with
  | deliver n pool eintrs => exact s.link.callbackReturns_none (.deliver n pool eintrs)
  | _ => trivial

/-- The reports that the agent has taken out of its queue. -/
def handed (acts : List Act) : List ReportStatusRequest :=
  acts.flatMap fun
    | .request queue => queue
    | _ => []

/-! ## The invariant -/

structure Inv (s : ReportPath) : Prop where
  link : ∃ consumed, s.link.Inv consumed
  messages : s.link.accepted = s.accepted.map (reportMessage w)

variable {w}

/-- The loop of `new_report_request` is a sequence of sends. -/
theorem newReportRequest_inv {cb : MsgCallback} {cbs : ClientCallbacks}
    {queue : List ReportStatusRequest} (hqueue : ∀ req ∈ queue, Sendable w req)
    {link : Link} {consumed : List UInt8} (h : link.Inv consumed) :
    ∃ client accepted, newReportRequest w queue link.client = .ok (client, accepted) ∧
      accepted.Sublist queue ∧
      Link.Inv { link with
        client := client
        accepted := link.accepted ++ accepted.map (reportMessage w) } consumed := by
  induction queue generalizing link with
  | nil => exact ⟨link.client, [], rfl, .slnil, by simpa using h⟩
  | cons req queue ih =>
      rcases List.forall_mem_cons.1 hqueue with ⟨hreq, hrest⟩
      have hpos := hreq.length_pos
      have hlimit := hreq.2
      rcases TcpClient.sendMessage_spec h.client MessageId.reportStatusRequest.num hlimit with
        ⟨effects, hret⟩ | ⟨obuf, effects, hret, _⟩
      · -- refused: the loop goes on with the client as it was
        rcases ih hrest h with ⟨client, accepted, hloop, hsub, hinv⟩
        refine ⟨client, accepted, ?_, hsub.cons req, hinv⟩
        simp only [newReportRequest, hret, ok_bind, hloop]
        rfl
      · -- what `send_message` does is a step of the connection
        have hstep : link.step cbs cb (.send MessageId.reportStatusRequest.num
            ((Proto.reportStatusRequest w).internalSerialize req)) =
              some { link with
                client := { link.client with obuf := obuf }
                accepted := link.accepted ++ [reportMessage w req] } := by
          simp only [Link.step, h.alive, hpos, hlimit, and_self, if_true, hret]
          rfl
        rcases ih hrest (Link.send_inv h hstep) with ⟨client, accepted, hloop, hsub, hinv⟩
        refine ⟨client, req :: accepted, ?_, hsub.cons_cons req, ?_⟩
        · simp only [newReportRequest, hret, ok_bind, hloop, if_true]
          rfl
        · simpa using hinv

theorem write_accepted {cbs : ClientCallbacks} {cb : MsgCallback} {link link' : Link}
    {answers : List WriteAnswer} (h : link.step cbs cb (.write answers) = some link') :
    link'.accepted = link.accepted := by
  simp only [Link.step] at h
  split_ifs at h
  split at h
  · cases h
  · cases h
    rfl
  · cases h
    rfl

theorem deliver_accepted {cbs : ClientCallbacks} {cb : MsgCallback} {link link' : Link} {n : Nat}
    {pool : BufPool} {eintrs : Nat} (h : link.step cbs cb (.deliver n pool eintrs) = some link') :
    link'.accepted = link.accepted := by
  simp only [Link.step] at h
  split_ifs at h
  split at h
  · cases h
    rfl
  · cases h
    rfl

theorem init_inv (sockfd connfd : Int) : Inv w (init sockfd connfd) where
  link := ⟨[], Link.init_inv sockfd connfd⟩
  messages := rfl

/-- What a step does: the invariant stays, and the reports that are accepted are some of those that
were handed over. -/
theorem step_inv {cbs : ClientCallbacks} {cb : MsgCallback} {s t : ReportPath} {a : Act}
    (h : Inv w s) (hpool : PoolServes s a) (hcb : CallbackReturns cb s a)
    (hstep : step w cbs cb s a = some t) :
    Inv w t ∧ ∃ accepted, t.accepted = s.accepted ++ accepted ∧ accepted.Sublist (handed [a]) := by
  rcases h.link with ⟨consumed, hlink⟩
  cases a with
  | request queue =>
      simp only [step] at hstep
      split_ifs at hstep with hguard
      rcases @newReportRequest_inv w cb cbs _ hguard.2 _ _ hlink with
        ⟨client, accepted, hloop, hsub, hinv⟩
      rw [hloop] at hstep
      cases hstep
      refine ⟨⟨⟨consumed, hinv⟩, ?_⟩, accepted, rfl, ?_⟩
      · simp [h.messages]
      · simpa [handed] using hsub
  | write answers =>
      rcases Option.map_eq_some_iff.1 hstep with ⟨link, hwrite, rfl⟩
      exact ⟨⟨⟨consumed, Link.write_inv hlink hwrite⟩, (write_accepted hwrite).trans h.messages⟩,
        [], by simp, List.nil_sublist _⟩
  | deliver n pool eintrs =>
      rcases Option.map_eq_some_iff.1 hstep with ⟨link, hread, rfl⟩
      -- reading accepts no report
      have hlink' := Link.deliver_inv hlink hpool hcb hread
      exact ⟨⟨⟨_, hlink'⟩, (deliver_accepted hread).trans h.messages⟩, [], by simp,
        List.nil_sublist _⟩

theorem run_inv {cbs : ClientCallbacks} {cb : MsgCallback} {acts : List Act} :
    ∀ {s t : ReportPath}, Inv w s → Meets (step w cbs cb) PoolServes s acts →
      Meets (step w cbs cb) (CallbackReturns cb) s acts → run (step w cbs cb) s acts = some t →
      Inv w t ∧ ∃ accepted, t.accepted = s.accepted ++ accepted ∧
        accepted.Sublist (handed acts) := by
  induction acts with
  | nil =>
      intro s t h _ _ hrun
      cases hrun
      exact ⟨h, [], by simp, List.nil_sublist _⟩
  | cons a acts ih =>
      intro s t h hpool hcb hrun
      rcases run_cons.1 hrun with ⟨m, hstep, hrest⟩
      rcases step_inv h hpool.1 hcb.1 hstep with ⟨hm, first, hfirst, hfirst'⟩
      rcases ih hm (hpool.2 m hstep) (hcb.2 m hstep) hrest with ⟨ht, later, hlater, hlater'⟩
      refine ⟨ht, first ++ later, by rw [hlater, hfirst, List.append_assoc], ?_⟩
      have hboth := hfirst'.append hlater'
      simpa [handed] using hboth

/-! ## What arrives -/

/-- What the server has dispatched of the accepted messages. -/
theorem Inv.arrived {s : ReportPath} (h : Inv w s) :
    s.link.crashed = none ∧ reportsIn w s.link.dispatched <+: s.accepted ∧
      (s.link.client.obuf.pending = [] → s.link.net = [] →
        reportsIn w s.link.dispatched = s.accepted) := by
  rcases h.link with ⟨consumed, hlink⟩
  have hsplit : consumed ++ [] ++ (s.link.net ++ s.link.client.obuf.pending) = s.link.stream := by
    rw [← hlink.bytes]
    simp
  have hprefix := (hlink.parse_more hsplit).1
  rw [List.append_nil, hlink.parsed, h.messages] at hprefix
  refine ⟨hlink.alive, ?_, fun hobuf hnet => ?_⟩
  · rcases List.prefix_map_iff.1 hprefix with ⟨front, hfront, hmap⟩
    rw [show s.link.dispatched = _ from hmap, reportsIn_reportMessage]
    exact hfront
  · have hbytes := hlink.bytes
    rw [hobuf, hnet, List.append_nil, List.append_nil] at hbytes
    have hall := hlink.parse_stream
    rw [← hbytes, hlink.parsed] at hall
    rw [show s.link.dispatched = s.accepted.map (reportMessage w) from
      (congrArg Prod.fst hall).trans h.messages, reportsIn_reportMessage]

/-- In every run, however the bytes are cut and delayed: neither process fails; the reports that
`get_report_status` has parsed are the first of those that `send_message` has accepted, unchanged
and in their order, and all of them once nothing is under way; and those are some of the reports
that were taken out of the queue, in their order. -/
theorem reports_in_order (w : Wire) (cbs : ClientCallbacks) (cb : MsgCallback)
    (sockfd connfd : Int) (acts : List Act) (s : ReportPath)
    (hpool : Meets (step w cbs cb) PoolServes (init sockfd connfd) acts)
    (hcb : Meets (step w cbs cb) (CallbackReturns cb) (init sockfd connfd) acts)
    (hrun : run (step w cbs cb) (init sockfd connfd) acts = some s) :
    s.link.crashed = none ∧
      reportsIn w s.link.dispatched <+: s.accepted ∧
      (s.link.client.obuf.pending = [] → s.link.net = [] →
        reportsIn w s.link.dispatched = s.accepted) ∧
      s.accepted.Sublist (handed acts) := by
  rcases run_inv (init_inv sockfd connfd) hpool hcb hrun with ⟨h, accepted, haccepted, hsub⟩
  rcases h.arrived with ⟨halive, hprefix, hall⟩
  refine ⟨halive, hprefix, hall, ?_⟩
  rw [haccepted]
  exact hsub

/-- A report without results. -/
def sampleReport : ReportStatusRequest :=
  { modid := 1, cmdid := 0, caller := 0, results := [], timestamp := 0 }

/-- Written in two parts, and read in two parts cut elsewhere. -/
def sampleRun : List Act :=
  let answer (res : SysWrite) : WriteAnswer :=
    { write := res
      reconnect := { socket := none, connect := .failed } }
  [.request [sampleReport], .write [answer (.wrote 3), answer .again], .deliver 2 BufPool.init 0,
    .write [answer (.wrote 7)], .deliver 8 BufPool.init 1]

theorem reports_in_order_sampleRun :
    ∃ s, run (step Wire.base128 ClientCallbacks.none MsgCallback.none) (init 3 5) sampleRun =
        some s ∧
      reportsIn Wire.base128 s.link.dispatched = [sampleReport] ∧ s.link.crashed = none := by
  have hdone : (run (step Wire.base128 ClientCallbacks.none MsgCallback.none) (init 3 5)
      sampleRun).map (fun s => (s.accepted, s.link.client.obuf.pending, s.link.net)) =
        some ([sampleReport], [], []) := by
    decide +kernel
  rcases Option.map_eq_some_iff.1 hdone with ⟨s, hrun, hs⟩
  simp only [Prod.mk.injEq] at hs
  have hpool : Meets (step Wire.base128 ClientCallbacks.none MsgCallback.none) PoolServes
      (init 3 5) sampleRun :=
    ⟨trivial, fun _ _ => ⟨trivial, fun _ _ => ⟨BufPool.init_serviceable, fun _ _ => ⟨trivial,
      fun _ _ => ⟨BufPool.init_serviceable, fun _ _ => trivial⟩⟩⟩⟩⟩
  have hcb : Meets (step Wire.base128 ClientCallbacks.none MsgCallback.none)
      (CallbackReturns MsgCallback.none) (init 3 5) sampleRun :=
    (meets_true _ _).mono fun s a _ => callbackReturns_none s a
  rcases reports_in_order Wire.base128 ClientCallbacks.none MsgCallback.none 3 5 sampleRun s hpool
    hcb hrun with ⟨halive, _, hall, _⟩
  exact ⟨s, hrun, (hall hs.2.1 hs.2.2).trans hs.1, halive⟩

end ReportPath
end Report
end Rins
