import Rins.Api.RinsClient

/-!
# Replies — which reply `get_host` goes by

`get_host` reads datagrams until one has a sequence number that is not smaller than its own.  It
reports a host only for the reply to this very call.

The numbers are unsigned and wrap around.  So a reply to an earlier call counts as stale only while
the number has not wrapped since.
-/

namespace Rins
namespace Api

open Agent (LbAgent)
open Lib (Wire)
open Proto (GetHostRequest GetHostResponse HostCodec hostCodec128 MessageId RetCode)
open Reactor

/-! ## One datagram -/

/-- What has arrived of the datagram, in `read_buf`, is the response. -/
structure Decodes (codec : HostCodec) (pkg : List UInt8) (resp : GetHostResponse) : Prop where
  head : messageHeadLen ≤ (pkg.take readBufLen).length
  id : (MsgHead.decode (pkg.take readBufLen)).id = MessageId.getHostResponse.num
  body : codec.parseResponse ((pkg.take readBufLen).drop messageHeadLen) = some resp

namespace RinsClient

variable {codec : HostCodec} {seq : UInt32} {pkg : List UInt8} {answers : List ApiRecv}
  {readBuf : CharArray readBufLen}

theorem recvfrom_take (readBuf : CharArray readBufLen) (pkg : List UInt8) :
    readBuf.recvfrom pkg = readBuf.recvfrom (pkg.take readBufLen) := by
  simp [CharArray.recvfrom, List.take_take]

/-- The head and the body as the loop finds them in the buffer. -/
theorem load_reply (readBuf : CharArray readBufLen)
    (hhead : messageHeadLen ≤ (pkg.take readBufLen).length) :
    (readBuf.recvfrom pkg).2.load 0 messageHeadLen =
        .ok ((pkg.take readBufLen).take messageHeadLen) ∧
      (readBuf.recvfrom pkg).2.load messageHeadLen ((readBuf.recvfrom pkg).1 - messageHeadLen) =
        .ok ((pkg.take readBufLen).drop messageHeadLen) := by
  have hfit : (pkg.take readBufLen).length ≤ readBufLen := List.length_take_le _ _
  have hlen : (readBuf.recvfrom pkg).1 = (pkg.take readBufLen).length := rfl
  have hrest : ((readBuf.recvfrom pkg).1 : Int) - messageHeadLen =
      ((pkg.take readBufLen).length - messageHeadLen : Nat) := by
    rw [hlen]
    omega
  rw [hrest, recvfrom_take]
  refine ⟨?_, ?_⟩
  · have hload := readBuf.load_recvfrom hfit 0 messageHeadLen (by omega)
    simpa using hload
  · have hload := readBuf.load_recvfrom hfit messageHeadLen
      ((pkg.take readBufLen).length - messageHeadLen) (by omega)
    rw [hload, ← List.length_drop, List.take_length]

/-- What the loop does with a response. -/
theorem recvLoop_of_decodes {resp : GetHostResponse} (h : Decodes codec pkg resp) :
    recvLoop codec seq (.pkg pkg :: answers) readBuf =
      if resp.seq < seq then do
        let (last, received) ← recvLoop codec seq answers (readBuf.recvfrom pkg).2
        return (last, pkg :: received)
      else
        .ok (some resp, [pkg]) := by
  rcases load_reply readBuf h.head with ⟨hfront, hbody⟩
  conv_lhs => unfold recvLoop
  simp only [hfront, hbody, ok_bind, MsgHead.decode_take h.head, h.id, h.body]
  rfl

/-- Behind a datagram that is no response the loop has none either. -/
theorem recvLoop_of_not_decodes {last : Option GetHostResponse} {received : List (List UInt8)}
    (hnot : ∀ resp, ¬ Decodes codec pkg resp)
    (h : recvLoop codec seq (.pkg pkg :: answers) readBuf = .ok (last, received)) :
    last = none := by
  unfold recvLoop at h
  simp only at h
  rcases bind_eq_ok.1 h with ⟨front, hfront, h⟩
  split_ifs at h with hid
  · cases h
    rfl
  · rcases bind_eq_ok.1 h with ⟨body, hbody, h⟩
    -- a negative size would have faulted
    have hhead : messageHeadLen ≤ (pkg.take readBufLen).length := by
      rcases CharArray.load_eq_ok.1 hbody with ⟨⟨_, hsize, _⟩, _⟩
      have hlen : (readBuf.recvfrom pkg).1 = (pkg.take readBufLen).length := rfl
      omega
    rcases load_reply readBuf hhead with ⟨hfront', hbody'⟩
    rw [hfront] at hfront'
    rw [hbody] at hbody'
    cases hfront'
    cases hbody'
    rw [MsgHead.decode_take hhead] at hid
    cases hparse : codec.parseResponse ((pkg.take readBufLen).drop messageHeadLen) with
    | none =>
        rw [hparse] at h
        cases h
        rfl
    | some resp => exact absurd ⟨hhead, not_not.1 hid, hparse⟩ (hnot resp)

/-! ## The loop -/

/-- The response with which the loop ends is in the last datagram; all before it are responses with
smaller numbers. -/
theorem recvLoop_some {resp : GetHostResponse} {received : List (List UInt8)}
    (h : recvLoop codec seq answers readBuf = .ok (some resp, received)) :
    ∃ earlier last, received = earlier ++ [last] ∧ Decodes codec last resp ∧
      ∀ pkg ∈ earlier, ∃ stale, Decodes codec pkg stale ∧ stale.seq < seq := by
  induction answers generalizing readBuf received with
  | nil => cases h
  | cons answer answers ih =>
      cases answer with
      | failed => cases h
      | pkg pkg =>
          by_cases hdecodes : ∃ first, Decodes codec pkg first
          · rcases hdecodes with ⟨first, hfirst⟩
            rw [recvLoop_of_decodes hfirst] at h
            split_ifs at h with hstale
            · rcases bind_eq_ok.1 h with ⟨⟨final, more⟩, hmore, h⟩
              cases h
              rcases ih hmore with ⟨earlier, last, rfl, hlast, hearlier⟩
              refine ⟨pkg :: earlier, last, rfl, hlast, ?_⟩
              intro other hother
              rcases List.mem_cons.1 hother with rfl | hlater
              · exact ⟨first, hfirst, hstale⟩
              · exact hearlier other hlater
            · cases h
              exact ⟨[], pkg, rfl, hfirst, fun other hother => absurd hother List.not_mem_nil⟩
          · push Not at hdecodes
            cases recvLoop_of_not_decodes hdecodes h

/-- A host is reported, and `ip` assigned, only for the response to this call. -/
theorem conclude_succ {modid cmdid : Int32} {vars : HostVars} {last : Option GetHostResponse}
    (h : (conclude seq modid cmdid vars last).1 = RetCode.succ.num ∨
      (conclude seq modid cmdid vars last).2 ≠ vars) :
    ∃ resp, last = some resp ∧ resp.seq = seq ∧ resp.modid = modid ∧ resp.cmdid = cmdid ∧
      resp.retcode = 0 := by
  unfold conclude at h
  cases last with
  | none =>
      rcases h with hret | hvars
      · exact absurd hret (RetCode.num_ne (a := .systemError) (by decide))
      · exact absurd rfl hvars
  | some resp =>
      simp only at h
      split_ifs at h with hother hzero
      · rcases h with hret | hvars
        · exact absurd hret (RetCode.num_ne (a := .systemError) (by decide))
        · exact absurd rfl hvars
      · simp only [not_or, not_not] at hother
        exact ⟨resp, rfl, hother.1, hother.2.1, hother.2.2, hzero⟩
      · rcases h with hret | hvars
        · exact absurd hret hzero
        · exact absurd rfl hvars

/-- How a call of `get_host` that returns has come to its end. -/
theorem getHost_eq_ok {client : RinsClient} {modid cmdid : Int32} {vars : HostVars} {sent : Bool}
    {out : ApiOutcome}
    (h : client.getHost codec modid cmdid vars readBuf sent answers = .ok out) :
    out.client = { client with seqid := client.seqid + 1 } ∧
      LbAgent.shard ((modid + cmdid) % 3) ≠ none ∧
      ((sent = false ∧ out.ret = RetCode.systemError.num ∧ out.vars = vars) ∨
        ∃ last, recvLoop codec client.seqid answers readBuf = .ok (last, out.received) ∧
          conclude client.seqid modid cmdid vars last = (out.ret, out.vars)) := by
  unfold getHost at h
  simp only at h
  cases hindex : LbAgent.shard ((modid + cmdid) % 3) with
  | none =>
      simp only [hindex] at h
      split_ifs at h
  | some index =>
      simp only [hindex] at h
      split_ifs at h with hlong hsent
      · rcases bind_eq_ok.1 h with ⟨⟨last, received⟩, hloop, h⟩
        cases h
        exact ⟨rfl, Option.some_ne_none index, .inr ⟨last, hloop, rfl⟩⟩
      · cases h
        exact ⟨rfl, Option.some_ne_none index, .inl ⟨by simpa using hsent, rfl, rfl⟩⟩

/-! ## Calls so far -/

/-- A client on which `get_host` has been called `n` times. -/
inductive Made (codec : HostCodec) : Nat → RinsClient → Prop
  | new (sockfd : Fin 3 → Int) : Made codec 0 { seqid := 0, sockfd := sockfd }
  | call {n : Nat} {client : RinsClient} {modid cmdid : Int32} {vars : HostVars}
      {readBuf : CharArray readBufLen} {sent : Bool} {answers : List ApiRecv} {out : ApiOutcome} :
      Made codec n client →
      client.getHost codec modid cmdid vars readBuf sent answers = .ok out →
      Made codec (n + 1) out.client

theorem Made.seqid_eq {n : Nat} {client : RinsClient} (h : Made codec n client) :
    client.seqid = UInt32.ofNat n := by
  induction h with
  | new sockfd => rfl
  | call _ hcall ih =>
      rw [(getHost_eq_ok hcall).1]
      simp [ih]

/-- The datagram of a response. -/
def reply (codec : HostCodec) (resp : GetHostResponse) : List UInt8 :=
  (Message.of MessageId.getHostResponse.num (codec.serializeResponse resp)).encode

/-- The response fits into `read_buf` and is parsed as what it is. -/
structure Readable (codec : HostCodec) (resp : GetHostResponse) : Prop where
  fits : messageHeadLen + (codec.serializeResponse resp).length ≤ readBufLen
  parse : codec.parseResponse (codec.serializeResponse resp) = some resp

theorem Readable.decodes {resp : GetHostResponse} (h : Readable codec resp) :
    Decodes codec (reply codec resp) resp := by
  have hlen : (reply codec resp).length = messageHeadLen + (codec.serializeResponse resp).length :=
    Message.length_encode _
  have hall : (reply codec resp).take readBufLen = reply codec resp := by
    refine List.take_of_length_le ?_
    rw [hlen]
    exact h.fits
  constructor
  · rw [hall, hlen]
    omega
  · rw [hall, reply, Message.encode, MsgHead.decode_append (le_refl _), MsgHead.decode_encode]
    rfl
  · rw [hall, reply, Message.encode, List.drop_left' (MsgHead.length_encode _)]
    exact h.parse

/-- The loop passes over responses with smaller numbers. -/
theorem recvLoop_replies (readBuf : CharArray readBufLen) {stale : List GetHostResponse}
    {own : GetHostResponse} (later : List ApiRecv)
    (hreadable : ∀ r ∈ stale ++ [own], Readable codec r)
    (hstale : ∀ r ∈ stale, r.seq < seq) (hown : ¬ own.seq < seq) :
    recvLoop codec seq ((stale ++ [own]).map (fun r => .pkg (reply codec r)) ++ later) readBuf =
      .ok (some own, (stale ++ [own]).map (reply codec)) := by
  induction stale generalizing readBuf with
  | nil =>
      have hdecodes := (hreadable own (by simp)).decodes
      rw [List.nil_append, List.map_singleton, List.singleton_append, recvLoop_of_decodes hdecodes,
        if_neg hown]
      rfl
  | cons r stale ih =>
      simp only [List.cons_append, List.forall_mem_cons] at hreadable hstale
      rw [List.cons_append, List.map_cons, List.cons_append,
        recvLoop_of_decodes hreadable.1.decodes, if_pos hstale.1, ih _ hreadable.2 hstale.2]
      rfl

/-- A response that the loop has passed over had a smaller number. -/
theorem stale_of_recvLoop_replies {stale : List GetHostResponse} {own : GetHostResponse}
    {later : List ApiRecv} {last : Option GetHostResponse}
    (hreadable : ∀ r ∈ stale ++ [own], Readable codec r)
    (h : recvLoop codec seq ((stale ++ [own]).map (fun r => .pkg (reply codec r)) ++ later)
      readBuf = .ok (last, (stale ++ [own]).map (reply codec))) :
    ∀ r ∈ stale, r.seq < seq := by
  induction stale generalizing readBuf with
  | nil => exact fun r hr => absurd hr List.not_mem_nil
  | cons r stale ih =>
      simp only [List.cons_append, List.forall_mem_cons] at hreadable
      rw [List.cons_append, List.map_cons, List.cons_append,
        recvLoop_of_decodes hreadable.1.decodes] at h
      split_ifs at h with hseq
      · rcases bind_eq_ok.1 h with ⟨⟨final, received⟩, hloop, h⟩
        simp only [pure_eq_ok, Except.ok.injEq, Prod.mk.injEq, List.map_cons, List.cons.injEq,
          true_and] at h
        rcases h with ⟨rfl, rfl⟩
        refine List.forall_mem_cons.2 ⟨hseq, ih hreadable.2 hloop⟩
      · -- the loop would have ended with the first of them
        simp at h

/-- Whatever is in the memory: `get_host` reads the stale replies and its own, and returns what that
one says. -/
def SkipsStale (codec : HostCodec) (client : RinsClient) (modid cmdid : Int32)
    (stale : List GetHostResponse) (own : GetHostResponse) : Prop :=
  ∀ (vars : HostVars) (readBuf : CharArray readBufLen) (later : List ApiRecv), ∃ out,
    client.getHost codec modid cmdid vars readBuf true
      ((stale ++ [own]).map (fun r => .pkg (reply codec r)) ++ later) = .ok out ∧
    out.received = (stale ++ [own]).map (reply codec) ∧ out.ret = own.retcode

theorem lt_ofNat_iff (i n : Nat) : UInt32.ofNat i < UInt32.ofNat n ↔ i % 2 ^ 32 < n % 2 ^ 32 := by
  rw [UInt32.lt_iff_toNat_lt, UInt32.toNat_ofNat', UInt32.toNat_ofNat']

theorem skipsStale_iff_lt {client : RinsClient} {modid cmdid : Int32}
    {stale : List GetHostResponse} {own : GetHostResponse}
    (hrequest : (client.request codec modid cmdid).length ≤ writeBufLen)
    (hreadable : ∀ r ∈ stale ++ [own], Readable codec r)
    (hown : own.seq = client.seqid ∧ own.modid = modid ∧ own.cmdid = cmdid) :
    SkipsStale codec client modid cmdid stale own ↔
      LbAgent.shard ((modid + cmdid) % 3) ≠ none ∧ ∀ r ∈ stale, r.seq < client.seqid := by
  constructor
  · intro h
    rcases h { ip := "", port := 0 } { data := fun _ => 0 } [] with ⟨out, hget, hreceived, _⟩
    rcases (getHost_eq_ok hget).2 with ⟨hindex, ⟨hsent, _⟩ | ⟨last, hloop, _⟩⟩
    · cases hsent
    · rw [hreceived] at hloop
      exact ⟨hindex, stale_of_recvLoop_replies hreadable hloop⟩
  · rintro ⟨hindex, hstale⟩ vars readBuf later
    rcases Option.ne_none_iff_exists'.1 hindex with ⟨index, hindex⟩
    have hloop := recvLoop_replies readBuf later hreadable hstale
      (by rw [hown.1]; exact UInt32.lt_irrefl client.seqid)
    unfold getHost
    simp only [gt_iff_lt, not_lt.2 hrequest, if_false, hindex, if_true, hloop, ok_bind]
    refine ⟨_, rfl, rfl, ?_⟩
    simp only [conclude, hown, ne_eq, not_true_eq_false, or_self, if_false]
    split_ifs <;> rfl

/-- A client can have made any number of calls: those whose requests cannot be sent return. -/
theorem made_of_unsent {codec : HostCodec}
    (hrequest : ∀ req, messageHeadLen + (codec.serializeRequest req).length ≤ writeBufLen)
    (sockfd : Fin 3 → Int) (n : Nat) :
    Made codec n { seqid := UInt32.ofNat n, sockfd := sockfd } := by
  induction n with
  | zero => exact .new sockfd
  | succ n ih =>
      have hfits : ¬ (request codec { seqid := UInt32.ofNat n, sockfd := sockfd } 0 0).length >
          writeBufLen := by
        rw [request, Message.length_encode]
        exact not_lt.2 (hrequest _)
      have hcall : getHost codec { seqid := UInt32.ofNat n, sockfd := sockfd } 0 0
          { ip := "", port := 0 } { data := fun _ => 0 } false [] = .ok
            { ret := RetCode.systemError.num
              client := { seqid := UInt32.ofNat n + 1, sockfd := sockfd }
              vars := { ip := "", port := 0 }
              sent := none
              received := [] } := by
        unfold getHost
        simp only [hfits, if_false]
        rfl
      have hnext := Made.call ih hcall
      rwa [show UInt32.ofNat n + 1 = UInt32.ofNat (n + 1) by simp] at hnext

/-! ## The messages of the generated classes -/

theorem request_fits (w : Wire) (req : GetHostRequest) :
    messageHeadLen + ((Proto.hostCodec w).serializeRequest req).length ≤ writeBufLen :=
  Nat.le_trans (Nat.add_le_add_left (Proto.length_serializeRequest w req) _) (by decide)

theorem reply_readable (w : Wire) (resp : GetHostResponse) : Readable (Proto.hostCodec w) resp where
  fits := Nat.le_trans (Nat.add_le_add_left (Proto.length_serializeResponse w resp) _) (by decide)
  parse := Proto.parseResponse_serialize w resp

/-! ### Samples -/

/-- To call 0: nothing exists. -/
def sampleNoexist : GetHostResponse :=
  { seq := 0, modid := 1, cmdid := 1, retcode := 3, host := none }

/-- To call 1: the port 80 of this machine. -/
def sampleHost : GetHostResponse :=
  { seq := 1, modid := 1, cmdid := 1, retcode := 0, host := some { ip := 16777343, port := 80 } }

/-- To the last call before the number wraps around. -/
def sampleLast : GetHostResponse :=
  { seq := 4294967295, modid := 1, cmdid := 1, retcode := 3, host := none }

/-- A client that has made `n` calls. -/
def sampleClient (n : Nat) : RinsClient :=
  { seqid := UInt32.ofNat n, sockfd := fun i => (i : Int) + 3 }

theorem made_sampleClient (n : Nat) : Made hostCodec128 n (sampleClient n) :=
  made_of_unsent (request_fits Wire.base128) _ n

theorem sampleClient_request (n : Nat) :
    ((sampleClient n).request hostCodec128 1 1).length ≤ writeBufLen := by
  rw [request, Message.length_encode]
  exact request_fits Wire.base128 _

/-! ## Whole calls -/

/-- `get_host` reports a host, or assigns `ip`, only behind the reply to this very call; all that it
has read before are responses with smaller numbers. -/
theorem getHost_own_reply {client : RinsClient} {modid cmdid : Int32} {vars : HostVars}
    {sent : Bool} {out : ApiOutcome}
    (h : client.getHost codec modid cmdid vars readBuf sent answers = .ok out)
    (hsucc : out.ret = RetCode.succ.num ∨ out.vars ≠ vars) :
    ∃ earlier last resp, out.received = earlier ++ [last] ∧ Decodes codec last resp ∧
      resp.seq = client.seqid ∧ resp.modid = modid ∧ resp.cmdid = cmdid ∧ resp.retcode = 0 ∧
      ∀ pkg ∈ earlier, ∃ stale, Decodes codec pkg stale ∧ stale.seq < client.seqid := by
  rcases (getHost_eq_ok h).2.2 with ⟨_, hret, hvars⟩ | ⟨last, hloop, hend⟩
  · rw [hret, hvars] at hsucc
    rcases hsucc with hzero | hchanged
    · exact absurd hzero (RetCode.num_ne (by decide))
    · exact absurd rfl hchanged
  · rw [show out.ret = (conclude client.seqid modid cmdid vars last).1 by rw [hend],
      show out.vars = (conclude client.seqid modid cmdid vars last).2 by rw [hend]] at hsucc
    rcases conclude_succ hsucc with ⟨resp, rfl, hseq, hmodid, hcmdid, hcode⟩
    rcases recvLoop_some hloop with ⟨earlier, pkg, hreceived, hdecodes, hearlier⟩
    exact ⟨earlier, pkg, resp, hreceived, hdecodes, hseq, hmodid, hcmdid, hcode, hearlier⟩

/-- The second call reads the reply to the first, and reports the host of its own. -/
theorem getHost_own_reply_second :
    ∃ out, (sampleClient 1).getHost hostCodec128 1 1 { ip := "", port := 0 }
        { data := fun _ => 0 } true
        [.pkg (reply hostCodec128 sampleNoexist), .pkg (reply hostCodec128 sampleHost)] = .ok out ∧
      out.ret = RetCode.succ.num ∧
      ∃ earlier last resp, out.received = earlier ++ [last] ∧ Decodes hostCodec128 last resp ∧
        resp.seq = 1 ∧ resp.modid = 1 ∧ resp.cmdid = 1 ∧ resp.retcode = 0 ∧
        ∀ pkg ∈ earlier, ∃ stale, Decodes hostCodec128 pkg stale ∧ stale.seq < 1 := by
  have hskips : SkipsStale hostCodec128 (sampleClient 1) 1 1 [sampleNoexist] sampleHost := by
    rw [skipsStale_iff_lt (sampleClient_request 1)]
    · decide
    · exact fun r _ => reply_readable Wire.base128 r
    · decide
  rcases hskips { ip := "", port := 0 } { data := fun _ => 0 } [] with ⟨out, hget, _, hret⟩
  exact ⟨out, hget, hret, getHost_own_reply hget (.inl hret)⟩

/-- After `n` calls the replies to earlier ones are skipped when the index is good and the numbers
have not wrapped since, and then only. -/
theorem skipsStale_iff {n : Nat} {client : RinsClient} (hmade : Made codec n client)
    (modid cmdid : Int32) (stale : List (Nat × GetHostResponse)) (own : GetHostResponse)
    (hrequest : (client.request codec modid cmdid).length ≤ writeBufLen)
    (hreadable : ∀ r ∈ stale.map Prod.snd ++ [own], Readable codec r)
    (hstale : ∀ p ∈ stale, p.1 < n ∧ p.2.seq = UInt32.ofNat p.1)
    (hown : own.seq = client.seqid ∧ own.modid = modid ∧ own.cmdid = cmdid) :
    SkipsStale codec client modid cmdid (stale.map Prod.snd) own ↔
      LbAgent.shard ((modid + cmdid) % 3) ≠ none ∧
        ∀ p ∈ stale, p.1 % 2 ^ 32 < n % 2 ^ 32 := by
  rw [skipsStale_iff_lt hrequest hreadable hown, List.forall_mem_map]
  refine and_congr_right fun _ => forall₂_congr fun p hp => ?_
  rw [(hstale p hp).2, hmade.seqid_eq, lt_ofNat_iff]

/-- The second call skips the reply to the first. -/
theorem skipsStale_second :
    SkipsStale hostCodec128 (sampleClient 1) 1 1 [sampleNoexist] sampleHost := by
  refine (skipsStale_iff (made_sampleClient 1) 1 1 [(0, sampleNoexist)] sampleHost
    (sampleClient_request 1) ?_ ?_ ?_).2 ?_
  · exact fun r _ => reply_readable Wire.base128 r
  · decide
  · decide
  · decide

/-- Behind 2^32 calls the reply to the last one is not skipped. -/
theorem not_skipsStale_wrapped :
    Made hostCodec128 (2 ^ 32) (sampleClient (2 ^ 32)) ∧
      ¬ SkipsStale hostCodec128 (sampleClient (2 ^ 32)) 1 1 [sampleLast] sampleNoexist := by
  refine ⟨made_sampleClient _, ?_⟩
  rw [skipsStale_iff_lt (sampleClient_request _)]
  · decide
  · exact fun r _ => reply_readable Wire.base128 r
  · decide

end RinsClient
end Api
end Rins
