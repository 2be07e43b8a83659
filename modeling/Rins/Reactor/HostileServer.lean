import Mathlib.Data.Int.Interval
import Rins.Lib.Orbit
import Rins.Reactor.ClientFraming

/-!
# HostileServer — the parse loop of the client on arbitrary bytes

`tcp_client::do_read` pops the length field of each head as it is.  A negative length moves the
window back: to an offset in front of the block, or to one where the loop has been before.  Where
the loop goes is decided by the received bytes alone; this module follows the offsets through them.

* `nextOffset`        : the offset of the head behind the one at a given offset;
* `loopRound_pop`     : a round of the loop goes from one offset to the next;
* `staysInside_iff`   : the loop ends inside its buffer exactly if the offsets do not go in a circle
  and do not become negative.
-/

namespace Rins
namespace Reactor

open Relation
open StateTransition

namespace TcpClient

/-! ## The loop and its buffer -/

/-- What a round of the loop does to `_ibuf`; `none` where the loop ends. -/
def loopRound (b : IoBuf) : Except Fault (Option IoBuf) :=
  if b.length ≥ messageHeadLen then do
    let bytes ← b.load b.head messageHeadLen
    let head := MsgHead.decode bytes
    return some ((b.pop messageHeadLen).pop head.length.toInt)
  else
    return none

/-- From `b₀` the loop comes to `b` at a test of its condition. -/
def AtTest (b₀ b : IoBuf) : Prop :=
  ReflTransGen (fun b b' => loopRound b = .ok (some b')) b₀ b

/-- The loop ends, and `_ibuf` is in order at every iteration. -/
structure StaysInside (cbs : ClientCallbacks) (cli : TcpClient) : Prop where
  ends : ∃ rounds out, parseLoop cbs rounds cli = .ok out
  inside : ∀ b, AtTest cli.ibuf b → b.Valid

theorem parseLoop_stop {cbs : ClientCallbacks} {cli : TcpClient} (rounds : Nat)
    (h : loopRound cli.ibuf = .ok none) : parseLoop cbs (rounds + 1) cli = .ok (cli, [], []) := by
  unfold loopRound at h
  split_ifs at h with hlen
  · rcases bind_eq_ok.1 h with ⟨_, _, hret⟩
    cases hret
  · exact parseLoop_short rounds (by omega)

/-- The rest of the loop is the loop on what the round has left. -/
theorem parseLoop_next {cbs : ClientCallbacks} {cli : TcpClient} {b : IoBuf}
    (h : loopRound cli.ibuf = .ok (some b)) :
    ∃ call, TakesHead cli call ∧ b = (cli.ibuf.pop messageHeadLen).pop call.length.toInt ∧
      ∀ rounds, parseLoop cbs (rounds + 1) cli = (do
      let (obuf, called) ← cbs.message call cli.obuf
      let (cli, calls, effects) ← parseLoop cbs rounds { cli with ibuf := b, obuf := obuf }
      return (cli, call :: calls, called ++ effects)) := by
  unfold loopRound at h
  split_ifs at h with hlen
  · rcases bind_eq_ok.1 h with ⟨bytes, hload, hret⟩
    cases hret
    refine ⟨{ id := (MsgHead.decode bytes).id
              length := (MsgHead.decode bytes).length
              avail := (cli.ibuf.pop messageHeadLen).pending }, ⟨hlen, bytes, hload, rfl⟩, rfl,
      fun rounds => ?_⟩
    rw [parseLoop, if_pos hlen, hload, ok_bind]
  · cases h

/-! ## The offsets -/

/-- The length field of the head at offset `q` of the received bytes. -/
def lengthAt (xs : List UInt8) (q : Int) : Int :=
  (MsgHead.decode (xs.drop q.toNat)).length.toInt

/-- The offset of the head behind the one at offset `q`. -/
def nextOffset (xs : List UInt8) (q : Int) : Option Int :=
  if 0 ≤ q ∧ q + messageHeadLen ≤ xs.length then
    let behind := q + messageHeadLen
    -- a length beyond what is there is not popped
    some (if lengthAt xs q ≤ xs.length - behind then behind + lengthAt xs q else behind)
  else
    none

/-- Followed from the first byte on, the offsets do not become negative and do not go in a
circle. -/
structure Harmless (xs : List UInt8) : Prop where
  nonneg : ∀ q, Reaches (nextOffset xs) 0 q → 0 ≤ q
  acyclic : Lib.Acyclic (nextOffset xs) 0

theorem nextOffset_le {xs : List UInt8} {q q' : Int} (h : q' ∈ nextOffset xs q) :
    q' ≤ xs.length := by
  unfold nextOffset at h
  split_ifs at h with hhead
  · cases h
    split_ifs <;> omega
  · cases h

theorem reaches_le {xs : List UInt8} {q : Int} (h : Reaches (nextOffset xs) 0 q) :
    q ≤ xs.length := by
  induction h with
  | refl => exact Int.natCast_nonneg _
  | tail _ hstep _ => exact nextOffset_le hstep

/-- A round of the loop that starts at an offset ends at the next one. -/
theorem loopRound_pop {b : IoBuf} (hvalid : b.Valid) {q : Int} (h₀ : 0 ≤ q) (hq : q ≤ b.length) :
    loopRound (b.pop q) = .ok ((nextOffset b.pending q).map b.pop) := by
  have hlen := hvalid.length_eq
  obtain ⟨n, rfl⟩ : ∃ n : Nat, q = n := ⟨q.toNat, by omega⟩
  have hn : n ≤ b.pending.length := by omega
  have hpend := IoBuf.pending_pop hvalid hn
  have hvalid' := hvalid.pop hn
  have hlen' : (b.pop n).length = b.length - n := by rw [IoBuf.pop_eq hq]
  unfold loopRound nextOffset
  by_cases hhead : (n : Int) + messageHeadLen ≤ b.pending.length
  · have hwhole : messageHeadLen ≤ (b.pop n).pending.length := by
      rw [hpend, List.length_drop]
      omega
    have hdecode : (MsgHead.decode ((b.pop n).pending.take messageHeadLen)).length.toInt =
        lengthAt b.pending n := by
      rw [MsgHead.decode_take hwhole, hpend]
      rfl
    rw [if_pos (by omega), if_pos ⟨h₀, hhead⟩, IoBuf.load_head hvalid' hwhole, ok_bind,
      IoBuf.pop_pop hq (by omega)]
    simp only [hdecode, Option.map_some, pure_eq_ok]
    split_ifs with hfits
    · rw [IoBuf.pop_pop (by omega) (by omega)]
    · rw [IoBuf.pop_more]
      rw [IoBuf.pop_eq (by omega)]
      simp only
      omega
  · rw [if_neg (by omega), if_neg (by omega)]
    rfl

/-! ## Following the offsets -/

section Following

variable {b : IoBuf} (hvalid : b.Valid) (hfront : b.head = 0)

include hvalid

/-- The loop comes to the buffer at every offset that is reached. -/
theorem atTest_of_reaches {q : Int} (h : Reaches (nextOffset b.pending) 0 q) :
    AtTest b (b.pop q) := by
  have hlen := hvalid.length_eq
  induction h with
  | refl =>
      rw [IoBuf.pop_zero hvalid]
      exact .refl
  | @tail q q' hreach hstep ih =>
      have hq := reaches_le hreach
      -- only an offset inside the block has a next one
      have h₀ : 0 ≤ q := by
        by_contra hneg
        unfold nextOffset at hstep
        rw [if_neg (by omega)] at hstep
        cases hstep
      refine ih.tail ?_
      rw [loopRound_pop hvalid h₀ (by omega), Option.mem_def.1 hstep, Option.map_some]

/-- As long as no offset is negative, the loop comes to no other buffer. -/
theorem reaches_of_atTest (hnonneg : ∀ q, Reaches (nextOffset b.pending) 0 q → 0 ≤ q) {b' : IoBuf}
    (h : AtTest b b') : ∃ q, Reaches (nextOffset b.pending) 0 q ∧ b' = b.pop q := by
  have hlen := hvalid.length_eq
  induction h with
  | refl =>
      exact ⟨0, .refl, (IoBuf.pop_zero hvalid).symm⟩
  | tail _ hstep ih =>
      rcases ih with ⟨q, hreach, rfl⟩
      have hq := reaches_le hreach
      rw [loopRound_pop hvalid (hnonneg q hreach) (by omega), Except.ok.injEq,
        Option.map_eq_some_iff] at hstep
      rcases hstep with ⟨q', hnext, rfl⟩
      exact ⟨q', hreach.tail hnext, rfl⟩

include hfront

theorem pop_valid_iff {q : Int} (hq : q ≤ b.length) : (b.pop q).Valid ↔ 0 ≤ q := by
  have hlen := hvalid.length_nonneg
  have hfits := hvalid.fits
  rw [IoBuf.pop_eq hq, hfront]
  constructor
  · intro h
    simpa using h.head_nonneg
  · intro h
    exact ⟨by simp only; omega, by simp only; omega, by simp only; omega⟩

end Following

/-- Where the offsets come to an end, the loop does. -/
theorem parseLoop_ends {cbs : ClientCallbacks} {b : IoBuf} (hvalid : b.Valid)
    (hnonneg : ∀ q, Reaches (nextOffset b.pending) 0 q → 0 ≤ q) {q c : Int}
    (hend : nextOffset b.pending c = none) (hreach : Reaches (nextOffset b.pending) q c) :
    Reaches (nextOffset b.pending) 0 q → ∀ cli : TcpClient, cli.ibuf = b.pop q →
      Returning cbs (LoopCalls cbs cli) → ∃ rounds out, parseLoop cbs rounds cli = .ok out := by
  have hlen := hvalid.length_eq
  have hround : ∀ {q}, Reaches (nextOffset b.pending) 0 q →
      loopRound (b.pop q) = .ok ((nextOffset b.pending q).map b.pop) := by
    intro q hq
    have hle := reaches_le hq
    exact loopRound_pop hvalid (hnonneg q hq) (by omega)
  induction hreach using ReflTransGen.head_induction_on with
  | refl =>
      intro hq cli hcli _
      refine ⟨1, _, parseLoop_stop 0 ?_⟩
      rw [hcli, hround hq, hend, Option.map_none]
  | @head q q' hstep _ ih =>
      intro hq cli hcli hcbs
      have hloop : loopRound cli.ibuf = .ok (some (b.pop q')) := by
        rw [hcli, hround hq, Option.mem_def.1 hstep, Option.map_some]
      rcases @parseLoop_next cbs _ _ hloop with ⟨call, htakes, hpopped, hnext⟩
      rcases hcbs call cli.obuf (.first htakes) with ⟨obuf, called, hcall⟩
      -- what is called from the next offset on is called in a later round
      have hcbs' : Returning cbs (LoopCalls cbs { cli with ibuf := b.pop q', obuf := obuf }) := by
        rw [hpopped]
        exact hcbs.mono fun _ _ => .later htakes hcall
      rcases ih (hq.tail hstep) { cli with ibuf := b.pop q', obuf := obuf } rfl hcbs' with
        ⟨rounds, out, hrest⟩
      refine ⟨rounds + 1, (out.1, call :: out.2.1, called ++ out.2.2), ?_⟩
      rw [hnext]
      simp only [hcall, hrest, ok_bind, pure_eq_ok]

/-- Where the loop ends, the offsets come to an end. -/
theorem halts_of_parseLoop {cbs : ClientCallbacks} {b : IoBuf} (hvalid : b.Valid)
    (hnonneg : ∀ q, Reaches (nextOffset b.pending) 0 q → 0 ≤ q) (rounds : Nat) :
    ∀ {q : Int} {cli : TcpClient} {out}, Reaches (nextOffset b.pending) 0 q →
      cli.ibuf = b.pop q → parseLoop cbs rounds cli = .ok out →
      Lib.Halts (nextOffset b.pending) q := by
  have hlen := hvalid.length_eq
  induction rounds with
  | zero =>
      intro q cli out _ _ h
      cases h
  | succ rounds ih =>
      intro q cli out hq hcli h
      have hle := reaches_le hq
      have hround := loopRound_pop hvalid (hnonneg q hq) (by omega)
      cases hnext : nextOffset b.pending q with
      | none => exact ⟨q, .refl, hnext⟩
      | some q' =>
          rw [hnext, Option.map_some, ← hcli] at hround
          rcases parseLoop_next hround with ⟨call, _, _, hloop⟩
          rw [hloop] at h
          rcases bind_eq_ok.1 h with ⟨⟨obuf, called⟩, _, h⟩
          rcases bind_eq_ok.1 h with ⟨rest, hrest, _⟩
          exact (Lib.halts_step hnext).2 (ih (hq.tail hnext) rfl hrest)

theorem finite_reaches {xs : List UInt8} (hnonneg : ∀ q, Reaches (nextOffset xs) 0 q → 0 ≤ q) :
    {q | Reaches (nextOffset xs) 0 q}.Finite :=
  (Set.finite_Icc (0 : Int) xs.length).subset fun q hq => ⟨hnonneg q hq, reaches_le hq⟩

theorem StaysInside.harmless {cbs : ClientCallbacks} {cli : TcpClient} (hvalid : cli.ibuf.Valid)
    (hfront : cli.ibuf.head = 0) (h : StaysInside cbs cli) : Harmless cli.ibuf.pending := by
  have hlen := hvalid.length_eq
  have hnonneg : ∀ q, Reaches (nextOffset cli.ibuf.pending) 0 q → 0 ≤ q := by
    intro q hq
    have hle := reaches_le hq
    exact (pop_valid_iff hvalid hfront (by omega)).1 (h.inside _ (atTest_of_reaches hvalid hq))
  refine ⟨hnonneg, ?_⟩
  rcases h.ends with ⟨rounds, out, hloop⟩
  exact (halts_of_parseLoop hvalid hnonneg rounds .refl (IoBuf.pop_zero hvalid).symm hloop).acyclic

theorem Harmless.staysInside {cbs : ClientCallbacks} {cli : TcpClient}
    (hcbs : Returning cbs (LoopCalls cbs cli)) (hvalid : cli.ibuf.Valid)
    (hfront : cli.ibuf.head = 0) (h : Harmless cli.ibuf.pending) : StaysInside cbs cli := by
  have hlen := hvalid.length_eq
  rcases h.acyclic.halts (finite_reaches h.nonneg) with ⟨c, hreach, hend⟩
  refine ⟨parseLoop_ends hvalid h.nonneg hend hreach .refl cli (IoBuf.pop_zero hvalid).symm hcbs,
    ?_⟩
  intro b hb
  rcases reaches_of_atTest hvalid h.nonneg hb with ⟨q, hq, rfl⟩
  have hle := reaches_le hq
  exact (pop_valid_iff hvalid hfront (by omega)).2 (h.nonneg q hq)

/-- The loop ends inside its buffer exactly if the received bytes lead neither in a circle nor to a
negative offset.  The callback is to return from the calls that the loop makes. -/
theorem staysInside_iff (cbs : ClientCallbacks) (cli : TcpClient)
    (hcbs : Returning cbs (LoopCalls cbs cli)) (hvalid : cli.ibuf.Valid)
    (hfront : cli.ibuf.head = 0) : StaysInside cbs cli ↔ Harmless cli.ibuf.pending :=
  ⟨StaysInside.harmless hvalid hfront, Harmless.staysInside hcbs hvalid hfront⟩

/-! ## Lengths that are harmless -/

/-- A length of at least -7 leads forward. -/
theorem nextOffset_gt {xs : List UInt8} {q q' : Int} (hlen : -7 ≤ lengthAt xs q)
    (h : q' ∈ nextOffset xs q) : q < q' := by
  have hhead : (messageHeadLen : Int) = 8 := rfl
  unfold nextOffset at h
  split_ifs at h
  · cases h
    split_ifs <;> omega
  · cases h

/-- Bytes in which no head announces less than -7 are harmless. -/
theorem harmless_of_lengths {xs : List UInt8}
    (hlens : ∀ q : Int, 0 ≤ q → q + messageHeadLen ≤ xs.length → -7 ≤ lengthAt xs q) :
    Harmless xs := by
  have hup : ∀ {q q' : Int}, q' ∈ nextOffset xs q → q < q' := by
    intro q q' hstep
    refine nextOffset_gt ?_ hstep
    unfold nextOffset at hstep
    split_ifs at hstep with hhead
    · exact hlens q hhead.1 hhead.2
    · cases hstep
  have hpath : ∀ {q q' : Int}, Reaches₁ (nextOffset xs) q q' → q < q' := by
    intro q q' hreach
    induction hreach with
    | single hstep => exact hup hstep
    | tail _ hstep ih => exact ih.trans (hup hstep)
  refine ⟨?_, fun q _ hcycle => lt_irrefl q (hpath hcycle)⟩
  intro q hq
  rcases reflTransGen_iff_eq_or_transGen.1 hq with rfl | hreach
  · exact le_refl _
  · exact (hpath hreach).le

/-- A connected client whose `_ibuf` holds these bytes. -/
def receiving (xs : List UInt8) : TcpClient :=
  { new with
    ibuf := { IoBuf.new 4194304 with length := xs.length, data := fun i => xs.getD i.toNat 0 }
    connected := true
    sockfd := 3 }

/-- A message with a body of two bytes. -/
theorem staysInside_iff_two :
    StaysInside ClientCallbacks.none (receiving (Message.of 1 [7, 8]).encode) := by
  refine (staysInside_iff ClientCallbacks.none _ (returning_none _)
    ⟨by decide, by decide, by decide⟩ rfl).2 (harmless_of_lengths ?_)
  intro q h₀ hq
  have hlen : ((receiving (Message.of 1 [7, 8]).encode).ibuf.pending.length : Int) = 10 := rfl
  have hhead : (messageHeadLen : Int) = 8 := rfl
  rcases (by omega : q = 0 ∨ q = 1 ∨ q = 2) with rfl | rfl | rfl <;> decide

/-- A head that announces -8 bytes: the second `pop` undoes the first. -/
theorem staysInside_circles :
    ¬ ∀ (cbs : ClientCallbacks) (cli : TcpClient), Returning cbs (LoopCalls cbs cli) →
      cli.ibuf.Valid → cli.ibuf.head = 0 → StaysInside cbs cli := by
  intro hall
  have hvalid : (receiving [1, 0, 0, 0, 248, 255, 255, 255]).ibuf.Valid :=
    ⟨by decide, by decide, by decide⟩
  have hharmless :=
    (hall ClientCallbacks.none _ (returning_none _) hvalid rfl).harmless hvalid rfl
  have hcircle : 0 ∈ nextOffset (receiving [1, 0, 0, 0, 248, 255, 255, 255]).ibuf.pending 0 := by
    decide
  exact hharmless.acyclic 0 .refl (.single hcircle)

end TcpClient
end Reactor
end Rins
