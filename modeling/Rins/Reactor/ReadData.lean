import Rins.Reactor.ReactorBuf

/-!
# ReadData — the two system calls of `read_data`

`read_data` asks `FIONREAD` how much there is, makes room for it and reads.  If nothing was reported
it makes no room and reads up to 4096 bytes: what arrives between the two calls goes wherever the
window of the block ends.  The kernel's two answers are arguments, so that anything may arrive.
-/

namespace Rins
namespace Reactor

open Lib

/-- What the `EINTR` loop around `read` ends with: `none` is -1. -/
def SysRead.ret : SysRead → Option (List UInt8)
  | .eintr retry => retry.ret
  | .error => none
  | .bytes bs => some bs

namespace InputBuf

open ReactorBuf

/-- `FIONREAD` has reported `n`, a C `int`, and `read` keeps to it: all of the `n` bytes, or if
there are none, up to 4096 that have arrived since. -/
structure Answers (n : Int) (read : SysRead) : Prop where
  nonneg : 0 ≤ n
  isInt : n < 2147483648
  reported : 0 < n → ∀ bs, read.ret = some bs → bs.length = n
  unreported : n = 0 → ∀ bs, read.ret = some bs → bs.length ≤ 4096

/-- `read_data` stays inside its blocks, its assertions hold, and it adds to the bytes that are
there. -/
structure ReadsSafely (p : BufPool) (buf : ReactorBuf) (n : Int) (read : SysRead) : Prop where
  inside : readData p buf { fionread := some n, read := read } ≠ .error .outOfBounds
  asserted : readData p buf { fionread := some n, read := read } ≠ .error .assertFailed
  keeps : ∀ ret p' buf', readData p buf { fionread := some n, read := read } =
    .ok (ret, p', buf') → buf'.Resting ∧ buf.content <+: buf'.content

/-- There is no block yet; or what `read` delivers unreported has place behind the window, and the
size of a larger block is a C `int` (otherwise 4096 bytes are asked for, and all depends on the
window being that small and `read` failing, or on the pool having none). -/
def HasPlace (p : BufPool) (buf : ReactorBuf) (n : Int) (read : SysRead) : Prop :=
  ∀ b, buf = some b →
    (n = 0 → ∀ bs, read.ret = some bs → b.length + bs.length ≤ b.capacity) ∧
    (2147483648 ≤ n + b.length →
      (b.length ≤ 4096 ∧ read.ret = none) ∨ p.Exhausted (cInt (n + b.length)))

/-! ## Reading into a block -/

theorem readInto_eq (b : PoolBuf) (n : Int) (read : SysRead) :
    readInto b n read =
      match read.ret with
      | none => .ok (-1, b)
      | some bs => readInto b n (.bytes bs) := by
  induction read with
  | eintr retry ih => exact ih
  | error => rfl
  | bytes bs => rfl

/-- What `read` delivers is within the limit that it is given. -/
theorem Answers.take_limit {n : Int} {read : SysRead} (h : Answers n read) {bs : List UInt8}
    (hret : read.ret = some bs) :
    bs.take (if n = 0 then MemCap.m4K.size else n).toNat = bs := by
  apply List.take_of_length_le
  by_cases hn : n = 0
  · have hle := h.unreported hn bs hret
    simp only [hn, if_true, MemCap.size]
    omega
  · have hlen := h.reported (by have := h.nonneg; omega) bs hret
    simp only [hn, if_false]
    omega

/-- What is delivered has place: it is appended. -/
theorem readInto_room {b : PoolBuf} (hb : b.Sound) (hhead : b.head = 0) {n : Int} {read : SysRead}
    (h : Answers n read)
    (hroom : ∀ bs, read.ret = some bs → b.length + bs.length ≤ b.capacity) :
    ∃ ret b', readInto b n read = .ok (ret, b') ∧ b'.Sound ∧ b'.head = 0 ∧
      b.pending <+: b'.pending := by
  rw [readInto_eq]
  cases hret : read.ret with
  | none => exact ⟨-1, b, rfl, hb, hhead, List.prefix_rfl⟩
  | some bs =>
      simp only [readInto, h.take_limit hret]
      by_cases hnil : bs = []
      · rw [if_pos hnil]
        exact ⟨0, b, rfl, hb, hhead, List.prefix_rfl⟩
      · rcases IoBuf.append_spec hb.valid hhead (hroom bs hret) with
          ⟨filled, happ, hvalid, hzero, hpend, hcap⟩
        have hassert : n ≠ 0 → assert (decide ((bs.length : Int) = n)) = .ok () := by
          intro hn
          have hlen := h.reported (by have := h.nonneg; omega) bs hret
          simp [hlen]
        refine ⟨bs.length, { b with toIoBuf := filled }, ?_, ⟨hvalid, ?_⟩, hzero, ?_⟩
        · rw [if_neg hnil, happ]
          by_cases hn : n = 0
          · simp [hn]
          · simp [hn, hassert hn]
        · simpa [hcap] using hb.fromPool
        · rw [hpend]
          exact List.prefix_append _ _

/-- It has no place: it is written past the end of the block. -/
theorem readInto_overflow {b : PoolBuf} (hb : b.Sound) {n : Int} {read : SysRead}
    (h : Answers n read) {bs : List UInt8} (hret : read.ret = some bs)
    (hover : b.capacity < b.length + bs.length) : readInto b n read = .error .outOfBounds := by
  have hnil : bs ≠ [] := by
    rintro rfl
    have hfits := hb.valid.fits
    have hhead := hb.valid.head_nonneg
    simp only [List.length_nil] at hover
    omega
  have happ : b.toIoBuf.append bs = .error .outOfBounds := by
    have hno : ¬ b.length + bs.length ≤ b.capacity := by omega
    simp [IoBuf.append, IoBuf.store, hno]
  rw [readInto_eq, hret]
  simp only [readInto, h.take_limit hret]
  rw [if_neg hnil, happ]
  rfl

/-! ## `read_data` -/

theorem ReadsSafely.of_exited {p : BufPool} {buf : ReactorBuf} {n : Int} {read : SysRead}
    (h : readData p buf { fionread := some n, read := read } = .error .exited) :
    ReadsSafely p buf n read := by
  refine ⟨?_, ?_, ?_⟩
  · simp [h]
  · simp [h]
  · intro ret p' buf' hok
    rw [h] at hok
    cases hok

theorem ReadsSafely.of_ok {p p' : BufPool} {buf buf' : ReactorBuf} {n ret : Int} {read : SysRead}
    (h : readData p buf { fionread := some n, read := read } = .ok (ret, p', buf'))
    (hrest : buf'.Resting) (hkept : buf.content <+: buf'.content) :
    ReadsSafely p buf n read := by
  refine ⟨?_, ?_, ?_⟩
  · simp [h]
  · simp [h]
  · intro ret' p'' buf'' hok
    rw [h] at hok
    cases hok
    exact ⟨hrest, hkept⟩

/-- Where there is no block, one is taken that holds what is read. -/
theorem readsSafely_none {p : BufPool} (hp : p.Clean) {n : Int} {read : SysRead}
    (h : Answers n read) : ReadsSafely p none n read := by
  by_cases hsize : n ≤ MemCap.m8M.size
  · rcases BufPool.allocBuf_cases hp hsize with
      ⟨_, hexit⟩ | ⟨p', b, c, _, halloc, hc, hcap, hlen, hhead, _⟩
    · exact .of_exited (by simp [readData, readAlloc, makeRoom, hexit])
    · have hle : n ≤ c.size := (MemCap.forRequest_spec hc).1
      have hmin : 4096 ≤ c.size := c.m4K_le_size
      have hroom : ∀ bs, read.ret = some bs → b.length + bs.length ≤ b.capacity := by
        intro bs hret
        rcases h.nonneg.eq_or_lt' with hn | hn
        · have hlimit := h.unreported hn bs hret
          omega
        · have hall := h.reported hn bs hret
          omega
      rcases readInto_room (PoolBuf.sound_of_empty hcap hlen hhead) hhead h hroom with
        ⟨ret, b', hread, hsound, hzero, _⟩
      have hdata : readData p none { fionread := some n, read := read } =
          .ok (ret, p', some b') := by
        simp [readData, readAlloc, makeRoom, halloc, hread]
      exact .of_ok hdata (resting_some.2 ⟨hsound, hzero⟩) List.nil_prefix
  · have hnone : p.allocBuf n = .ok (p, none) :=
      BufPool.allocBuf_none.2 ⟨by omega, rfl⟩
    have hdata : readData p none { fionread := some n, read := read } = .ok (-1, p, none) := by
      simp [readData, readAlloc, makeRoom, hnone]
    exact .of_ok hdata resting_none List.prefix_rfl

/-- The block in use has room for what was reported. -/
theorem readsSafely_ready {p : BufPool} {b : PoolBuf} (hb : b.Sound) (hhead : b.head = 0) {n : Int}
    {read : SysRead} (h : Answers n read) (hfree : n ≤ b.capacity - b.length) :
    ReadsSafely p (some b) n read ↔
      (n = 0 → ∀ bs, read.ret = some bs → b.length + bs.length ≤ b.capacity) := by
  have hfew : ¬ b.capacity - b.length < n := by omega
  constructor
  · intro hsafe hn bs hret
    by_contra hover
    have hbad := readInto_overflow hb h hret (by omega)
    apply hsafe.inside
    simp [readData, readAlloc, makeRoom, hhead, hfew, hbad]
  · intro hplace
    have hroom : ∀ bs, read.ret = some bs → b.length + bs.length ≤ b.capacity := by
      intro bs hret
      rcases h.nonneg.eq_or_lt' with hn | hn
      · exact hplace hn bs hret
      · have hall := h.reported hn bs hret
        omega
    rcases readInto_room hb hhead h hroom with ⟨ret, b', hread, hsound, hzero, hkept⟩
    have hdata : readData p (some b) { fionread := some n, read := read } =
        .ok (ret, p, some b') := by
      simp [readData, readAlloc, makeRoom, hhead, hfew, hread]
    exact .of_ok hdata (resting_some.2 ⟨hsound, hzero⟩) hkept

/-- A larger block is taken, and it holds both. -/
theorem readsSafely_moving {p : BufPool} (hp : p.Clean) {b : PoolBuf} (hb : b.Sound)
    (hhead : b.head = 0) {n : Int} {read : SysRead} (h : Answers n read)
    (hfew : b.capacity - b.length < n) (hint : n + b.length < 2147483648) :
    ReadsSafely p (some b) n read := by
  have hlen := hb.valid.length_nonneg
  have hfits := hb.valid.fits
  have hsum : cInt (n + b.length) = n + b.length := cInt_eq (by omega) hint
  by_cases hsize : n + b.length ≤ MemCap.m8M.size
  · rcases BufPool.allocBuf_cases hp hsize with
      ⟨_, hexit⟩ | ⟨p₁, new, c, _, halloc, hc, hcap, _, _, hclean⟩
    · exact .of_exited (by simp [readData, readAlloc, makeRoom, hhead, hfew, hsum, hexit])
    · have hle : n + b.length ≤ c.size := (MemCap.forRequest_spec hc).1
      rcases replace_spec hclean hb hhead ⟨c, hcap⟩ (by omega) with
        ⟨p₂, b₂, hrep, _, hsound₂, hhead₂, hpend₂, hcap₂⟩
      have hlen₂ : b₂.length = b.length := by
        rw [hsound₂.valid.length_eq, hpend₂, ← hb.valid.length_eq]
      have hroom : ∀ bs, read.ret = some bs → b₂.length + bs.length ≤ b₂.capacity := by
        intro bs hret
        have hall := h.reported (by omega) bs hret
        omega
      rcases readInto_room hsound₂ hhead₂ h hroom with ⟨ret, b', hread, hsound, hzero, hkept⟩
      have hdata : readData p (some b) { fionread := some n, read := read } =
          .ok (ret, p₂, some b') := by
        simp [readData, readAlloc, makeRoom, hhead, hfew, hsum, halloc, hrep, hread]
      refine .of_ok hdata (resting_some.2 ⟨hsound, hzero⟩) ?_
      rw [hpend₂] at hkept
      exact hkept
  · have hnone : p.allocBuf (n + b.length) = .ok (p, none) :=
      BufPool.allocBuf_none.2 ⟨by omega, rfl⟩
    have hdata : readData p (some b) { fionread := some n, read := read } =
        .ok (-1, p, some b) := by
      simp [readData, readAlloc, makeRoom, hhead, hfew, hsum, hnone]
    exact .of_ok hdata (resting_some.2 ⟨hb, hhead⟩) List.prefix_rfl

/-- The size wraps around, and a block of 4096 bytes is taken for more than that. -/
theorem readsSafely_wrapped {p : BufPool} (hp : p.Clean) {b : PoolBuf} (hb : b.Sound)
    (hhead : b.head = 0) {n : Int} {read : SysRead} (h : Answers n read)
    (hfew : b.capacity - b.length < n) (hwrap : 2147483648 ≤ n + b.length) :
    ReadsSafely p (some b) n read ↔
      ((b.length ≤ 4096 ∧ read.ret = none) ∨ p.Exhausted (cInt (n + b.length))) := by
  have hint := h.isInt
  have hlong : b.capacity ≤ 8388608 := hb.capacity_le
  have hfits := hb.valid.fits
  have hneg : cInt (n + b.length) ≤ 0 := by
    unfold cInt
    rw [Int.bmod_def]
    split <;> omega
  have hsmall : cInt (n + b.length) ≤ MemCap.m4K.size := hneg.trans (by decide)
  have hclass : MemCap.forRequest (cInt (n + b.length)) = some .m4K := if_pos hsmall
  rcases BufPool.allocBuf_cases hp (hsmall.trans (by decide)) with
    ⟨hfull, hexit⟩ | ⟨p₁, new, c, hmore, halloc, hc, hcap, _, _, hclean⟩
  · refine iff_of_true (.of_exited ?_) (Or.inr hfull)
    simp [readData, readAlloc, makeRoom, hhead, hfew, hexit]
  · rw [hclass] at hc
    cases hc
    simp only [MemCap.size] at hcap
    by_cases hlen : b.length ≤ 4096
    · -- the bytes that are there move, the new ones have no place
      rcases replace_spec hclean hb hhead ⟨.m4K, hcap⟩ (by omega) with
        ⟨p₂, b₂, hrep, _, hsound₂, hhead₂, hpend₂, hcap₂⟩
      have hlen₂ : b₂.length = b.length := by
        rw [hsound₂.valid.length_eq, hpend₂, ← hb.valid.length_eq]
      cases hret : read.ret with
      | none =>
          have hread : readInto b₂ n read = .ok (-1, b₂) := by rw [readInto_eq, hret]
          have hdata : readData p (some b) { fionread := some n, read := read } =
              .ok (-1, p₂, some b₂) := by
            simp [readData, readAlloc, makeRoom, hhead, hfew, halloc, hrep, hread]
          refine iff_of_true (.of_ok hdata (resting_some.2 ⟨hsound₂, hhead₂⟩) ?_)
            (Or.inl ⟨hlen, rfl⟩)
          simp [hpend₂]
      | some bs =>
          have hall := h.reported (by omega) bs hret
          have hread := readInto_overflow hsound₂ h hret (by omega)
          refine iff_of_false (fun hsafe => hsafe.inside ?_) ?_
          · simp [readData, readAlloc, makeRoom, hhead, hfew, halloc, hrep, hread]
          · rintro (⟨_, hno⟩ | hfull)
            · cases hno
            · exact hmore hfull
    · -- even the bytes that are there have no place
      have hrep : replace p₁ b new = .error .outOfBounds := by
        simp [replace, IoBuf.copy_overflow hb.valid (by omega : new.capacity < b.length)]
      refine iff_of_false (fun hsafe => hsafe.inside ?_) ?_
      · simp [readData, readAlloc, makeRoom, hhead, hfew, halloc, hrep]
      · rintro (⟨hle, _⟩ | hfull)
        · exact hlen hle
        · exact hmore hfull

/-- `read_data` keeps to its block exactly if what it reads has place there. -/
theorem readsSafely_iff (p : BufPool) (hp : p.Clean) (buf : ReactorBuf) (hbuf : buf.Resting)
    (n : Int) (read : SysRead) (h : Answers n read) :
    ReadsSafely p buf n read ↔ HasPlace p buf n read := by
  cases buf with
  | none =>
      refine iff_of_true (readsSafely_none hp h) ?_
      intro b hb
      cases hb
  | some b =>
      rcases resting_some.1 hbuf with ⟨hb, hhead⟩
      have hplace : HasPlace p (some b) n read ↔
          (n = 0 → ∀ bs, read.ret = some bs → b.length + bs.length ≤ b.capacity) ∧
          (2147483648 ≤ n + b.length →
            (b.length ≤ 4096 ∧ read.ret = none) ∨ p.Exhausted (cInt (n + b.length))) := by
        simp [HasPlace]
      rw [hplace]
      have hfits := hb.valid.fits
      have hcap : b.capacity ≤ 8388608 := hb.capacity_le
      by_cases hfew : b.capacity - b.length < n
      · have hn : n ≠ 0 := by omega
        by_cases hwrap : 2147483648 ≤ n + b.length
        · rw [readsSafely_wrapped hp hb hhead h hfew hwrap]
          simp [hn, hwrap]
        · refine iff_of_true (readsSafely_moving hp hb hhead h hfew (by omega)) ?_
          simp [hn, hwrap]
      · have hnot : ¬ 2147483648 ≤ n + b.length := by omega
        rw [readsSafely_ready hb hhead h (by omega)]
        simp [hnot]

/-- A block of 4096 bytes of which 100 are taken. -/
def partBlock : PoolBuf :=
  { IoBuf.new 4096 with length := 100, addr := 0 }

theorem partBlock_resting : Resting (some partBlock) :=
  resting_some.2 ⟨⟨⟨by decide, by decide, by decide⟩, .m4K, rfl⟩, rfl⟩

/-- Nothing was reported, and `k` bytes have arrived since. -/
theorem answers_late {k : Nat} (hk : k ≤ 4096) : Answers 0 (.bytes (List.replicate k 0)) where
  nonneg := le_rfl
  isInt := by decide
  reported := by simp
  unreported := by
    intro _ bs hbs
    cases hbs
    simpa using hk

theorem readsSafely_iff_filled :
    ReadsSafely BufPool.init (some partBlock) 0 (.bytes (List.replicate 3996 0)) := by
  refine (readsSafely_iff BufPool.init BufPool.init_clean (some partBlock) partBlock_resting 0
    (.bytes (List.replicate 3996 0)) (answers_late (by decide))).2 ?_
  intro b hb
  cases hb
  refine ⟨fun _ bs hbs => ?_, fun hwrap => absurd hwrap (by decide)⟩
  cases hbs
  rw [List.length_replicate]
  decide

/-- With 100 bytes in the block, 4096 more are read into it. -/
theorem readsSafely_overfills :
    ¬ ∀ (p : BufPool) (buf : ReactorBuf) (n : Int) (read : SysRead), p.Clean → buf.Resting →
      Answers n read → ReadsSafely p buf n read := by
  intro hall
  have hanswers := answers_late (le_refl 4096)
  have hsafe := hall BufPool.init (some partBlock) 0 _ BufPool.init_clean partBlock_resting hanswers
  rcases resting_some.1 partBlock_resting with ⟨hb, hhead⟩
  have hplace := (readsSafely_ready hb hhead hanswers (by decide)).1 hsafe rfl _ rfl
  rw [List.length_replicate] at hplace
  exact absurd hplace (by decide)

end InputBuf
end Reactor
end Rins
