import Mathlib.Data.Finset.Basic
import Mathlib.Logic.Function.Basic
import Mathlib.Logic.Relation
import Rins.Lib.Run

/-!
# TwoPhase — calls that take all their locks before they give one back

The shared state is split over the locks: each component is read and written under its own lock.  A
thread runs the code of one call after the other, an instruction at a time, and the threads
interleave between any two instructions.

If every call takes all its locks before it gives one back, then whole calls can be thought of as
one step each: the shared state is the one that the calls leave behind when they are made one after
the other, in the order in which they got hold of their last lock.
-/

namespace Rins
namespace Lib

/-- What a thread does next, from where it stands in its code. -/
inductive Instr (κ : Type) (σ : κ → Type) (ℓ ρ : Type)
  | lock (k : κ) (loc : ℓ)
  /-- reads and writes what the lock protects -/
  | access (k : κ) (f : σ k → σ k × ℓ)
  | unlock (k : κ) (loc : ℓ)
  | ret (r : ρ)
  /-- never goes on: an assertion fails, or the behaviour is undefined -/
  | halt

/-- The code of the calls `γ`, with the local states `ℓ`. -/
structure Program (κ : Type) (σ : κ → Type) (ℓ γ ρ : Type) where
  start : γ → ℓ
  code : ℓ → Instr κ σ ℓ ρ
  /-- the locks that are held here -/
  held : ℓ → Finset κ
  /-- no lock is taken from here on -/
  past : ℓ → Bool

namespace Program

variable {κ : Type} [DecidableEq κ] {σ : κ → Type} {ℓ γ ρ : Type} (prog : Program κ σ ℓ γ ρ)

/-! ## A call on its own -/

/-- One instruction of a thread that is alone. -/
def alone (p : ℓ × ∀ k, σ k) : Option (ℓ × ∀ k, σ k) :=
  match prog.code p.1 with
  | .lock _ loc => some (loc, p.2)
  | .access k f => some ((f (p.2 k)).2, Function.update p.2 k (f (p.2 k)).1)
  | .unlock _ loc => some (loc, p.2)
  | .ret _ => none
  | .halt => none

/-- Some number of instructions of a thread that is alone. -/
def Steps : ℓ × (∀ k, σ k) → ℓ × (∀ k, σ k) → Prop :=
  Relation.ReflTransGen fun p q => prog.alone p = some q

/-- A thread that is alone gets from here to the end of its call, which returns the result. -/
def Ends (l : ℓ) (s t : ∀ k, σ k) (r : ρ) : Prop :=
  ∃ loc, prog.Steps (l, s) (loc, t) ∧ prog.code loc = .ret r

/-- The call, made on its own, turns the one state into the other and returns the result. -/
def Does (g : γ) (s t : ∀ k, σ k) (r : ρ) : Prop :=
  prog.Ends (prog.start g) s t r

/-- The calls of the list are made one after the other, with the given results. -/
def Serial {τ : Type} : (∀ k, σ k) → List (τ × γ × ρ) → (∀ k, σ k) → Prop
  | s, [], t => t = s
  | s, c :: cs, t => ∃ m, prog.Does c.2.1 s m c.2.2 ∧ Serial m cs t

section Alone

variable {prog}

theorem ends_next {l l' : ℓ} {s s' t : ∀ k, σ k} {r : ρ}
    (hstep : prog.alone (l, s) = some (l', s')) : prog.Ends l s t r ↔ prog.Ends l' s' t r := by
  constructor
  · rintro ⟨loc, hsteps, hret⟩
    rcases Relation.ReflTransGen.cases_head hsteps with heq | ⟨q, hq, hrest⟩
    · cases heq
      simp [alone, hret] at hstep
    · rw [hstep] at hq
      cases hq
      exact ⟨loc, hrest, hret⟩
  · rintro ⟨loc, hsteps, hret⟩
    exact ⟨loc, .head hstep hsteps, hret⟩

theorem ends_lock {l loc : ℓ} {k : κ} {s t : ∀ k, σ k} {r : ρ}
    (hcode : prog.code l = .lock k loc) : prog.Ends l s t r ↔ prog.Ends loc s t r := by
  apply ends_next
  simp only [alone, hcode]

theorem ends_unlock {l loc : ℓ} {k : κ} {s t : ∀ k, σ k} {r : ρ}
    (hcode : prog.code l = .unlock k loc) : prog.Ends l s t r ↔ prog.Ends loc s t r := by
  apply ends_next
  simp only [alone, hcode]

theorem ends_ret {l : ℓ} {s t : ∀ k, σ k} {r r' : ρ} (hcode : prog.code l = .ret r') :
    prog.Ends l s t r ↔ t = s ∧ r = r' := by
  constructor
  · rintro ⟨loc, hsteps, hret⟩
    rcases Relation.ReflTransGen.cases_head hsteps with heq | ⟨q, hq, -⟩
    · cases heq
      rw [hcode] at hret
      cases hret
      exact ⟨rfl, rfl⟩
    · simp [alone, hcode] at hq
  · rintro ⟨rfl, rfl⟩
    exact ⟨l, .refl, hcode⟩

theorem not_ends_halt {l : ℓ} {s t : ∀ k, σ k} {r : ρ} (hcode : prog.code l = .halt) :
    ¬ prog.Ends l s t r := by
  rintro ⟨loc, hsteps, hret⟩
  rcases Relation.ReflTransGen.cases_head hsteps with heq | ⟨q, hq, -⟩
  · cases heq
    rw [hcode] at hret
    cases hret
  · simp [alone, hcode] at hq

/-- The rest of the way has the same end. -/
theorem Ends.of_steps {l : ℓ} {s t : ∀ k, σ k} {r : ρ} (h : prog.Ends l s t r)
    {p : ℓ × ∀ k, σ k} (hsteps : prog.Steps (l, s) p) : prog.Ends p.1 p.2 t r := by
  induction hsteps with
  | refl => exact h
  | tail _ hstep ih => exact (ends_next hstep).1 ih

/-- A call made on its own has one outcome. -/
theorem Does.unique {g : γ} {s t t' : ∀ k, σ k} {r r' : ρ} (h : prog.Does g s t r)
    (h' : prog.Does g s t' r') : t = t' ∧ r = r' := by
  rcases h' with ⟨l, hsteps, hret⟩
  exact (ends_ret hret).1 (h.of_steps hsteps)

end Alone

variable {prog} in
theorem Serial.snoc {τ : Type} {cs : List (τ × γ × ρ)} {c : τ × γ × ρ} :
    ∀ {s t u : ∀ k, σ k}, prog.Serial s cs t → prog.Does c.2.1 t u c.2.2 →
      prog.Serial s (cs ++ [c]) u := by
  induction cs with
  | nil =>
      rintro s t u rfl hdoes
      exact ⟨u, hdoes, rfl⟩
  | cons d cs ih =>
      rintro s t u ⟨m, hm, hrest⟩ hdoes
      exact ⟨m, hm, ih hrest hdoes⟩

variable {prog} in
/-- What every call keeps, made on its own, a list of calls keeps. -/
theorem Serial.invariant {τ : Type} {P : (∀ k, σ k) → Prop}
    (hkeep : ∀ g s t r, P s → prog.Does g s t r → P t) {cs : List (τ × γ × ρ)} :
    ∀ {s t : ∀ k, σ k}, P s → prog.Serial s cs t → P t := by
  induction cs with
  | nil =>
      rintro s t hs rfl
      exact hs
  | cons c cs ih =>
      rintro s t hs ⟨m, hm, hrest⟩
      exact ih (hkeep _ _ _ _ hs hm) hrest

/-- Every instruction goes down in the relation. -/
def Descends (lt : ℓ → ℓ → Prop) : Prop :=
  ∀ l l' s s', prog.alone (l, s) = some (l', s') → lt l' l

/-! ## The discipline -/

/-- A lock is taken before the last one is, and given back behind it; an access is covered by the
lock that is held. -/
def Obeys (l : ℓ) : Instr κ σ ℓ ρ → Prop
  | .lock k l' => prog.past l = false ∧ k ∉ prog.held l ∧ prog.held l' = insert k (prog.held l)
  | .access k f => k ∈ prog.held l ∧
      ∀ v, prog.held (f v).2 = prog.held l ∧ (prog.past l = true → prog.past (f v).2 = true)
  | .unlock k l' => k ∈ prog.held l ∧ prog.held l' = (prog.held l).erase k ∧
      prog.past l = true ∧ prog.past l' = true
  | .ret _ => prog.past l = true ∧ prog.held l = ∅
  | .halt => prog.past l = false

/-- All locks of a call are taken before one is given back, and a call that has its locks
returns. -/
structure TwoPhase : Prop where
  start_held : ∀ g, prog.held (prog.start g) = ∅
  start_past : ∀ g, prog.past (prog.start g) = false
  obeys : ∀ l, prog.Obeys l (prog.code l)
  returns : ∀ {l}, prog.past l = true → ∀ s, ∃ t r, prog.Ends l s t r

variable {prog}

/-- Code that obeys and goes down returns. -/
theorem Descends.returns {lt : ℓ → ℓ → Prop} (hdesc : prog.Descends lt) (hwf : WellFounded lt)
    (hobeys : ∀ l, prog.Obeys l (prog.code l)) {l : ℓ} :
    prog.past l = true → ∀ s, ∃ t r, prog.Ends l s t r := by
  induction l using hwf.induction with
  | _ l ih =>
      intro hpast s
      have hl := hobeys l
      have hgoes : ∀ l' s', prog.alone (l, s) = some (l', s') → prog.past l' = true →
          ∃ t r, prog.Ends l s t r := by
        intro l' s' hstep hpast'
        rcases ih l' (hdesc l l' s s' hstep) hpast' s' with ⟨t, r, hends⟩
        exact ⟨t, r, (ends_next hstep).2 hends⟩
      cases hcode : prog.code l with
      | lock k l' =>
          rw [hcode] at hl
          exact absurd hpast (by simp [hl.1])
      | access k f =>
          rw [hcode] at hl
          exact hgoes _ _ (by simp only [alone, hcode]; rfl) ((hl.2 _).2 hpast)
      | unlock k l' =>
          rw [hcode] at hl
          exact hgoes l' s (by simp only [alone, hcode]) hl.2.2.2
      | ret r => exact ⟨s, r, (ends_ret hcode).2 ⟨rfl, rfl⟩⟩
      | halt =>
          rw [hcode] at hl
          exact absurd hpast (by simp [show prog.past l = false from hl])

theorem TwoPhase.lock (h : prog.TwoPhase) {l l' : ℓ} {k : κ} (hcode : prog.code l = .lock k l') :
    prog.past l = false ∧ k ∉ prog.held l ∧ prog.held l' = insert k (prog.held l) := by
  have hl := h.obeys l
  rwa [hcode] at hl

theorem TwoPhase.access (h : prog.TwoPhase) {l : ℓ} {k : κ} {f : σ k → σ k × ℓ}
    (hcode : prog.code l = .access k f) :
    k ∈ prog.held l ∧
      ∀ v, prog.held (f v).2 = prog.held l ∧ (prog.past l = true → prog.past (f v).2 = true) := by
  have hl := h.obeys l
  rwa [hcode] at hl

theorem TwoPhase.unlock (h : prog.TwoPhase) {l l' : ℓ} {k : κ}
    (hcode : prog.code l = .unlock k l') :
    k ∈ prog.held l ∧ prog.held l' = (prog.held l).erase k ∧
      prog.past l = true ∧ prog.past l' = true := by
  have hl := h.obeys l
  rwa [hcode] at hl

theorem TwoPhase.ret (h : prog.TwoPhase) {l : ℓ} {r : ρ} (hcode : prog.code l = .ret r) :
    prog.past l = true ∧ prog.held l = ∅ := by
  have hl := h.obeys l
  rwa [hcode] at hl

/-- What one instruction does to the phase and to the locks. -/
theorem TwoPhase.alone_phase (h : prog.TwoPhase) {l l' : ℓ} {s s' : ∀ k, σ k}
    (hstep : prog.alone (l, s) = some (l', s')) :
    (prog.past l = false → prog.held l ⊆ prog.held l') ∧
      (prog.past l = true → prog.past l' = true ∧ prog.held l' ⊆ prog.held l) := by
  unfold alone at hstep
  cases hcode : prog.code l with
  | lock k loc =>
      rcases h.lock hcode with ⟨hpast, -, hheld⟩
      simp only [hcode, Option.some.injEq, Prod.mk.injEq] at hstep
      rcases hstep with ⟨rfl, rfl⟩
      exact ⟨fun _ => hheld ▸ Finset.subset_insert _ _, fun hp => absurd hp (by simp [hpast])⟩
  | access k f =>
      rcases h.access hcode with ⟨-, hkeep⟩
      simp only [hcode, Option.some.injEq, Prod.mk.injEq] at hstep
      rcases hstep with ⟨rfl, rfl⟩
      exact ⟨fun _ => (hkeep _).1.ge, fun hp => ⟨(hkeep _).2 hp, (hkeep _).1.le⟩⟩
  | unlock k loc =>
      rcases h.unlock hcode with ⟨-, hheld, hpast, hpast'⟩
      simp only [hcode, Option.some.injEq, Prod.mk.injEq] at hstep
      rcases hstep with ⟨rfl, rfl⟩
      exact ⟨fun hp => absurd hp (by simp [hpast]),
        fun _ => ⟨hpast', hheld ▸ Finset.erase_subset _ _⟩⟩
  | ret r => simp [hcode] at hstep
  | halt => simp [hcode] at hstep

/-- One instruction changes only what is locked before and after it. -/
theorem TwoPhase.alone_off (h : prog.TwoPhase) {l l' : ℓ} {s s' : ∀ k, σ k}
    (hstep : prog.alone (l, s) = some (l', s')) {k : κ}
    (hk : k ∉ prog.held l ∨ k ∉ prog.held l') : s' k = s k := by
  unfold alone at hstep
  cases hcode : prog.code l with
  | lock k' loc =>
      simp only [hcode, Option.some.injEq, Prod.mk.injEq] at hstep
      rw [hstep.2]
  | access k' f =>
      rcases h.access hcode with ⟨hmem, hkeep⟩
      simp only [hcode, Option.some.injEq, Prod.mk.injEq] at hstep
      rcases hstep with ⟨rfl, rfl⟩
      have hne : k ≠ k' := by
        rintro rfl
        rw [(hkeep _).1] at hk
        exact hk.elim (fun hk => hk hmem) (fun hk => hk hmem)
      exact Function.update_of_ne hne _ _
  | unlock k' loc =>
      simp only [hcode, Option.some.injEq, Prod.mk.injEq] at hstep
      rw [hstep.2]
  | ret r => simp [hcode] at hstep
  | halt => simp [hcode] at hstep

/-- One instruction sees only what is locked. -/
theorem TwoPhase.alone_local (h : prog.TwoPhase) {l l' : ℓ} {s s' t : ∀ k, σ k}
    (hstep : prog.alone (l, s) = some (l', s')) (hagree : ∀ k ∈ prog.held l, t k = s k) :
    ∃ t', prog.alone (l, t) = some (l', t') ∧ ∀ k ∈ prog.held l, t' k = s' k := by
  unfold alone at hstep ⊢
  cases hcode : prog.code l with
  | lock k loc =>
      simp only [hcode, Option.some.injEq, Prod.mk.injEq] at hstep ⊢
      rcases hstep with ⟨rfl, rfl⟩
      exact ⟨t, ⟨rfl, rfl⟩, hagree⟩
  | access k f =>
      rcases h.access hcode with ⟨hmem, -⟩
      simp only [hcode, Option.some.injEq, Prod.mk.injEq] at hstep ⊢
      rcases hstep with ⟨rfl, rfl⟩
      rw [hagree k hmem]
      refine ⟨_, ⟨rfl, rfl⟩, fun k' hk' => ?_⟩
      by_cases hkk : k' = k
      · subst hkk
        simp
      · rw [Function.update_of_ne hkk, Function.update_of_ne hkk]
        exact hagree k' hk'
  | unlock k loc =>
      simp only [hcode, Option.some.injEq, Prod.mk.injEq] at hstep ⊢
      rcases hstep with ⟨rfl, rfl⟩
      exact ⟨t, ⟨rfl, rfl⟩, hagree⟩
  | ret r => simp [hcode] at hstep
  | halt => simp [hcode] at hstep

/-! ## Before the last lock and behind it -/

/-- Up to its last lock a call has only touched what it holds. -/
theorem TwoPhase.growing_off (h : prog.TwoPhase) {p : ℓ × ∀ k, σ k} {l : ℓ} {s : ∀ k, σ k}
    (hsteps : prog.Steps p (l, s)) (hpast : prog.past l = false) {k : κ}
    (hk : k ∉ prog.held l) : s k = p.2 k := by
  generalize hq : (l, s) = q at hsteps
  induction hsteps generalizing l s with
  | refl =>
      cases hq
      rfl
  | @tail m q hm hstep ih =>
      subst hq
      rcases h.alone_phase hstep with ⟨hgrow, hshrink⟩
      have hbefore : prog.past m.1 = false := by
        cases hp : prog.past m.1 with
        | false => rfl
        | true => simp [(hshrink hp).1] at hpast
      rw [h.alone_off hstep (Or.inr hk)]
      exact ih hbefore (fun hin => hk (hgrow hbefore hin)) rfl

/-- Up to its last lock a call does the same from every state that agrees on what it holds. -/
theorem TwoPhase.growing_frame (h : prog.TwoPhase) {l₀ l : ℓ} {a a' s : ∀ k, σ k}
    (hsteps : prog.Steps (l₀, a) (l, s)) (hpast : prog.past l = false)
    (hagree : ∀ k ∈ prog.held l, a' k = a k) :
    ∃ s', prog.Steps (l₀, a') (l, s') ∧ ∀ k ∈ prog.held l, s' k = s k := by
  generalize hq : (l, s) = q at hsteps
  induction hsteps generalizing l s with
  | refl =>
      cases hq
      exact ⟨a', .refl, hagree⟩
  | @tail m q hm hstep ih =>
      subst hq
      rcases h.alone_phase hstep with ⟨hgrow, hshrink⟩
      have hbefore : prog.past m.1 = false := by
        cases hp : prog.past m.1 with
        | false => rfl
        | true => simp [(hshrink hp).1] at hpast
      rcases ih hbefore (fun k hk => hagree k (hgrow hbefore hk)) rfl with ⟨s₁, hs₁, hsame⟩
      rcases h.alone_local hstep hsame with ⟨s', hs', hsame'⟩
      refine ⟨s', hs₁.tail hs', fun k hk => ?_⟩
      by_cases hold : k ∈ prog.held m.1
      · exact hsame' k hold
      · -- a lock that was just taken: nothing has been done under it yet
        calc
          s' k = s₁ k := h.alone_off hs' (Or.inl hold)
          _ = a' k := h.growing_off hs₁ hbefore hold
          _ = a k := hagree k hk
          _ = m.2 k := (h.growing_off hm hbefore hold).symm
          _ = s k := (h.alone_off hstep (Or.inl hold)).symm

/-- Behind its last lock a call only touches what it still holds. -/
theorem TwoPhase.shrinking_off (h : prog.TwoPhase) {p q : ℓ × ∀ k, σ k} (hsteps : prog.Steps p q)
    (hpast : prog.past p.1 = true) {k : κ} (hk : k ∉ prog.held p.1) : q.2 k = p.2 k := by
  induction hsteps using Relation.ReflTransGen.head_induction_on with
  | refl => rfl
  | @head p m hstep hm ih =>
      rcases (h.alone_phase hstep).2 hpast with ⟨hpast', hsub⟩
      rw [ih hpast' (fun hin => hk (hsub hin))]
      exact h.alone_off hstep (Or.inl hk)

/-- Behind its last lock a call does the same from every state that agrees on what it still
holds. -/
theorem TwoPhase.shrinking_frame (h : prog.TwoPhase) {p q : ℓ × ∀ k, σ k}
    (hsteps : prog.Steps p q) (hpast : prog.past p.1 = true) :
    ∀ {t : ∀ k, σ k}, (∀ k ∈ prog.held p.1, t k = p.2 k) →
      ∃ t', prog.Steps (p.1, t) (q.1, t') ∧ ∀ k ∈ prog.held p.1, t' k = q.2 k := by
  induction hsteps using Relation.ReflTransGen.head_induction_on with
  | refl =>
      intro t hagree
      exact ⟨t, .refl, hagree⟩
  | @head p m hstep hm ih =>
      intro t hagree
      rcases (h.alone_phase hstep).2 hpast with ⟨hpast', hsub⟩
      rcases h.alone_local hstep hagree with ⟨t₁, ht₁, hsame⟩
      rcases ih hpast' (fun k hk => hsame k (hsub hk)) with ⟨t', ht', hsame'⟩
      refine ⟨t', .head ht₁ ht', fun k hk => ?_⟩
      by_cases hlater : k ∈ prog.held m.1
      · exact hsame' k hlater
      · -- a lock that was just given back: nothing is done under it any more
        calc
          t' k = t₁ k := h.shrinking_off ht' hpast' hlater
          _ = m.2 k := hsame k hk
          _ = q.2 k := (h.shrinking_off hm hpast' hlater).symm

/-! ## The threads -/

/-- The shared state, the mutexes, and the calls that the threads `τ` are in. -/
structure Machine (κ : Type) (σ : κ → Type) (ℓ γ ρ τ : Type) where
  shared : ∀ k, σ k
  owner : κ → Option τ
  threads : τ → Option (γ × ℓ)
  /-- history: the calls, in the order in which they had all their locks -/
  order : List (τ × γ)
  /-- history: the calls that have returned, with their results -/
  returned : List (τ × γ × ρ)

/-- A thread begins a call, or goes on in the one it is in. -/
inductive Act (τ γ : Type)
  | call (t : τ) (g : γ)
  | go (t : τ)

namespace Machine

variable {τ : Type} [DecidableEq τ]

def init (s : ∀ k, σ k) : Machine κ σ ℓ γ ρ τ :=
  { shared := s
    owner := fun _ => none
    threads := fun _ => none
    order := []
    returned := [] }

variable (prog) in
/-- The thread gets from the one place in its code to the other. -/
def move (m : Machine κ σ ℓ γ ρ τ) (t : τ) (g : γ) (l l' : ℓ) : Machine κ σ ℓ γ ρ τ :=
  { m with
    threads := Function.update m.threads t (some (g, l'))
    order :=
      if prog.past l = false ∧ prog.past l' = true then m.order ++ [(t, g)] else m.order }

variable (prog) in
def goStep (m : Machine κ σ ℓ γ ρ τ) (t : τ) (g : γ) (l : ℓ) : Option (Machine κ σ ℓ γ ρ τ) :=
  match prog.code l with
  | .lock k l' =>
      if m.owner k = none then
        some { m.move prog t g l l' with owner := Function.update m.owner k (some t) }
      else none
  | .access k f =>
      some { m.move prog t g l (f (m.shared k)).2 with
        shared := Function.update m.shared k (f (m.shared k)).1 }
  | .unlock k l' =>
      if m.owner k = some t then
        some { m.move prog t g l l' with owner := Function.update m.owner k none }
      else none
  | .ret r =>
      some { m with
        threads := Function.update m.threads t none
        returned := m.returned ++ [(t, g, r)] }
  | .halt => none

variable (prog) in
def step (m : Machine κ σ ℓ γ ρ τ) : Act τ γ → Option (Machine κ σ ℓ γ ρ τ)
  | .call t g =>
      match m.threads t with
      | none => some { m with threads := Function.update m.threads t (some (g, prog.start g)) }
      | some _ => none
  | .go t => (m.threads t).bind fun p => m.goStep prog t p.1 p.2

variable (prog) in
/-- A mutex is owned by the thread that holds it, in its code. -/
def Owned (m : Machine κ σ ℓ γ ρ τ) : Prop :=
  ∀ k t, m.owner k = some t ↔ ∃ g l, m.threads t = some (g, l) ∧ k ∈ prog.held l

omit [DecidableEq κ] [DecidableEq τ] in
theorem init_owned (s : ∀ k, σ k) : (init s : Machine κ σ ℓ γ ρ τ).Owned prog := by
  intro k t
  simp [init]

omit [DecidableEq κ] [DecidableEq τ] in
/-- No two threads hold the same mutex. -/
theorem Owned.apart {m : Machine κ σ ℓ γ ρ τ} (h : m.Owned prog) {t u : τ} (hne : u ≠ t)
    {g g' : γ} {l l' : ℓ} (ht : m.threads t = some (g, l)) (hu : m.threads u = some (g', l'))
    {k : κ} (hk : k ∈ prog.held l') : k ∉ prog.held l := by
  intro hk'
  have howner := (h k t).2 ⟨g, l, ht, hk'⟩
  rw [(h k u).2 ⟨g', l', hu, hk⟩] at howner
  exact hne (Option.some.inj howner)

/-- What a step of a thread does, other than to return. -/
structure Goes (prog : Program κ σ ℓ γ ρ) (m m' : Machine κ σ ℓ γ ρ τ) (t : τ) (g : γ) (l l' : ℓ) :
    Prop where
  alone : prog.alone (l, m.shared) = some (l', m'.shared)
  free : ∀ k ∈ prog.held l', k ∉ prog.held l → m.owner k = none
  owner : ∀ k, m'.owner k =
    if k ∈ prog.held l' then some t else if k ∈ prog.held l then none else m.owner k
  threads : m'.threads = Function.update m.threads t (some (g, l'))
  order : m'.order =
    if prog.past l = false ∧ prog.past l' = true then m.order ++ [(t, g)] else m.order
  returned : m'.returned = m.returned

theorem goStep_cases (h : prog.TwoPhase) {m m' : Machine κ σ ℓ γ ρ τ} (hown : m.Owned prog)
    {t : τ} {g : γ} {l : ℓ} (hl : m.threads t = some (g, l))
    (hstep : m.goStep prog t g l = some m') :
    (∃ l', Goes prog m m' t g l l') ∨
      ∃ r, prog.code l = .ret r ∧ m' = { m with
        threads := Function.update m.threads t none
        returned := m.returned ++ [(t, g, r)] } := by
  have hmine : ∀ k ∈ prog.held l, m.owner k = some t := fun k hk => (hown k t).2 ⟨g, l, hl, hk⟩
  unfold goStep at hstep
  cases hcode : prog.code l with
  | lock k l' =>
      rcases h.lock hcode with ⟨-, hnew, hheld⟩
      simp only [hcode] at hstep
      split_ifs at hstep with hfree
      cases hstep
      refine Or.inl ⟨l', ?_, fun k' hk' hold => ?_, fun k' => ?_, rfl, rfl, rfl⟩
      · simp only [Program.alone, hcode, move]
      · rw [hheld, Finset.mem_insert] at hk'
        rcases hk' with rfl | hk'
        · exact hfree
        · exact absurd hk' hold
      · simp only [hheld, Finset.mem_insert]
        by_cases hkk : k' = k
        · subst hkk
          simp
        · by_cases hk' : k' ∈ prog.held l
          · simp [hkk, hk', hmine k' hk']
          · simp [hkk, hk']
  | access k f =>
      rcases h.access hcode with ⟨-, hkeep⟩
      simp only [hcode] at hstep
      cases hstep
      refine Or.inl ⟨(f (m.shared k)).2, ?_, fun k' hk' hold => ?_, fun k' => ?_, rfl, rfl, rfl⟩
      · simp only [Program.alone, hcode]
      · exact absurd ((hkeep _).1 ▸ hk') hold
      · rw [(hkeep _).1]
        by_cases hk' : k' ∈ prog.held l
        · simp [hk', move, hmine k' hk']
        · simp [hk', move]
  | unlock k l' =>
      rcases h.unlock hcode with ⟨hmem, hheld, -⟩
      simp only [hcode] at hstep
      split_ifs at hstep with howner
      cases hstep
      refine Or.inl ⟨l', ?_, fun k' hk' hold => ?_, fun k' => ?_, rfl, rfl, rfl⟩
      · simp only [Program.alone, hcode, move]
      · rw [hheld] at hk'
        exact absurd (Finset.mem_of_mem_erase hk') hold
      · rw [hheld]
        by_cases hkk : k' = k
        · subst hkk
          simp [hmem]
        · by_cases hk' : k' ∈ prog.held l
          · simp [hkk, hk', hmine k' hk']
          · simp [hkk, hk']
  | ret r =>
      simp only [hcode] at hstep
      cases hstep
      exact Or.inr ⟨r, rfl, rfl⟩
  | halt => simp [hcode] at hstep

theorem Goes.owned {m m' : Machine κ σ ℓ γ ρ τ} (hown : m.Owned prog) {t : τ} {g : γ} {l l' : ℓ}
    (hl : m.threads t = some (g, l)) (hgo : Goes prog m m' t g l l') : m'.Owned prog := by
  intro k u
  rw [hgo.owner, hgo.threads]
  by_cases hu : u = t
  · subst hu
    have hmine : k ∉ prog.held l → m.owner k ≠ some u := by
      intro hk howner
      rcases (hown k u).1 howner with ⟨g₁, l₁, h₁, hk₁⟩
      rw [hl] at h₁
      cases h₁
      exact hk hk₁
    by_cases hnew : k ∈ prog.held l'
    · simp [hnew]
    · by_cases hold : k ∈ prog.held l
      · simp [hnew, hold]
      · simp [hnew, hold, hmine hold]
  · rw [Function.update_of_ne hu, ← hown k u]
    by_cases hold : k ∈ prog.held l
    · have howner : m.owner k = some t := (hown k t).2 ⟨g, l, hl, hold⟩
      by_cases hnew : k ∈ prog.held l'
      · simp [hnew, howner]
      · simp [hnew, hold, howner, Ne.symm hu]
    · by_cases hnew : k ∈ prog.held l'
      · simp [hnew, hgo.free k hnew hold, Ne.symm hu]
      · simp [hnew, hold]

/-- What is locked by nobody after the step was locked by nobody before it, or was given back. -/
theorem Goes.free_or {m m' : Machine κ σ ℓ γ ρ τ} {t : τ} {g : γ} {l l' : ℓ}
    (hgo : Goes prog m m' t g l l') {k : κ} (hk : m'.owner k = none) :
    k ∉ prog.held l' ∧ (k ∈ prog.held l ∨ m.owner k = none) := by
  rw [hgo.owner] at hk
  split_ifs at hk with hnew hold
  · exact ⟨hnew, Or.inl hold⟩
  · exact ⟨hnew, Or.inr hk⟩

/-! ## The serial order -/

/-- The calls of a thread. -/
def callsOf (t : τ) (cs : List (τ × γ × ρ)) : List (τ × γ × ρ) :=
  cs.filter fun c => c.1 = t

theorem callsOf_snoc_self (t : τ) (cs : List (τ × γ × ρ)) (g : γ) (r : ρ) :
    callsOf t (cs ++ [(t, g, r)]) = callsOf t cs ++ [(t, g, r)] := by
  simp [callsOf]

theorem callsOf_snoc_ne {t u : τ} (hne : u ≠ t) (cs : List (τ × γ × ρ)) (g : γ) (r : ρ) :
    callsOf u (cs ++ [(t, g, r)]) = callsOf u cs := by
  simp [callsOf, Ne.symm hne]

end Machine

/-- What the call holds in `c` is what it has made of `a`. -/
def Before (prog : Program κ σ ℓ γ ρ) (c a : ∀ k, σ k) (g : γ) (l : ℓ) : Prop :=
  prog.past l = false ∧
    ∃ s, prog.Steps (prog.start g, a) (l, s) ∧ ∀ k ∈ prog.held l, s k = c k

/-- What the call holds in `c` is what it will turn into `a`, and it will return `r`. -/
def Behind (prog : Program κ σ ℓ γ ρ) (c a : ∀ k, σ k) (l : ℓ) (r : ρ) : Prop :=
  prog.past l = true ∧ ∃ s, prog.Ends l c s r ∧ ∀ k ∈ prog.held l, s k = a k

theorem Before.frame (h : prog.TwoPhase) {c c' a a' : ∀ k, σ k} {g : γ} {l : ℓ}
    (hb : prog.Before c a g l) (hc : ∀ k ∈ prog.held l, c' k = c k)
    (ha : ∀ k ∈ prog.held l, a' k = a k) : prog.Before c' a' g l := by
  rcases hb with ⟨hpast, s, hsteps, hs⟩
  rcases h.growing_frame hsteps hpast ha with ⟨s', hsteps', hs'⟩
  exact ⟨hpast, s', hsteps', fun k hk => (hs' k hk).trans ((hs k hk).trans (hc k hk).symm)⟩

theorem Behind.frame (h : prog.TwoPhase) {c c' a a' : ∀ k, σ k} {l : ℓ} {r : ρ}
    (hb : prog.Behind c a l r) (hc : ∀ k ∈ prog.held l, c' k = c k)
    (ha : ∀ k ∈ prog.held l, a' k = a k) : prog.Behind c' a' l r := by
  rcases hb with ⟨hpast, s, ⟨l', hsteps, hret⟩, hs⟩
  rcases h.shrinking_frame hsteps hpast hc with ⟨s', hsteps', hs'⟩
  exact ⟨hpast, s', ⟨l', hsteps', hret⟩,
    fun k hk => (hs' k hk).trans ((hs k hk).trans (ha k hk).symm)⟩

/-- A call that goes on and still has a lock to take. -/
theorem Before.next (h : prog.TwoPhase) {c c' a : ∀ k, σ k} {g : γ} {l l' : ℓ}
    (hb : prog.Before c a g l) (hstep : prog.alone (l, c) = some (l', c'))
    (hnew : ∀ k ∈ prog.held l', k ∉ prog.held l → c k = a k) :
    ∃ s', prog.Steps (prog.start g, a) (l', s') ∧ (∀ k ∈ prog.held l', s' k = c' k) ∧
      ∀ k, k ∉ prog.held l' → s' k = a k := by
  rcases hb with ⟨hpast, s, hsteps, hs⟩
  rcases h.alone_local hstep hs with ⟨s', hs', hsame⟩
  refine ⟨s', hsteps.tail hs', fun k hk => ?_, fun k hk => ?_⟩
  · by_cases hold : k ∈ prog.held l
    · exact hsame k hold
    · -- a lock that was just taken
      calc
        s' k = s k := h.alone_off hs' (Or.inl hold)
        _ = a k := h.growing_off hsteps hpast hold
        _ = c k := (hnew k hk hold).symm
        _ = c' k := (h.alone_off hstep (Or.inl hold)).symm
  · rw [h.alone_off hs' (Or.inr hk)]
    exact h.growing_off hsteps hpast fun hin => hk ((h.alone_phase hstep).1 hpast hin)

/-- A call that goes on behind its last lock. -/
theorem Behind.next (h : prog.TwoPhase) {c c' a : ∀ k, σ k} {l l' : ℓ} {r : ρ}
    (hb : prog.Behind c a l r) (hstep : prog.alone (l, c) = some (l', c')) :
    prog.Behind c' a l' r ∧ ∀ k ∈ prog.held l, k ∉ prog.held l' → c' k = a k := by
  rcases hb with ⟨hpast, s, hends, hs⟩
  rcases (h.alone_phase hstep).2 hpast with ⟨hpast', hsub⟩
  have hrest := (ends_next hstep).1 hends
  refine ⟨⟨hpast', s, hrest, fun k hk => hs k (hsub hk)⟩, fun k hk hgone => ?_⟩
  rcases hrest with ⟨lr, hsteps, -⟩
  rw [← hs k hk]
  exact (h.shrinking_off hsteps hpast' hgone).symm

namespace Machine

variable {τ : Type} [DecidableEq τ]

/-- A thread inside a call: before its last lock the call is not in the order, behind it it is. -/
def Inside (prog : Program κ σ ℓ γ ρ) (m : Machine κ σ ℓ γ ρ τ) (done : List (τ × γ × ρ))
    (a : ∀ k, σ k) (t : τ) (g : γ) (l : ℓ) : Prop :=
  (prog.Before m.shared a g l ∧ callsOf t done = callsOf t m.returned) ∨
    ∃ r, prog.Behind m.shared a l r ∧ callsOf t done = callsOf t m.returned ++ [(t, g, r)]

/-- The calls that had all their locks, made one after the other from `s₀`, give `a`; what is locked
by nobody is as in `a`. -/
structure Inv (prog : Program κ σ ℓ γ ρ) (s₀ : ∀ k, σ k) (m : Machine κ σ ℓ γ ρ τ)
    (done : List (τ × γ × ρ)) (a : ∀ k, σ k) : Prop where
  serial : prog.Serial s₀ done a
  order : done.map (fun c => (c.1, c.2.1)) = m.order
  owned : m.Owned prog
  free : ∀ k, m.owner k = none → m.shared k = a k
  inside : ∀ t g l, m.threads t = some (g, l) → Inside prog m done a t g l
  outside : ∀ t, m.threads t = none → callsOf t done = callsOf t m.returned

theorem init_inv (s₀ : ∀ k, σ k) : (init s₀ : Machine κ σ ℓ γ ρ τ).Inv prog s₀ [] s₀ where
  serial := rfl
  order := rfl
  owned := init_owned s₀
  free _ _ := rfl
  inside t g l h := by cases h
  outside _ _ := rfl

/-- A step of one thread leaves the others where they are. -/
theorem Inside.frame (h : prog.TwoPhase) {m m' : Machine κ σ ℓ γ ρ τ}
    {done done' : List (τ × γ × ρ)} {a a' : ∀ k, σ k} {t : τ} {g : γ} {l : ℓ}
    (hin : Inside prog m done a t g l) (hc : ∀ k ∈ prog.held l, m'.shared k = m.shared k)
    (ha : ∀ k ∈ prog.held l, a' k = a k) (hdone : callsOf t done' = callsOf t done)
    (hret : callsOf t m'.returned = callsOf t m.returned) : Inside prog m' done' a' t g l := by
  rcases hin with ⟨hb, hcalls⟩ | ⟨r, hb, hcalls⟩
  · exact Or.inl ⟨hb.frame h hc ha, by rw [hdone, hret, hcalls]⟩
  · exact Or.inr ⟨r, hb.frame h hc ha, by rw [hdone, hret, hcalls]⟩

theorem Inv.call (h : prog.TwoPhase) {s₀ a : ∀ k, σ k} {m : Machine κ σ ℓ γ ρ τ}
    {done : List (τ × γ × ρ)} (hinv : m.Inv prog s₀ done a) {t : τ} (g : γ)
    (ht : m.threads t = none) :
    Inv prog s₀ { m with threads := Function.update m.threads t (some (g, prog.start g)) } done
      a where
  serial := hinv.serial
  order := hinv.order
  owned := by
    intro k u
    dsimp only
    rw [hinv.owned k u]
    by_cases hu : u = t
    · subst hu
      simp [ht, h.start_held]
    · rw [Function.update_of_ne hu]
  free := hinv.free
  inside := by
    intro u g' l' hu
    dsimp only at hu
    by_cases hut : u = t
    · subst hut
      rw [Function.update_self] at hu
      cases hu
      refine Or.inl ⟨⟨h.start_past g, a, .refl, fun k hk => ?_⟩, hinv.outside u ht⟩
      simp [h.start_held] at hk
    · rw [Function.update_of_ne hut] at hu
      exact (hinv.inside u g' l' hu).frame h (fun _ _ => rfl) (fun _ _ => rfl) rfl rfl
  outside := by
    intro u hu
    dsimp only at hu
    by_cases hut : u = t
    · simp [hut] at hu
    · rw [Function.update_of_ne hut] at hu
      exact hinv.outside u hu

/-- A step inside a call, given what it does to the order and to the thread itself. -/
theorem Inv.goes (h : prog.TwoPhase) {s₀ a a' : ∀ k, σ k} {m m' : Machine κ σ ℓ γ ρ τ}
    {done done' : List (τ × γ × ρ)} (hinv : m.Inv prog s₀ done a) {t : τ} {g : γ} {l l' : ℓ}
    (hl : m.threads t = some (g, l)) (hgo : Goes prog m m' t g l l')
    (hserial : prog.Serial s₀ done' a') (horder : done'.map (fun c => (c.1, c.2.1)) = m'.order)
    (hoff : ∀ k, k ∉ prog.held l' → a' k = a k)
    (hback : ∀ k ∈ prog.held l, k ∉ prog.held l' → m'.shared k = a k)
    (hin : Inside prog m' done' a' t g l')
    (hothers : ∀ u, u ≠ t → callsOf u done' = callsOf u done) : m'.Inv prog s₀ done' a' where
  serial := hserial
  order := horder
  owned := hgo.owned hinv.owned hl
  free := by
    intro k hk
    rcases hgo.free_or hk with ⟨hgone, hheld | hfree⟩
    · rw [hback k hheld hgone, hoff k hgone]
    · rw [h.alone_off hgo.alone (Or.inr hgone), hoff k hgone]
      exact hinv.free k hfree
  inside := by
    intro u g' l'' hu
    have hall := hgo.threads
    by_cases hut : u = t
    · subst hut
      rw [hall, Function.update_self] at hu
      cases hu
      exact hin
    · -- the other threads hold other locks
      have hu' : m'.threads t = some (g, l') := by rw [hall, Function.update_self]
      have hapart : ∀ k ∈ prog.held l'', k ∉ prog.held l' :=
        fun k hk => (hgo.owned hinv.owned hl).apart hut hu' hu hk
      rw [hall, Function.update_of_ne hut] at hu
      refine (hinv.inside u g' l'' hu).frame h (fun k hk => ?_) (fun k hk => ?_) (hothers u hut)
        (by rw [hgo.returned])
      · exact h.alone_off hgo.alone (Or.inr (hapart k hk))
      · exact hoff k (hapart k hk)
  outside := by
    intro u hu
    rw [hgo.threads] at hu
    by_cases hut : u = t
    · simp [hut] at hu
    · rw [Function.update_of_ne hut] at hu
      rw [hothers u hut, hgo.returned]
      exact hinv.outside u hu

theorem Inv.ret (h : prog.TwoPhase) {s₀ a : ∀ k, σ k} {m : Machine κ σ ℓ γ ρ τ}
    {done : List (τ × γ × ρ)} (hinv : m.Inv prog s₀ done a) {t : τ} {g : γ} {l : ℓ} {r : ρ}
    (hl : m.threads t = some (g, l)) (hcode : prog.code l = .ret r) :
    Inv prog s₀ { m with
      threads := Function.update m.threads t none
      returned := m.returned ++ [(t, g, r)] } done a where
  serial := hinv.serial
  order := hinv.order
  owned := by
    intro k u
    dsimp only
    rw [hinv.owned k u]
    by_cases hu : u = t
    · subst hu
      simp [hl, (h.ret hcode).2]
    · rw [Function.update_of_ne hu]
  free := hinv.free
  inside := by
    intro u g' l' hu
    dsimp only at hu
    by_cases hut : u = t
    · simp [hut] at hu
    · rw [Function.update_of_ne hut] at hu
      exact (hinv.inside u g' l' hu).frame h (fun _ _ => rfl) (fun _ _ => rfl) rfl
        (callsOf_snoc_ne hut _ _ _)
  outside := by
    intro u hu
    dsimp only at hu
    by_cases hut : u = t
    · subst hut
      rcases hinv.inside u g l hl with ⟨⟨hpast, -⟩, -⟩ | ⟨r', hb, hcalls⟩
      · simp [(h.ret hcode).1] at hpast
      · rcases hb with ⟨-, s, hends, -⟩
        rw [hcalls, ((ends_ret hcode).1 hends).2, callsOf_snoc_self]
    · rw [Function.update_of_ne hut] at hu
      rw [callsOf_snoc_ne hut]
      exact hinv.outside u hu

/-- Every step keeps the invariant: a step past the last lock of a call puts the whole call behind
the others, and the other steps change nothing in the order. -/
theorem Inv.step (h : prog.TwoPhase) {s₀ a : ∀ k, σ k} {m m' : Machine κ σ ℓ γ ρ τ}
    {done : List (τ × γ × ρ)} (hinv : m.Inv prog s₀ done a) {act : Act τ γ}
    (hstep : m.step prog act = some m') : ∃ done' a', m'.Inv prog s₀ done' a' := by
  cases act with
  | call t g =>
      simp only [Machine.step] at hstep
      split at hstep
      · next ht =>
          cases hstep
          exact ⟨done, a, hinv.call h g ht⟩
      · cases hstep
  | go t =>
      rcases Option.bind_eq_some_iff.1 hstep with ⟨⟨g, l⟩, hl, hgo⟩
      rcases goStep_cases h hinv.owned hl hgo with ⟨l', hgoes⟩ | ⟨r, hcode, rfl⟩
      · rcases hinv.inside t g l hl with ⟨hb, hcalls⟩ | ⟨r, hb, hcalls⟩
        · rcases hb.next h hgoes.alone fun k hk hold => hinv.free k (hgoes.free k hk hold) with
            ⟨s, hsteps, hs, hsoff⟩
          have hback : ∀ k ∈ prog.held l, k ∉ prog.held l' → m'.shared k = a k :=
            fun k hk hgone => absurd ((h.alone_phase hgoes.alone).1 hb.1 hk) hgone
          cases hpast : prog.past l' with
          | false =>
              refine ⟨done, a, hinv.goes h hl hgoes hinv.serial ?_ (fun _ _ => rfl) hback
                (Or.inl ⟨⟨hpast, s, hsteps, hs⟩, ?_⟩) fun _ _ => rfl⟩
              · rw [hgoes.order, if_neg (by simp [hpast])]
                exact hinv.order
              · rw [hgoes.returned]
                exact hcalls
          | true =>
              -- the last lock: all that the call is going to do is now part of `a`
              rcases h.returns hpast s with ⟨a', r, lr, hrest, hret⟩
              rcases h.shrinking_frame hrest hpast (fun k hk => (hs k hk).symm) with
                ⟨c, hc, hsame⟩
              refine ⟨done ++ [(t, g, r)], a', hinv.goes h hl hgoes
                (hinv.serial.snoc ⟨lr, hsteps.trans hrest, hret⟩) ?_ (fun k hk => ?_) hback
                (Or.inr ⟨r, ⟨hpast, c, ⟨lr, hc, hret⟩, hsame⟩, ?_⟩)
                fun u hu => callsOf_snoc_ne hu _ _ _⟩
              · rw [hgoes.order, if_pos ⟨hb.1, hpast⟩, List.map_append, hinv.order]
                rfl
              · exact (h.shrinking_off hrest hpast hk).trans (hsoff k hk)
              · rw [callsOf_snoc_self, hcalls, hgoes.returned]
        · rcases hb.next h hgoes.alone with ⟨hb', hback⟩
          refine ⟨done, a, hinv.goes h hl hgoes hinv.serial ?_ (fun _ _ => rfl) hback
            (Or.inr ⟨r, hb', ?_⟩) fun _ _ => rfl⟩
          · rw [hgoes.order, if_neg (by simp [hb.1])]
            exact hinv.order
          · rw [hgoes.returned]
            exact hcalls
      · exact ⟨done, a, hinv.ret h hl hcode⟩

/-- The calls of a thread that have returned are the first of those in the order. -/
theorem Inv.returned_first {s₀ a : ∀ k, σ k} {m : Machine κ σ ℓ γ ρ τ}
    {done : List (τ × γ × ρ)} (hinv : m.Inv prog s₀ done a) (t : τ) :
    callsOf t m.returned <+: callsOf t done := by
  cases ht : m.threads t with
  | none => rw [hinv.outside t ht]
  | some p =>
      rcases hinv.inside t p.1 p.2 ht with ⟨-, hcalls⟩ | ⟨r, -, hcalls⟩
      · rw [hcalls]
      · rw [hcalls]
        exact List.prefix_append _ _

theorem run_inv (h : prog.TwoPhase) {s₀ : ∀ k, σ k} {acts : List (Act τ γ)}
    {m : Machine κ σ ℓ γ ρ τ} (hrun : run (step prog) (init s₀) acts = some m) :
    ∃ done a, m.Inv prog s₀ done a := by
  have hkeep : ∀ (m : Machine κ σ ℓ γ ρ τ) (act : Act τ γ) (m' : Machine κ σ ℓ γ ρ τ),
      (∃ done a, m.Inv prog s₀ done a) → m.step prog act = some m' →
      ∃ done a, m'.Inv prog s₀ done a := by
    rintro m act m' ⟨done, a, hinv⟩ hstep
    exact hinv.step h hstep
  exact run_invariant_always hkeep ⟨[], s₀, init_inv s₀⟩ hrun

end Machine

end Program
end Lib
end Rins
