import Mathlib.Algebra.BigOperators.Group.Finset.Piecewise
import Mathlib.Data.Fintype.Basic
import Mathlib.Logic.Hydra
import Mathlib.Order.WellFounded
import Rins.Lib.TwoPhase

/-!
# LockOrder — no thread waits forever

Calls that take their locks in the order of a rank cannot wait for each other in a circle: the
thread that waits for the lock of the highest rank waits for a thread that waits for none.  If the
code of every call also comes to an end, then so does every run in which no new calls are made.
-/

namespace Rins
namespace Lib
namespace Program

variable {κ : Type} [DecidableEq κ] {σ : κ → Type} {ℓ γ ρ : Type}

/-- The locks are taken in the order of their ranks. -/
def Ranked (prog : Program κ σ ℓ γ ρ) (rank : κ → Nat) : Prop :=
  ∀ l k l', prog.code l = .lock k l' → ∀ k' ∈ prog.held l, rank k' < rank k

namespace Machine

variable {prog : Program κ σ ℓ γ ρ} {τ : Type} [DecidableEq τ]

/-- The thread is at an instruction that never goes on. -/
def Halted (prog : Program κ σ ℓ γ ρ) (m : Machine κ σ ℓ γ ρ τ) (t : τ) : Prop :=
  ∃ g l, m.threads t = some (g, l) ∧ prog.code l = .halt

/-- Nobody can go on. -/
def Stuck (prog : Program κ σ ℓ γ ρ) (m : Machine κ σ ℓ γ ρ τ) : Prop :=
  ∀ t, m.step prog (.go t) = none

/-- A thread that cannot go on waits for a lock, or has halted. -/
theorem waits_of_stuck (h : prog.TwoPhase) {m : Machine κ σ ℓ γ ρ τ} (hown : m.Owned prog)
    {t : τ} {g : γ} {l : ℓ} (hl : m.threads t = some (g, l))
    (hstep : m.step prog (.go t) = none) :
    prog.code l = .halt ∨ ∃ k l' u, prog.code l = .lock k l' ∧ m.owner k = some u := by
  simp only [step, hl, Option.bind_some, goStep] at hstep
  cases hcode : prog.code l with
  | lock k l' =>
      simp only [hcode] at hstep
      split_ifs at hstep with hfree
      rcases Option.ne_none_iff_exists'.1 hfree with ⟨u, hu⟩
      exact Or.inr ⟨k, l', u, rfl, hu⟩
  | access k f => simp [hcode] at hstep
  | unlock k l' =>
      have howner : m.owner k = some t := (hown k t).2 ⟨g, l, hl, (h.unlock hcode).1⟩
      simp [hcode, howner] at hstep
  | ret r => simp [hcode] at hstep
  | halt => exact Or.inl rfl

/-- Where nobody can go on and a thread waits, one has halted: the chain from a thread to the one it
waits for goes up in the ranks. -/
theorem halted_of_stuck (h : prog.TwoPhase) {rank : κ → Nat} (hrank : prog.Ranked rank)
    {top : Nat} (htop : ∀ k, rank k < top) {m : Machine κ σ ℓ γ ρ τ} (hown : m.Owned prog)
    (hstuck : m.Stuck prog) :
    ∀ (n : Nat) (t : τ) (g : γ) (l : ℓ), m.threads t = some (g, l) →
      (∀ k l', prog.code l = .lock k l' → top ≤ rank k + n) → ∃ u, m.Halted prog u := by
  intro n
  induction n with
  | zero =>
      intro t g l hl hhigh
      rcases waits_of_stuck h hown hl (hstuck t) with hhalt | ⟨k, l', u, hcode, -⟩
      · exact ⟨t, g, l, hl, hhalt⟩
      · exact absurd (htop k) (Nat.not_lt.2 (hhigh k l' hcode))
  | succ n ih =>
      intro t g l hl hhigh
      rcases waits_of_stuck h hown hl (hstuck t) with hhalt | ⟨k, l', u, hcode, howner⟩
      · exact ⟨t, g, l, hl, hhalt⟩
      · rcases (hown k u).1 howner with ⟨g', lu, hu, hk⟩
        refine ih u g' lu hu fun k' l'' hcode' => ?_
        have hup := hrank lu k' l'' hcode' k hk
        have hhere := hhigh k l' hcode
        omega

/-- While a thread is inside a call, some thread can go on. -/
theorem goes_of_inside (h : prog.TwoPhase) {rank : κ → Nat} (hrank : prog.Ranked rank)
    {top : Nat} (htop : ∀ k, rank k < top) {m : Machine κ σ ℓ γ ρ τ} (hown : m.Owned prog)
    (hhalt : ∀ t, ¬ m.Halted prog t) {t : τ} (ht : m.threads t ≠ none) :
    ∃ u m', m.step prog (.go u) = some m' := by
  by_contra hnone
  have hstuck : m.Stuck prog := by
    intro u
    cases hstep : m.step prog (.go u) with
    | none => rfl
    | some m' => exact absurd ⟨u, m', hstep⟩ hnone
  rcases Option.ne_none_iff_exists'.1 ht with ⟨⟨g, l⟩, hl⟩
  rcases halted_of_stuck h hrank htop hown hstuck top t g l hl
    (fun _ _ _ => Nat.le_add_left _ _) with ⟨u, hu⟩
  exact hhalt u hu

/-- Calls that return when they are made one after the other do not halt in any interleaving. -/
theorem Inv.not_halted {P : (∀ k, σ k) → Prop}
    (hkeep : ∀ g s t r, P s → prog.Does g s t r → P t)
    (hreturns : ∀ g s, P s → ∃ t r, prog.Does g s t r) {s₀ a : ∀ k, σ k} (hs₀ : P s₀)
    {m : Machine κ σ ℓ γ ρ τ} {done : List (τ × γ × ρ)} (hinv : m.Inv prog s₀ done a) (t : τ) :
    ¬ m.Halted prog t := by
  rintro ⟨g, l, hl, hhalt⟩
  rcases hinv.inside t g l hl with ⟨⟨-, s, hsteps, -⟩, -⟩ | ⟨r, ⟨-, s, hends, -⟩, -⟩
  · rcases hreturns g a (hinv.serial.invariant hkeep hs₀) with ⟨u, r, hdoes⟩
    exact not_ends_halt hhalt (hdoes.of_steps hsteps)
  · exact not_ends_halt hhalt hends

/-! ## Every run comes to an end -/

section Work

variable [Fintype τ]

/-- Where the threads stand. -/
def work (threads : τ → Option (γ × ℓ)) : Multiset ℓ :=
  ∑ t, ((threads t).map Prod.snd).elim 0 fun l => {l}

theorem work_update (threads : τ → Option (γ × ℓ)) (t : τ) (p : Option (γ × ℓ)) :
    work (Function.update threads t p) =
      ((p.map Prod.snd).elim 0 fun l => {l}) +
        ∑ u ∈ Finset.univ \ {t}, ((threads u).map Prod.snd).elim 0 fun l => {l} := by
  have hall := Finset.sum_update_of_mem (Finset.mem_univ t)
    (fun u => ((threads u).map Prod.snd).elim (0 : Multiset ℓ) fun l => {l})
    ((p.map Prod.snd).elim 0 fun l => {l})
  rw [← hall]
  refine Finset.sum_congr rfl fun u _ => ?_
  by_cases hu : u = t
  · subst hu
    simp
  · simp [hu]

/-- A step replaces one place by a lower one, or takes it away. -/
theorem work_goStep {lt : ℓ → ℓ → Prop} (hdesc : prog.Descends lt) {m m' : Machine κ σ ℓ γ ρ τ}
    {t : τ} (hstep : m.step prog (.go t) = some m') :
    Relation.CutExpand lt (work m'.threads) (work m.threads) := by
  rcases Option.bind_eq_some_iff.1 hstep with ⟨⟨g, l⟩, hl, hgo⟩
  have hself : work m.threads = work (Function.update m.threads t (some (g, l))) := by
    rw [← hl, Function.update_eq_self]
  have hmoved : ∀ l', lt l' l → m'.threads = Function.update m.threads t (some (g, l')) →
      Relation.CutExpand lt (work m'.threads) (work m.threads) := by
    intro l' hlt hthreads
    rw [hthreads, hself, work_update, work_update]
    exact Relation.cutExpand_single_add hlt _
  simp only [goStep] at hgo
  cases hcode : prog.code l with
  | lock k l' =>
      simp only [hcode] at hgo
      split_ifs at hgo with hfree
      cases hgo
      exact hmoved l' (hdesc l l' m.shared m.shared (by simp [alone, hcode])) rfl
  | access k f =>
      simp only [hcode] at hgo
      cases hgo
      refine hmoved _ (hdesc l _ m.shared (Function.update m.shared k (f (m.shared k)).1) ?_) rfl
      simp only [alone, hcode]
  | unlock k l' =>
      simp only [hcode] at hgo
      split_ifs at hgo with howner
      cases hgo
      exact hmoved l' (hdesc l l' m.shared m.shared (by simp [alone, hcode])) rfl
  | ret r =>
      simp only [hcode] at hgo
      cases hgo
      rw [hself, work_update, work_update]
      exact (Relation.cutExpand_add_right _).2 Relation.cutExpand_zero
  | halt => simp [hcode] at hgo

/-- There is no endless run without new calls. -/
theorem not_endless {lt : ℓ → ℓ → Prop} (hwf : WellFounded lt) (hdesc : prog.Descends lt)
    (f : Nat → Machine κ σ ℓ γ ρ τ) : ∃ n, ∀ t, (f n).step prog (.go t) ≠ some (f (n + 1)) := by
  have : IsWellFounded (Multiset ℓ) (Relation.CutExpand lt) := ⟨hwf.cutExpand⟩
  rcases WellFounded.not_rel_apply_succ (r := Relation.CutExpand lt) fun n => work (f n).threads
    with ⟨n, hn⟩
  exact ⟨n, fun t hstep => hn (work_goStep hdesc hstep)⟩

end Work

end Machine
end Program
end Lib
end Rins
