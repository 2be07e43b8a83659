import Mathlib.Computability.StateTransition
import Mathlib.Data.Fintype.Card
import Mathlib.Data.Set.Finite.Basic

/-!
# Orbit — when a deterministic system halts

The states that `f` reaches from a starting point form one path.  If they are finitely many, the
path has an end or it runs into itself, and never both.
-/

namespace Rins
namespace Lib

open Relation
open StateTransition (eval mem_eval eval_maximal eval_maximal₁ reaches_total reaches₁_fwd Reaches₁)

variable {σ : Type*} {f : σ → Option σ} {a b : σ}

/-- The system comes to a state without a successor. -/
def Halts (f : σ → Option σ) (a : σ) : Prop :=
  ∃ b, StateTransition.Reaches f a b ∧ f b = none

/-- No state that is reached leads back to itself. -/
def Acyclic (f : σ → Option σ) (a : σ) : Prop :=
  ∀ b, StateTransition.Reaches f a b → ¬ Reaches₁ f b b

theorem halts_step (hstep : b ∈ f a) : Halts f a ↔ Halts f b := by
  constructor
  · rintro ⟨c, hreach, hend⟩
    rcases ReflTransGen.cases_head hreach with rfl | ⟨b', hstep', hrest⟩
    · cases hend.symm.trans hstep
    · cases Option.mem_unique hstep hstep'
      exact ⟨c, hrest, hend⟩
  · rintro ⟨c, hreach, hend⟩
    exact ⟨c, hreach.head hstep, hend⟩

/-- A path that has run into itself never leaves the circle. -/
theorem reaches₁_self_of_reaches (hcycle : Reaches₁ f a a)
    (hreach : StateTransition.Reaches f a b) : Reaches₁ f b b := by
  induction hreach with
  | refl => exact hcycle
  | tail _ hstep ih => exact TransGen.tail' (reaches₁_fwd ih hstep) hstep

theorem Halts.acyclic (h : Halts f a) : Acyclic f a := by
  rcases h with ⟨c, hreach, hend⟩
  intro b hb hcycle
  have hc : c ∈ eval f a := mem_eval.2 ⟨hreach, hend⟩
  rcases reaches_total hb hreach with hbc | hcb
  · exact eval_maximal₁ hc c (reaches₁_self_of_reaches hcycle hbc)
  · obtain rfl : b = c := (eval_maximal hc).1 hcb
    exact eval_maximal₁ hc b hcycle

theorem Acyclic.halts (hfin : {b | StateTransition.Reaches f a b}.Finite) (h : Acyclic f a) :
    Halts f a := by
  let later : {b // StateTransition.Reaches f a b} → {b // StateTransition.Reaches f a b} → Prop :=
    fun x y => Reaches₁ f y.1 x.1
  have : Finite {b // StateTransition.Reaches f a b} := hfin
  have : IsTrans _ later := ⟨fun _ _ _ hxy hyz => hyz.trans hxy⟩
  have : Std.Irrefl later := ⟨fun x => h x.1 x.2⟩
  -- on finitely many states "comes later" is well-founded
  have hends : ∀ x : {b // StateTransition.Reaches f a b}, Halts f x.1 := by
    intro x
    induction x using (Finite.wellFounded_of_trans_of_irrefl later).induction with
    | _ x ih =>
      cases hnext : f x.1 with
      | none => exact ⟨x.1, .refl, hnext⟩
      | some y =>
          have hy : StateTransition.Reaches f a y := x.2.tail hnext
          exact (halts_step hnext).2 (ih ⟨y, hy⟩ (.single hnext))
  exact hends ⟨a, .refl⟩

end Lib
end Rins
