import Mathlib.Logic.Relation
import Mathlib.Tactic

/-! Deterministic transition systems: a partial step function, what it reaches, and
the state it ends in. -/

namespace MediafireSdk.Steps

variable {σ : Type*} {step : σ → Option σ} {s t u : σ}

def Reaches (step : σ → Option σ) : σ → σ → Prop :=
  Relation.ReflTransGen fun s t => step s = some t

/-- A run that cannot go on. -/
def Ends (step : σ → Option σ) (s t : σ) : Prop := Reaches step s t ∧ step t = none

theorem Reaches.refl : Reaches step s s := Relation.ReflTransGen.refl

theorem Reaches.trans (h : Reaches step s t) (h' : Reaches step t u) : Reaches step s u :=
  Relation.ReflTransGen.trans h h'

theorem Reaches.head (h : step s = some t) (h' : Reaches step t u) : Reaches step s u :=
  Relation.ReflTransGen.head h h'

theorem Reaches.of_step (h : step s = some t) : Reaches step s t := .head h .refl

theorem Reaches.ends (h : Reaches step s t) (h' : Ends step t u) : Ends step s u :=
  ⟨h.trans h'.1, h'.2⟩

/-- What every step keeps holds wherever a run gets. -/
theorem Reaches.invariant {I : σ → Prop} (hstep : ∀ s t, I s → step s = some t → I t) (hs : I s)
    (h : Reaches step s t) : I t := by
  induction h with
  | refl => exact hs
  | tail _ hlast ih => exact hstep _ _ ih hlast

/-- A run that ends goes through everything that is reached. -/
theorem Ends.of_reaches (h : Ends step s t) (hu : Reaches step s u) : Reaches step u t := by
  obtain ⟨h, hend⟩ := h
  induction hu using Relation.ReflTransGen.head_induction_on with
  | refl => exact h
  | head hstep _ ih =>
    rcases Relation.ReflTransGen.cases_head h with rfl | ⟨v, hv, hrest⟩
    · rw [hend] at hstep
      cases hstep
    · rw [hstep] at hv
      cases hv
      exact ih hrest

theorem Ends.unique (h : Ends step s t) (h' : Ends step s u) : t = u := by
  have hrest := h.of_reaches h'.1
  rcases Relation.ReflTransGen.cases_head hrest with rfl | ⟨v, hv, -⟩
  · rfl
  · rw [h'.2] at hv
    cases hv

/-! ### What a run passes -/

/-- A run and the states it steps from, in order. -/
inductive Passes (step : σ → Option σ) : σ → List σ → σ → Prop
  | refl (s : σ) : Passes step s [] s
  | head {s t u : σ} {states : List σ} (h : step s = some t) (rest : Passes step t states u) :
      Passes step s (s :: states) u

theorem Passes.reaches {states : List σ} (h : Passes step s states t) : Reaches step s t := by
  induction h with
  | refl => exact .refl
  | head h _ ih => exact .head h ih

/-- A measure that every step moves by what the step gives and takes. -/
theorem Passes.balance {I : σ → Prop} {measure gives takes : σ → ℕ}
    (hstep : ∀ s t, I s → step s = some t →
      I t ∧ measure t + takes s = measure s + gives s)
    {states : List σ} (hs : I s) (h : Passes step s states t) :
    measure t + (states.map takes).sum = measure s + (states.map gives).sum := by
  induction h with
  | refl => rfl
  | head h _ ih =>
    obtain ⟨ht, hmove⟩ := hstep _ _ hs h
    have hrest := ih ht
    simp only [List.map_cons, List.sum_cons]
    omega

/-- A run without an end. -/
def Forever (step : σ → Option σ) (s : σ) : Prop :=
  ∃ run : ℕ → σ, run 0 = s ∧ ∀ n, step (run n) = some (run (n + 1))

/-- Where every state of an invariant has a next one in it, there is a run without an end. -/
theorem forever_of_invariant {I : σ → Prop} (hstep : ∀ s, I s → ∃ t, step s = some t ∧ I t)
    (hs : I s) : Forever step s := by
  choose next hnext hkeeps using hstep
  let further (s : { s // I s }) : { s // I s } := ⟨next s.1 s.2, hkeeps s.1 s.2⟩
  refine ⟨fun n => (further^[n] ⟨s, hs⟩).1, rfl, fun n => ?_⟩
  show _ = some (further^[n + 1] ⟨s, hs⟩).1
  rw [Function.iterate_succ_apply']
  exact hnext _ _

theorem Ends.not_forever (h : Ends step s t) : ¬Forever step s := by
  obtain ⟨h, hend⟩ := h
  induction h using Relation.ReflTransGen.head_induction_on with
  | refl =>
    rintro ⟨run, hrun, hsteps⟩
    have hfirst := hsteps 0
    rw [hrun, hend] at hfirst
    cases hfirst
  | head hstep _ ih =>
    rintro ⟨run, hrun, hsteps⟩
    have hfirst := hsteps 0
    rw [hrun, hstep] at hfirst
    exact ih ⟨fun n => run (n + 1), (Option.some.inj hfirst).symm, fun n => hsteps (n + 1)⟩

end MediafireSdk.Steps
