import Mathlib.Tactic

/-! Straight-line programs of several threads over a shared state. A thread is
described by a view, what its instructions need and change; `ok` is the
precondition of an instruction and `act` what it does to the view. A program fits
a view when every precondition holds as it is reached and the view is idle at the
end. What other threads do in between is a relation on views: a program fits
whatever they do if the relation is respected by `ok`, `act` and `idle`. -/

namespace MediafireSdk.Programs

variable {τ ν : Type*}

/-- The program runs through from this view and leaves it idle. -/
def Fits (ok : τ → ν → Prop) (act : τ → ν → ν) (idle : ν → Prop) : List τ → ν → Prop
  | [], v => idle v
  | t :: ts, v => ok t v ∧ Fits ok act idle ts (act t v)

variable {ok : τ → ν → Prop} {act : τ → ν → ν} {idle : ν → Prop}

@[simp] theorem fits_nil {v : ν} : Fits ok act idle [] v ↔ idle v := Iff.rfl

@[simp] theorem fits_cons {t : τ} {ts : List τ} {v : ν} :
    Fits ok act idle (t :: ts) v ↔ ok t v ∧ Fits ok act idle ts (act t v) := Iff.rfl

/-- Sequential composition: the second program starts where the first one is done. -/
theorem fits_append {ts us : List τ} {v : ν} :
    Fits ok act idle (ts ++ us) v ↔ Fits ok act (Fits ok act idle us) ts v := by
  induction ts generalizing v with
  | nil => rfl
  | cons t ts ih => simp only [List.cons_append, fits_cons, ih]

/-- Instructions that need and change nothing. -/
theorem fits_neutral {ts : List τ} {v : ν} (h : ∀ t ∈ ts, ∀ v, ok t v ∧ act t v = v) :
    Fits ok act idle ts v ↔ idle v := by
  induction ts generalizing v with
  | nil => rfl
  | cons t ts ih =>
    obtain ⟨hok, hact⟩ := h t List.mem_cons_self v
    rw [fits_cons, hact, ih fun t' ht' => h t' (List.mem_cons_of_mem t ht')]
    exact and_iff_right hok

/-- Interference: a change that `ok`, `act` and `idle` respect leaves the program fitting. -/
theorem Fits.stable {R : ν → ν → Prop} {ts : List τ} {v v' : ν} (h : Fits ok act idle ts v)
    (hR : R v v') (hstep : ∀ t v v', R v v' → ok t v → ok t v' ∧ R (act t v) (act t v'))
    (hidle : ∀ v v', R v v' → idle v → idle v') : Fits ok act idle ts v' := by
  induction ts generalizing v v' with
  | nil => exact hidle v v' hR h
  | cons t ts ih =>
    obtain ⟨hok, hR'⟩ := hstep t v v' hR h.1
    exact ⟨hok, ih h.2 hR'⟩

end MediafireSdk.Programs
