import Mathlib.Tactic

/-! Runs of a transition system whose steps are partial functions of a state and
an action. `Along` states a property of every step of a run, `Always` a property
of every state it visits. An invariant may need a side condition on the steps:
the rules relate a run whose steps all meet it to the states it reaches, in both
directions where the first bad step is visible in the state it leads to. -/

namespace MediafireSdk.Runs

variable {σ α : Type*} {step : σ → α → Option σ}

/-- The state after a list of actions; `none` when one of them is not enabled. -/
def run (step : σ → α → Option σ) : σ → List α → Option σ
  | s, [] => some s
  | s, a :: as => (step s a).bind fun s' => run step s' as

/-- `P` holds of every step: state before, action, state after. -/
def Along (step : σ → α → Option σ) (P : σ → α → σ → Prop) : σ → List α → Prop
  | _, [] => True
  | s, a :: as => ∀ s', step s a = some s' → P s a s' ∧ Along step P s' as

/-- `Q` holds of every state visited. -/
def Always (step : σ → α → Option σ) (Q : σ → Prop) (s : σ) (as : List α) : Prop :=
  Q s ∧ Along step (fun _ _ s' => Q s') s as

/-- The system with an observer beside it, which sees the state before each step and its action. -/
def watch {μ : Type*} (step : σ → α → Option σ) (observe : σ → α → μ → μ) (p : σ × μ) (a : α) :
    Option (σ × μ) := (step p.1 a).map fun s' => (s', observe p.1 a p.2)

@[simp] theorem run_nil (s : σ) : run step s [] = some s := rfl

theorem run_cons {s s'' : σ} {a : α} {as : List α} :
    run step s (a :: as) = some s'' ↔ ∃ s', step s a = some s' ∧ run step s' as = some s'' :=
  Option.bind_eq_some_iff

theorem run_append {s s'' : σ} {as bs : List α} :
    run step s (as ++ bs) = some s'' ↔ ∃ s', run step s as = some s' ∧ run step s' bs = some s'' := by
  induction as generalizing s with
  | nil => simp
  | cons a as ih =>
    simp only [List.cons_append, run_cons, ih]
    constructor
    · rintro ⟨t, ht, u, hu, hrest⟩
      exact ⟨u, ⟨t, ht, hu⟩, hrest⟩
    · rintro ⟨u, ⟨t, ht, hu⟩, hrest⟩
      exact ⟨t, ht, u, hu, hrest⟩

theorem watch_eq_some {μ : Type*} {observe : σ → α → μ → μ} {p p' : σ × μ} {a : α}
    (h : watch step observe p a = some p') :
    step p.1 a = some p'.1 ∧ p'.2 = observe p.1 a p.2 := by
  obtain ⟨s', hs, rfl⟩ := Option.map_eq_some_iff.mp h
  exact ⟨hs, rfl⟩

section Rules
variable {I Q : σ → Prop} {P G : σ → α → σ → Prop} {s s' : σ} {as : List α}

/-- An invariant preserved by the steps that meet `G` holds after a run of such steps. -/
theorem run_guarded (hstep : ∀ s a s', I s → G s a s' → step s a = some s' → I s')
    (hinv : I s) (hguard : Along step G s as) (hrun : run step s as = some s') : I s' := by
  induction as generalizing s with
  | nil => cases hrun; exact hinv
  | cons a as ih =>
    obtain ⟨t, ht, hrest⟩ := run_cons.mp hrun
    obtain ⟨hg, hguard'⟩ := hguard t ht
    exact ih (hstep s a t hinv hg ht) hguard' hrest

/-- What holds of every step with one of the actions. -/
theorem along_of_forall (h : ∀ a ∈ as, ∀ s s', P s a s') : Along step P s as := by
  induction as generalizing s with
  | nil => trivial
  | cons a as ih =>
    exact fun s' _ => ⟨h a List.mem_cons_self s s', ih fun b hb => h b (List.mem_cons_of_mem a hb)⟩

theorem along_true : Along step (fun _ _ _ => True) s as := along_of_forall fun _ _ _ _ => trivial

/-- An invariant preserved by every step holds after every run. -/
theorem run_invariant (hstep : ∀ s a s', I s → step s a = some s' → I s')
    (hinv : I s) (hrun : run step s as = some s') : I s' :=
  run_guarded (G := fun _ _ _ => True) (fun s a s' h _ => hstep s a s' h) hinv along_true hrun

theorem Along.of_invariant (hstep : ∀ s a s', I s → step s a = some s' → P s a s' ∧ I s')
    (hinv : I s) : Along step P s as := by
  induction as generalizing s with
  | nil => trivial
  | cons a as ih =>
    intro t ht
    obtain ⟨hp, hinv'⟩ := hstep s a t hinv ht
    exact ⟨hp, ih hinv'⟩

theorem Along.of_guarded (hstep : ∀ s a s', I s → G s a s' → step s a = some s' → P s a s' ∧ I s')
    (hinv : I s) (hguard : Along step G s as) : Along step P s as := by
  induction as generalizing s with
  | nil => trivial
  | cons a as ih =>
    intro t ht
    obtain ⟨hg, hguard'⟩ := hguard t ht
    obtain ⟨hp, hinv'⟩ := hstep s a t hinv hg ht
    exact ⟨hp, ih hinv' hguard'⟩

/-- Two properties of steps that agree as long as one of them has held so far. -/
theorem along_iff (hiff : ∀ s a s', I s → step s a = some s' → (P s a s' ↔ G s a s'))
    (hstep : ∀ s a s', I s → G s a s' → step s a = some s' → I s') (hinv : I s) :
    Along step P s as ↔ Along step G s as := by
  induction as generalizing s with
  | nil => exact Iff.rfl
  | cons a as ih =>
    constructor
    · intro h t ht
      obtain ⟨hp, hrest⟩ := h t ht
      have hg := (hiff s a t hinv ht).mp hp
      exact ⟨hg, (ih (hstep s a t hinv hg ht)).mp hrest⟩
    · intro h t ht
      obtain ⟨hg, hrest⟩ := h t ht
      exact ⟨(hiff s a t hinv ht).mpr hg, (ih (hstep s a t hinv hg ht)).mpr hrest⟩

theorem Along.and (h : Along step P s as) (h' : Along step G s as) :
    Along step (fun s a s' => P s a s' ∧ G s a s') s as := by
  induction as generalizing s with
  | nil => trivial
  | cons a as ih =>
    intro t ht
    obtain ⟨hp, hrest⟩ := h t ht
    obtain ⟨hg, hrest'⟩ := h' t ht
    exact ⟨⟨hp, hg⟩, ih hrest hrest'⟩

/-- What holds along a run holds of the step after any beginning of it. -/
theorem Along.step_after {s t t' : σ} {a : α} {as bs : List α}
    (h : Along step P s (as ++ a :: bs)) (hrun : run step s as = some t)
    (hstep : step t a = some t') : P t a t' := by
  induction as generalizing s with
  | nil => cases hrun; exact (h t' hstep).1
  | cons b as ih =>
    obtain ⟨u, hu, hrest⟩ := run_cons.mp hrun
    exact ih (h u hu).2 hrest

/-- `Q` holds of every state visited exactly when every step meets `G`: from an invariant that
gives `Q` and is preserved under `G`, and steps that show in `Q` when they break `G`. -/
theorem always_iff_along (hQ : ∀ s, I s → Q s)
    (hstep : ∀ s a s', I s → G s a s' → step s a = some s' → I s')
    (hback : ∀ s a s', I s → step s a = some s' → Q s' → G s a s') (hinv : I s) :
    Always step Q s as ↔ Along step G s as := by
  have hiff : Along step (fun _ _ s' => Q s') s as ↔ Along step G s as :=
    along_iff (fun s a s' hi hs => ⟨hback s a s' hi hs, fun hg => hQ _ (hstep s a s' hi hg hs)⟩)
      hstep hinv
  exact ⟨fun h => hiff.mp h.2, fun h => ⟨hQ s hinv, hiff.mpr h⟩⟩

theorem Always.of_guarded (hQ : ∀ s, I s → Q s)
    (hstep : ∀ s a s', I s → G s a s' → step s a = some s' → I s') (hinv : I s)
    (hguard : Along step G s as) : Always step Q s as := by
  refine ⟨hQ s hinv, ?_⟩
  induction as generalizing s with
  | nil => trivial
  | cons a as ih =>
    intro t ht
    obtain ⟨hg, hrest⟩ := hguard t ht
    have hinv' := hstep s a t hinv hg ht
    exact ⟨hQ t hinv', ih hinv' hrest⟩

/-- What holds of every visited state holds of the last one. -/
theorem Always.last (h : Always step Q s as) (hrun : run step s as = some s') : Q s' := by
  obtain ⟨h0, h⟩ := h
  induction as generalizing s with
  | nil => cases hrun; exact h0
  | cons a as ih =>
    obtain ⟨t, ht, hrest⟩ := run_cons.mp hrun
    exact ih hrest (h t ht).1 (h t ht).2

/-- A run that cannot go on, where no run is longer than a bound. -/
theorem exists_quiet {bound : ℕ}
    (hbound : ∀ as s', run step s as = some s' → as.length ≤ bound) :
    ∃ as s', run step s as = some s' ∧ ∀ a, step s' a = none := by
  induction bound generalizing s with
  | zero =>
    refine ⟨[], s, rfl, fun a => ?_⟩
    by_contra hne
    obtain ⟨t, ht⟩ := Option.ne_none_iff_exists'.mp hne
    exact absurd (hbound [a] t (run_cons.mpr ⟨t, ht, rfl⟩)) (by simp)
  | succ bound ih =>
    by_cases hquiet : ∀ a, step s a = none
    · exact ⟨[], s, rfl, hquiet⟩
    · obtain ⟨a, hne⟩ := not_forall.mp hquiet
      obtain ⟨t, ht⟩ := Option.ne_none_iff_exists'.mp hne
      obtain ⟨as, s', hrun, hend⟩ := ih (s := t) fun as s' hrun =>
        Nat.le_of_succ_le_succ (hbound (a :: as) s' (run_cons.mpr ⟨t, ht, hrun⟩))
      exact ⟨a :: as, s', run_cons.mpr ⟨t, ht, hrun⟩, hend⟩

/-- A rank that some allowed step can always lower is brought down to zero by allowed steps. -/
theorem exists_run_to_zero {rank : ℕ → σ → Prop} {allowed : α → Prop}
    (hnext : ∀ n s, rank (n + 1) s → ∃ a s', allowed a ∧ step s a = some s' ∧ rank n s') {n : ℕ}
    (h : rank n s) : ∃ as s', (∀ a ∈ as, allowed a) ∧ run step s as = some s' ∧ rank 0 s' := by
  induction n generalizing s with
  | zero => exact ⟨[], s, fun _ ha => absurd ha List.not_mem_nil, rfl, h⟩
  | succ n ih =>
    obtain ⟨a, t, ha, ht, hrank⟩ := hnext n s h
    obtain ⟨as, s', has, hrun, hzero⟩ := ih hrank
    exact ⟨a :: as, s', List.forall_mem_cons.mpr ⟨ha, has⟩, run_cons.mpr ⟨t, ht, hrun⟩, hzero⟩

/-- A measure that every step of a run raises bounds the run. -/
theorem length_le_of_measure {measure : σ → ℕ}
    (hstep : ∀ s a s', step s a = some s' → measure s < measure s')
    (hrun : run step s as = some s') : measure s + as.length ≤ measure s' := by
  induction as generalizing s with
  | nil =>
    cases hrun
    exact le_rfl
  | cons a as ih =>
    obtain ⟨t, ht, hrest⟩ := run_cons.mp hrun
    have hlt := hstep s a t ht
    have hle := ih hrest
    rw [List.length_cons]
    omega

/-- The steps of one kind lower a rank, and the others raise it by one at most. As long as `Q`
holds, which it does from the start if it does at the end, there are no more of the first kind than
the rank and the others allow. -/
theorem countP_add_le_of_rank {rank : σ → ℕ} {own : α → Bool}
    (hstep : ∀ s a s', I s → G s a s' → step s a = some s' → I s')
    (hback : ∀ s a s', step s a = some s' → Q s' → Q s)
    (hrank : ∀ s a s', I s → G s a s' → step s a = some s' → Q s' →
      rank s' + (own a).toNat ≤ rank s + (!own a).toNat)
    (hinv : I s) (hguard : Along step G s as) (hrun : run step s as = some s') (hQ : Q s') :
    rank s' + as.countP own ≤ rank s + as.countP (fun a => !own a) := by
  induction as generalizing s with
  | nil =>
    cases hrun
    exact le_rfl
  | cons a as ih =>
    obtain ⟨t, ht, hrest⟩ := run_cons.mp hrun
    obtain ⟨hg, hguard'⟩ := hguard t ht
    have hQt : Q t := by
      by_contra hnot
      exact run_invariant (I := fun s => ¬ Q s) (fun s a s' hn hs hq => hn (hback s a s' hs hq))
        hnot hrest hQ
    have hone := hrank s a t hinv hg ht hQt
    have hle := ih (hstep s a t hinv hg ht) hguard' hrest
    rw [List.countP_cons, List.countP_cons]
    cases hown : own a <;> simp only [hown, Bool.toNat_true, Bool.toNat_false, Bool.not_true,
      Bool.not_false, if_true, if_false, Bool.false_eq_true] at hone ⊢ <;> omega

/-- A test of every step of a run. -/
def check (step : σ → α → Option σ) (p : σ → α → Bool) : σ → List α → Bool
  | _, [] => true
  | s, a :: as =>
    match step s a with
    | none => true
    | some s' => p s a && check step p s' as

theorem along_of_check {p : σ → α → Bool} (hp : ∀ s a s', p s a = true → P s a s')
    (h : check step p s as = true) : Along step P s as := by
  induction as generalizing s with
  | nil => trivial
  | cons a as ih =>
    intro t ht
    rw [check, ht] at h
    obtain ⟨hpa, hrest⟩ := Bool.and_eq_true_iff.mp h
    exact ⟨hp s a t hpa, ih hrest⟩

end Rules

end MediafireSdk.Runs
