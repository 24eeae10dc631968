import Mathlib.Tactic

/-! Threads with instructions left to run. A thread takes its next instruction, which
may put others before the rest; a thread with nothing left is gone. What an invariant
needs of the instructions left is either a property of each of them or a sum of weights,
and of one step it matters only which instruction went and which came. Where threads
are staged, what an instruction may lead to is done before those behind it start. -/

namespace MediafireSdk.Threads

variable {ι : Type*}

/-- All instructions left. -/
def pending (threads : List (List ι)) : List ι := threads.flatten

def spawn (program : List ι) (threads : List (List ι)) : List (List ι) :=
  if program = [] then threads else threads ++ [program]

/-- Thread `k` with a new program. -/
def resume (k : ℕ) (program : List ι) (threads : List (List ι)) : List (List ι) :=
  if program = [] then threads.eraseIdx k else threads.set k program

/-- The sum of the weights of the instructions left. -/
def load (weight : ι → ℕ) (threads : List (List ι)) : ℕ := ((pending threads).map weight).sum

/-- One step of a thread: `i` is gone and `pushed` are there, before what was behind `i`. -/
structure Stepped (i : ι) (pushed : List ι) (threads threads' : List (List ι)) : Prop where
  split : ∃ before after, pending threads = before ++ i :: after ∧
    pending threads' = before ++ (pushed ++ after)
  alone : threads.length ≤ 1 → ∃ after, threads = [i :: after] ∧
    threads' = spawn (pushed ++ after) []

variable {threads threads' : List (List ι)} {i j : ι} {pushed : List ι} {weight : ι → ℕ}

theorem pending_spawn (program : List ι) (threads : List (List ι)) :
    pending (spawn program threads) = pending threads ++ program := by
  unfold spawn
  split_ifs with h
  · rw [h, List.append_nil]
  · simp [pending]

theorem mem_pending_spawn {program : List ι} :
    j ∈ pending (spawn program threads) ↔ j ∈ pending threads ∨ j ∈ program := by
  rw [pending_spawn, List.mem_append]

theorem load_spawn (weight : ι → ℕ) (program : List ι) (threads : List (List ι)) :
    load weight (spawn program threads) = load weight threads + (program.map weight).sum := by
  rw [load, pending_spawn, List.map_append, List.sum_append, load]

theorem stepped_resume {k : ℕ} {rest : List ι} (hk : threads[k]? = some (i :: rest))
    (pushed : List ι) : Stepped i pushed threads (resume k (pushed ++ rest) threads) := by
  obtain ⟨hlt, hget⟩ := List.getElem?_eq_some_iff.mp hk
  have hsplit : threads = threads.take k ++ (i :: rest) :: threads.drop (k + 1) := by
    rw [← hget, List.getElem_cons_drop, List.take_append_drop]
  have hresume : pending (resume k (pushed ++ rest) threads) =
      (threads.take k).flatten ++ (pushed ++ rest) ++ (threads.drop (k + 1)).flatten := by
    unfold resume pending
    split_ifs with hnil
    · rw [hnil, List.eraseIdx_eq_take_drop_succ]
      simp
    · rw [List.set_eq_take_append_cons_drop, if_pos hlt]
      simp
  refine ⟨⟨(threads.take k).flatten, rest ++ (threads.drop (k + 1)).flatten, ?_, ?_⟩, ?_⟩
  · conv_lhs => rw [pending, hsplit]
    simp
  · rw [hresume]
    simp
  · intro hone
    obtain rfl : k = 0 := by omega
    obtain ⟨t, rfl⟩ : ∃ t, threads = [t] := List.length_eq_one_iff.mp (by omega)
    cases hget
    refine ⟨rest, rfl, ?_⟩
    unfold resume spawn
    split_ifs <;> rfl

namespace Stepped

theorem mem (h : Stepped i pushed threads threads') (hj : j ∈ pending threads') :
    j ∈ pushed ∨ j ∈ pending threads := by
  obtain ⟨before, after, hsplit, hsplit'⟩ := h.split
  rw [hsplit'] at hj
  rw [hsplit]
  simp only [List.mem_append, List.mem_cons] at hj ⊢
  tauto

theorem head_mem (h : Stepped i pushed threads threads') : i ∈ pending threads := by
  obtain ⟨before, after, hsplit, -⟩ := h.split
  rw [hsplit]
  simp

theorem pushed_mem (h : Stepped i pushed threads threads') (hj : j ∈ pushed) :
    j ∈ pending threads' := by
  obtain ⟨before, after, -, hsplit'⟩ := h.split
  rw [hsplit']
  simp [hj]

/-- What is left stays left. -/
theorem stays (h : Stepped i pushed threads threads') (hj : j ∈ pending threads) (hne : j ≠ i) :
    j ∈ pending threads' := by
  obtain ⟨before, after, hsplit, hsplit'⟩ := h.split
  rw [hsplit] at hj
  rw [hsplit']
  simp only [List.mem_append, List.mem_cons] at hj ⊢
  tauto

theorem load (h : Stepped i pushed threads threads') (weight : ι → ℕ) :
    load weight threads' + weight i = load weight threads + (pushed.map weight).sum := by
  obtain ⟨before, after, hsplit, hsplit'⟩ := h.split
  simp only [Threads.load, hsplit, hsplit', List.map_append, List.map_cons, List.sum_append,
    List.sum_cons]
  omega

end Stepped

theorem le_load (weight : ι → ℕ) (hi : i ∈ pending threads) : weight i ≤ load weight threads :=
  List.single_le_sum (by simp) _ (List.mem_map_of_mem hi)

theorem exists_of_load_pos (h : 0 < load weight threads) : ∃ i ∈ pending threads, 0 < weight i := by
  by_contra hnone
  push Not at hnone
  have hzero : load weight threads = 0 := by
    apply List.sum_eq_zero
    intro n hn
    obtain ⟨i, hi, rfl⟩ := List.mem_map.mp hn
    exact Nat.le_zero.mp (hnone i hi)
  omega

theorem load_eq_zero (h : ∀ i ∈ pending threads, weight i = 0) : load weight threads = 0 := by
  apply List.sum_eq_zero
  intro n hn
  obtain ⟨i, hi, rfl⟩ := List.mem_map.mp hn
  exact h i hi

theorem load_mono {weight' : ι → ℕ} (h : ∀ i ∈ pending threads, weight i ≤ weight' i) :
    load weight threads ≤ load weight' threads := List.sum_le_sum h

/-! ### Stages -/

/-- A program in stages: what an instruction leads to, up to stage `last`, comes no later than the
instructions behind it, from stage `first` on. None leads beyond stage `bound`. -/
structure InStages (first last : ι → ℕ) (bound : ℕ) (program : List ι) : Prop where
  ordered : program.Pairwise fun i j => last i ≤ first j
  bounded : ∀ i ∈ program, last i ≤ bound

def Staged (first last : ι → ℕ) (threads : List (List ι)) : Prop :=
  ∀ program ∈ threads, program.Pairwise fun i j => last i ≤ first j

variable {first last : ι → ℕ} {program : List ι}

theorem inStages_nil {bound : ℕ} : InStages first last bound [] :=
  ⟨List.Pairwise.nil, fun _ hi => by cases hi⟩

theorem inStages_one {bound : ℕ} (h : last i ≤ bound) : InStages first last bound [i] :=
  ⟨List.pairwise_singleton _ _, fun _ hj => (List.mem_singleton.mp hj).symm ▸ h⟩

theorem InStages.cons {bound : ℕ} (h : InStages first last bound program) (hi : last i ≤ bound)
    (hbehind : ∀ j ∈ program, last i ≤ first j) : InStages first last bound (i :: program) := by
  refine ⟨List.pairwise_cons.mpr ⟨hbehind, h.ordered⟩, fun j hj => ?_⟩
  rcases List.mem_cons.mp hj with rfl | hj
  · exact hi
  · exact h.bounded j hj

theorem inStages_two {bound : ℕ} (hi : last i ≤ first j) (hi' : last i ≤ bound)
    (hj : last j ≤ bound) : InStages first last bound [i, j] :=
  (inStages_one hj).cons hi' fun _ h => (List.mem_singleton.mp h).symm ▸ hi

theorem InStages.append {bound : ℕ} {before after : List ι}
    (h : InStages first last bound before) (h' : InStages first last bound after)
    (hbehind : ∀ i ∈ before, ∀ j ∈ after, last i ≤ first j) :
    InStages first last bound (before ++ after) :=
  ⟨List.pairwise_append.mpr ⟨h.ordered, h'.ordered, hbehind⟩, fun i hi =>
    (List.mem_append.mp hi).elim (h.bounded i) (h'.bounded i)⟩

theorem InStages.mono {bound bound' : ℕ} (h : InStages first last bound program)
    (hle : bound ≤ bound') : InStages first last bound' program :=
  ⟨h.ordered, fun i hi => (h.bounded i hi).trans hle⟩

theorem inStages_of_last_eq_zero {bound : ℕ} (h : ∀ j ∈ program, last j = 0) :
    InStages first last bound program :=
  ⟨List.pairwise_of_forall_mem_list fun i hi _ _ => (h i hi).symm ▸ Nat.zero_le _,
    fun i hi => (h i hi).symm ▸ Nat.zero_le _⟩

theorem Staged.spawn {bound : ℕ} (h : Staged first last threads)
    (hprogram : InStages first last bound program) : Staged first last (spawn program threads) := by
  intro p hp
  unfold Threads.spawn at hp
  split_ifs at hp
  · exact h p hp
  · rcases List.mem_append.mp hp with hp | hp
    · exact h p hp
    · rw [List.mem_singleton.mp hp]
      exact hprogram.ordered

theorem Staged.resume {k : ℕ} {rest : List ι} (h : Staged first last threads)
    (hk : threads[k]? = some (i :: rest)) (hpushed : InStages first last (last i) pushed) :
    Staged first last (resume k (pushed ++ rest) threads) := by
  obtain ⟨hbehind, hrest⟩ := List.pairwise_cons.mp (h _ (List.mem_of_getElem? hk))
  intro p hp
  unfold Threads.resume at hp
  split_ifs at hp
  · exact h p (List.mem_of_mem_eraseIdx hp)
  · rcases List.mem_or_eq_of_mem_set hp with hp | rfl
    · exact h p hp
    · exact List.pairwise_append.mpr ⟨hpushed.ordered, hrest, fun j hj j' hj' =>
        (hpushed.bounded j hj).trans (hbehind j' hj')⟩

theorem Staged.behind {k : ℕ} {rest : List ι} (h : Staged first last threads)
    (hk : threads[k]? = some (i :: rest)) (hj : j ∈ rest) : last i ≤ first j :=
  (List.pairwise_cons.mp (h _ (List.mem_of_getElem? hk))).1 j hj

/-! ### What is left to do behind an instruction -/

section Followed

variable {δ : Type*} {needs : ι → List δ} {meets : ι → Option δ} {beyond beyond' : List δ}
  {before after rest : List ι}

/-- Each need of an instruction is met by one behind it, in the program or beyond. -/
def Followed (needs : ι → List δ) (meets : ι → Option δ) (beyond : List δ) : List ι → Prop
  | [] => True
  | i :: rest => (∀ d ∈ needs i, d ∈ beyond ∨ ∃ j ∈ rest, meets j = some d) ∧
      Followed needs meets beyond rest

theorem Followed.append (h : Followed needs meets beyond before)
    (hbeyond : ∀ d ∈ beyond, d ∈ beyond' ∨ ∃ j ∈ after, meets j = some d)
    (h' : Followed needs meets beyond' after) : Followed needs meets beyond' (before ++ after) := by
  induction before with
  | nil => exact h'
  | cons i before ih =>
    obtain ⟨hi, hrest⟩ := h
    refine ⟨fun d hd => ?_, ih hrest⟩
    rcases hi d hd with hd | ⟨j, hj, hmeets⟩
    · exact (hbeyond d hd).imp_right fun ⟨j, hj, hmeets⟩ => ⟨j, List.mem_append_right _ hj, hmeets⟩
    · exact Or.inr ⟨j, List.mem_append_left _ hj, hmeets⟩

theorem followed_of_needs_eq_nil (h : ∀ i ∈ program, needs i = []) :
    Followed needs meets beyond program := by
  induction program with
  | nil => trivial
  | cons i rest ih =>
    refine ⟨fun d hd => ?_, ih fun j hj => h j (List.mem_cons_of_mem i hj)⟩
    rw [h i List.mem_cons_self] at hd
    cases hd

/-- Every program left meets its own needs. -/
def AllFollowed (needs : ι → List δ) (meets : ι → Option δ) (threads : List (List ι)) : Prop :=
  ∀ program ∈ threads, Followed needs meets [] program

theorem AllFollowed.spawn (h : AllFollowed needs meets threads)
    (hprogram : Followed needs meets [] program) :
    AllFollowed needs meets (spawn program threads) := by
  intro p hp
  unfold Threads.spawn at hp
  split_ifs at hp
  · exact h p hp
  · rcases List.mem_append.mp hp with hp | hp
    · exact h p hp
    · rw [List.mem_singleton.mp hp]
      exact hprogram

theorem AllFollowed.behind {k : ℕ} {d : δ} (h : AllFollowed needs meets threads)
    (hk : threads[k]? = some (i :: rest)) (hd : d ∈ needs i) : ∃ j ∈ rest, meets j = some d :=
  ((h _ (List.mem_of_getElem? hk)).1 d hd).resolve_left List.not_mem_nil

/-- What an instruction leads to may need what the instruction itself needed. -/
theorem AllFollowed.resume {k : ℕ} (h : AllFollowed needs meets threads)
    (hk : threads[k]? = some (i :: rest)) (hpushed : Followed needs meets (needs i) pushed) :
    AllFollowed needs meets (resume k (pushed ++ rest) threads) := by
  intro p hp
  unfold Threads.resume at hp
  split_ifs at hp
  · exact h p (List.mem_of_mem_eraseIdx hp)
  · rcases List.mem_or_eq_of_mem_set hp with hp | rfl
    · exact h p hp
    · obtain ⟨hi, hrest⟩ := h _ (List.mem_of_getElem? hk)
      exact hpushed.append hi hrest

end Followed

/-! ### One thread -/

theorem length_resume_le {k : ℕ} (program : List ι) :
    (resume k program threads).length ≤ threads.length := by
  unfold resume
  split_ifs
  · exact List.length_eraseIdx_le threads k
  · rw [List.length_set]

theorem eq_of_alone {k : ℕ} {rest : List ι} (hone : threads.length ≤ 1)
    (hk : threads[k]? = some (i :: rest)) : threads = [i :: rest] := by
  obtain ⟨hlt, hget⟩ := List.getElem?_eq_some_iff.mp hk
  obtain rfl : k = 0 := by omega
  obtain ⟨program, rfl⟩ : ∃ program, threads = [program] := List.length_eq_one_iff.mp (by omega)
  exact congrArg (fun p => [p]) hget

theorem mem_of_alone (hone : threads.length ≤ 1) (h : program ∈ threads) :
    program = pending threads := by
  obtain ⟨program', rfl⟩ : ∃ program', threads = [program'] :=
    List.length_eq_one_iff.mp (le_antisymm hone (List.length_pos_of_mem h))
  rw [List.mem_singleton.mp h]
  exact (List.append_nil _).symm

theorem pending_resume_of_alone {k : ℕ} {rest : List ι} (hone : threads.length ≤ 1)
    (hk : threads[k]? = some (i :: rest)) (program : List ι) :
    pending (resume k program threads) = program := by
  have hthreads := eq_of_alone hone hk
  obtain ⟨hlt, -⟩ := List.getElem?_eq_some_iff.mp hk
  obtain rfl : k = 0 := by omega
  rw [hthreads, resume]
  split_ifs with hnil
  · rw [hnil]
    rfl
  · simp [pending]

end MediafireSdk.Threads
