import Mathlib.Data.List.Destutter
import Mathlib.Tactic

/-! `RepartitionIntersection` (`container_algorithms.hpp`): two sorted containers are merged into
what only one of them has and what both have. Containers are lists; `operator==` may hold of
elements that differ. -/

namespace MediafireSdk.Utils.ContainerAlgorithms

variable {α : Type*} [BEq α]

/-- `std::unique`: the first element of each group of consecutive equal ones. -/
def unique (container : List α) : List α := container.destutter fun x y => ¬ (x == y) = true

/-- `a_unique`, `b_unique` and `intersection`. -/
structure Parts (α : Type*) where
  aUnique : List α := []
  bUnique : List α := []
  intersection : List α
  deriving DecidableEq, Repr

/-- The loops over the two containers. -/
def repartition (compare : α → α → Bool) : List α → List α → Parts α → Parts α
  | a :: as, b :: bs, parts =>
    if a == b then
      repartition compare as bs { parts with intersection := parts.intersection ++ [a] }
    else if compare a b then
      repartition compare as (b :: bs) { parts with aUnique := parts.aUnique ++ [a] }
    else repartition compare (a :: as) bs { parts with bUnique := parts.bUnique ++ [b] }
  | as, bs, parts =>
    { parts with aUnique := parts.aUnique ++ as, bUnique := parts.bUnique ++ bs }
  termination_by as bs => as.length + bs.length

/-- The containers behind the call. -/
def repartitionIntersection (compare : α → α → Bool) (sortedA sortedB intersection : List α) :
    Parts α :=
  repartition compare (unique sortedA) (unique sortedB) { intersection }

/-! ### Orders -/

/-- A strict order that is total up to `operator==`. -/
structure TotalOrder (compare : α → α → Bool) : Prop where
  irrefl : ∀ x : α, compare x x = false
  trans : ∀ {x y z : α}, compare x y = true → compare y z = true → compare x z = true
  equiv : ∀ {x y : α}, (x == y) = true ↔ compare x y = false ∧ compare y x = false
  equiv_trans : ∀ {x y z : α}, (x == y) = true → (y == z) = true → (x == z) = true

def Sorted (compare : α → α → Bool) (container : List α) : Prop :=
  container.Pairwise fun x y => compare y x = false

/-- Sorted, without equal elements. -/
def StrictlySorted (compare : α → α → Bool) (container : List α) : Prop :=
  container.Pairwise fun x y => compare x y = true

/-- An element of the container is equal to `x`. -/
def Occurs (x : α) (container : List α) : Prop := ∃ y ∈ container, (x == y) = true

@[simp] theorem occurs_nil (x : α) : ¬ Occurs x [] := by
  rintro ⟨y, hy, -⟩
  cases hy

@[simp] theorem occurs_cons (x y : α) (container : List α) :
    Occurs x (y :: container) ↔ (x == y) = true ∨ Occurs x container := by
  simp [Occurs]

theorem Occurs.mono {x : α} {l l' : List α} (h : Occurs x l) (hsub : l.Sublist l') :
    Occurs x l' := by
  obtain ⟨y, hy, hxy⟩ := h
  exact ⟨y, hsub.subset hy, hxy⟩

theorem unique_sublist (container : List α) : (unique container).Sublist container :=
  List.destutter_sublist _ _

namespace TotalOrder

variable {compare : α → α → Bool} (order : TotalOrder compare) {x y z : α}

include order

theorem refl (x : α) : (x == x) = true := order.equiv.mpr ⟨order.irrefl x, order.irrefl x⟩

theorem symm (h : (x == y) = true) : (y == x) = true := order.equiv.mpr (order.equiv.mp h).symm

theorem ne_of_lt (h : compare x y = true) : ¬ (x == y) = true := by
  intro heq
  rw [(order.equiv.mp heq).1] at h
  cases h

theorem lt_of_equiv_of_lt (hxy : (x == y) = true) (hyz : compare y z = true) :
    compare x z = true := by
  by_contra hxz
  by_cases hzx : compare z x = true
  · exact order.ne_of_lt (order.trans hyz hzx) (order.symm hxy)
  · have hequiv : (x == z) = true := order.equiv.mpr ⟨by simpa using hxz, by simpa using hzx⟩
    exact order.ne_of_lt hyz (order.equiv_trans (order.symm hxy) hequiv)

theorem not_occurs_of_forall_lt {container : List α} (h : ∀ y ∈ container, compare x y = true)
    (hz : (z == x) = true) : ¬ Occurs z container := by
  rintro ⟨y, hy, hzy⟩
  exact order.ne_of_lt (order.lt_of_equiv_of_lt hz (h y hy)) hzy

/-! ### std::unique -/

theorem unique_strictlySorted {container : List α} (h : Sorted compare container) :
    StrictlySorted compare (unique container) := by
  have hsorted : Sorted compare (unique container) := h.sublist (unique_sublist container)
  have hchain := List.isChain_destutter (fun x y : α => ¬ (x == y) = true) container
  have hlt : (unique container).IsChain fun x y => compare x y = true := by
    unfold unique at hsorted ⊢
    generalize container.destutter (fun x y => ¬ (x == y) = true) = kept at hsorted hchain ⊢
    induction kept with
    | nil => exact .nil
    | cons x kept ih =>
      cases kept with
      | nil => exact .singleton x
      | cons y kept =>
        rw [List.isChain_cons_cons] at hchain ⊢
        obtain ⟨hx, hrest⟩ := List.pairwise_cons.mp hsorted
        refine ⟨?_, ih hrest hchain.2⟩
        by_contra hxy
        exact hchain.1 (order.equiv.mpr ⟨by simpa using hxy, hx y List.mem_cons_self⟩)
  have : Trans (fun x y => compare x y = true) (fun x y => compare x y = true)
      (fun x y => compare x y = true) := ⟨order.trans⟩
  exact hlt.pairwise

/-- An element is kept, or one that it is equal to. -/
theorem occurs_unique_iff (container : List α) (x : α) :
    Occurs x (unique container) ↔ Occurs x container := by
  refine ⟨fun h => h.mono (List.destutter_sublist _ _), fun h => ?_⟩
  have hkept (y : α) (ys : List α) (hx : Occurs x (y :: ys)) :
      Occurs x (ys.destutter' (fun x y => ¬ (x == y) = true) y) := by
    induction ys generalizing y with
    | nil => exact hx
    | cons z ys ih =>
      rw [List.destutter'_cons]
      simp only [occurs_cons] at hx
      split_ifs with hyz
      · refine ih y ?_
        rw [occurs_cons]
        rcases hx with hx | hx | hx
        · exact .inl hx
        · exact .inl (order.equiv_trans hx (order.symm hyz))
        · exact .inr hx
      · rw [occurs_cons]
        rcases hx with hx | hx | hx
        · exact .inl hx
        · exact .inr (ih z (by simp [hx]))
        · exact .inr (ih z (by simp [hx]))
  cases container with
  | nil => exact h
  | cons y ys => exact hkept y ys h

end TotalOrder

/-! ### The merge -/

/-- What two containers are split into. -/
structure Split (as bs aUnique bUnique common : List α) : Prop where
  onlyA : ∀ x, Occurs x aUnique ↔ Occurs x as ∧ ¬ Occurs x bs
  onlyB : ∀ x, Occurs x bUnique ↔ Occurs x bs ∧ ¬ Occurs x as
  both : ∀ x, Occurs x common ↔ Occurs x as ∧ Occurs x bs
  fromA : aUnique.Sublist as
  fromB : bUnique.Sublist bs
  fromBoth : common.Sublist as

namespace TotalOrder

variable {compare : α → α → Bool} (order : TotalOrder compare)

include order

theorem repartition_split {as bs : List α} (has : StrictlySorted compare as)
    (hbs : StrictlySorted compare bs) (parts : Parts α) :
    ∃ aUnique bUnique common, repartition compare as bs parts =
        ⟨parts.aUnique ++ aUnique, parts.bUnique ++ bUnique, parts.intersection ++ common⟩ ∧
      Split as bs aUnique bUnique common := by
  fun_induction repartition compare as bs parts with
  | case1 a as b bs parts heq ih =>
    obtain ⟨ha, has⟩ := List.pairwise_cons.mp has
    obtain ⟨hb, hbs⟩ := List.pairwise_cons.mp hbs
    obtain ⟨aUnique, bUnique, common, hloop, split⟩ := ih has hbs
    have hsame (x : α) : (x == a) = true ↔ (x == b) = true :=
      ⟨fun h => order.equiv_trans h heq, fun h => order.equiv_trans h (order.symm heq)⟩
    have hnotA (x : α) (hx : (x == a) = true) : ¬ Occurs x as := order.not_occurs_of_forall_lt ha hx
    have hnotB (x : α) (hx : (x == b) = true) : ¬ Occurs x bs := order.not_occurs_of_forall_lt hb hx
    refine ⟨aUnique, bUnique, a :: common, by simp [hloop], fun x => ?_, fun x => ?_, fun x => ?_,
      split.fromA.cons a, split.fromB.cons b, split.fromBoth.cons_cons a⟩
    · rw [split.onlyA, occurs_cons, occurs_cons]
      have := hsame x
      have := hnotA x
      grind
    · rw [split.onlyB, occurs_cons, occurs_cons]
      have := hsame x
      have := hnotB x
      grind
    · rw [occurs_cons, split.both, occurs_cons, occurs_cons]
      have := hsame x
      have := hnotA x
      have := hnotB x
      grind
  | case2 a as b bs parts hne hlt ih =>
    obtain ⟨ha, has⟩ := List.pairwise_cons.mp has
    obtain ⟨aUnique, bUnique, common, hloop, split⟩ := ih has hbs
    have hnot (x : α) (hx : (x == a) = true) : ¬ Occurs x (b :: bs) := by
      refine order.not_occurs_of_forall_lt (fun y hy => ?_) hx
      rcases List.mem_cons.mp hy with rfl | hy
      · exact hlt
      · exact order.trans hlt ((List.pairwise_cons.mp hbs).1 y hy)
    refine ⟨a :: aUnique, bUnique, common, by simp [hloop], fun x => ?_, fun x => ?_, fun x => ?_,
      split.fromA.cons_cons a, split.fromB, split.fromBoth.cons a⟩
    · rw [occurs_cons, split.onlyA, occurs_cons x a]
      have := hnot x
      grind
    · rw [split.onlyB, occurs_cons x a]
      have := hnot x
      grind
    · rw [split.both, occurs_cons x a]
      have := hnot x
      grind
  | case3 a as b bs parts hne hlt ih =>
    obtain ⟨hb, hbs⟩ := List.pairwise_cons.mp hbs
    obtain ⟨aUnique, bUnique, common, hloop, split⟩ := ih has hbs
    have hba : compare b a = true := by
      by_contra hba
      exact hne (order.equiv.mpr ⟨by simpa using hlt, by simpa using hba⟩)
    have hnot (x : α) (hx : (x == b) = true) : ¬ Occurs x (a :: as) := by
      refine order.not_occurs_of_forall_lt (fun y hy => ?_) hx
      rcases List.mem_cons.mp hy with rfl | hy
      · exact hba
      · exact order.trans hba ((List.pairwise_cons.mp has).1 y hy)
    refine ⟨aUnique, b :: bUnique, common, by simp [hloop], fun x => ?_, fun x => ?_, fun x => ?_,
      split.fromA, split.fromB.cons_cons b, split.fromBoth⟩
    · rw [split.onlyA, occurs_cons x b]
      have := hnot x
      grind
    · rw [occurs_cons, split.onlyB, occurs_cons x b]
      have := hnot x
      grind
    · rw [split.both, occurs_cons x b]
      have := hnot x
      grind
  | case4 as bs parts hnot =>
    have hempty : as = [] ∨ bs = [] := by
      cases as with
      | nil => exact .inl rfl
      | cons a as =>
        cases bs with
        | nil => exact .inr rfl
        | cons b bs => exact absurd rfl (hnot a as b bs rfl)
    refine ⟨as, bs, [], by simp, fun x => ?_, fun x => ?_, fun x => ?_, List.Sublist.refl _,
      List.Sublist.refl _, List.nil_sublist _⟩
    all_goals rcases hempty with rfl | rfl <;> simp

end TotalOrder

/-- What occurs in one of two containers occurs in exactly one of the three. -/
def Once (x : α) (aUnique bUnique common : List α) : Prop :=
  (Occurs x aUnique ∧ ¬ Occurs x bUnique ∧ ¬ Occurs x common) ∨
    (¬ Occurs x aUnique ∧ Occurs x bUnique ∧ ¬ Occurs x common) ∨
    (¬ Occurs x aUnique ∧ ¬ Occurs x bUnique ∧ Occurs x common)

theorem Split.once {a b aUnique bUnique common : List α} (split : Split a b aUnique bUnique common)
    {x : α} (h : Occurs x a ∨ Occurs x b) : Once x aUnique bUnique common := by
  rw [Once, split.onlyA, split.onlyB, split.both]
  grind

/-- What the call leaves in the containers, where `c` was in the third one: the common elements
stand behind it. -/
structure Repartitioned (compare : α → α → Bool) (a b c : List α) (parts : Parts α)
    (common : List α) : Prop where
  intersection : parts.intersection = c ++ common
  sortedA : StrictlySorted compare parts.aUnique
  sortedB : StrictlySorted compare parts.bUnique
  sortedBoth : StrictlySorted compare common
  split : Split a b parts.aUnique parts.bUnique common
  once : ∀ x, Occurs x a ∨ Occurs x b → Once x parts.aUnique parts.bUnique common

theorem repartitionIntersection_repartitioned {compare : α → α → Bool} (order : TotalOrder compare)
    {a b : List α} (ha : Sorted compare a) (hb : Sorted compare b) (c : List α) :
    ∃ common, Repartitioned compare a b c (repartitionIntersection compare a b c) common := by
  have hua := order.unique_strictlySorted ha
  have hub := order.unique_strictlySorted hb
  obtain ⟨aUnique, bUnique, common, hloop, split⟩ :=
    order.repartition_split hua hub { intersection := c }
  have hsplit : Split a b aUnique bUnique common := by
    refine ⟨fun x => ?_, fun x => ?_, fun x => ?_, split.fromA.trans (unique_sublist a),
      split.fromB.trans (unique_sublist b), split.fromBoth.trans (unique_sublist a)⟩
    · rw [split.onlyA, order.occurs_unique_iff, order.occurs_unique_iff]
    · rw [split.onlyB, order.occurs_unique_iff, order.occurs_unique_iff]
    · rw [split.both, order.occurs_unique_iff, order.occurs_unique_iff]
  rw [repartitionIntersection, hloop]
  exact ⟨common, rfl, hua.sublist split.fromA, hub.sublist split.fromB,
    hua.sublist split.fromBoth, hsplit, fun x => hsplit.once⟩

theorem totalOrder_nat : TotalOrder fun x y : ℕ => decide (x < y) where
  irrefl := by simp
  trans := by
    intro x y z hxy hyz
    simp only [decide_eq_true_eq] at *
    omega
  equiv := by
    intro x y
    simp only [beq_iff_eq, decide_eq_false_iff_not]
    omega
  equiv_trans := by
    intro x y z hxy hyz
    simp only [beq_iff_eq] at *
    omega

theorem repartitionIntersection_threeToFive : ∃ common, Repartitioned (fun x y => decide (x < y))
    [1, 2, 2, 3] [3, 4, 4, 5] [9]
    (repartitionIntersection (fun x y => decide (x < y)) [1, 2, 2, 3] [3, 4, 4, 5] [9]) common :=
  repartitionIntersection_repartitioned totalOrder_nat (by simp [Sorted]) (by simp [Sorted]) [9]

end MediafireSdk.Utils.ContainerAlgorithms
