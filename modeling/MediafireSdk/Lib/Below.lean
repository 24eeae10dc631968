import Mathlib.Tactic

/-! Finite trees that are only known through their nodes' children. `Below` lists what is below
some roots, each node as often as it is reached, and exists only where the trees are finite. -/

namespace MediafireSdk.Trees

variable {α β : Type*}

/-- `below` is everything below the roots; a child stands for the tree that `root` names. -/
inductive Below (children : α → List β) (root : β → α) : (roots : List α) → (below : List β) → Prop
  | nil : Below children root [] []
  | cons {a as below rest} : Below children root ((children a).map root) below →
      Below children root as rest → Below children root (a :: as) (children a ++ below ++ rest)

variable {children : α → List β} {root : β → α} {as bs : List α} {a : α} {below below' : List β}

theorem Below.append (h : Below children root as below) (h' : Below children root bs below') :
    Below children root (as ++ bs) (below ++ below') := by
  induction h with
  | nil => exact h'
  | cons hfirst _ _ ih =>
    rw [List.append_assoc]
    exact .cons hfirst ih

theorem Below.uncons (h : Below children root (a :: as) below) :
    ∃ first rest, Below children root ((children a).map root) first ∧
      Below children root as rest ∧ below = children a ++ first ++ rest := by
  cases h with
  | cons hfirst hrest => exact ⟨_, _, hfirst, hrest, rfl⟩

/-- The order of the roots is the order of what is below them. -/
theorem Below.perm (hperm : as.Perm bs) (h : Below children root as below) :
    ∃ below', Below children root bs below' ∧ below.Perm below' := by
  induction hperm generalizing below with
  | nil => exact ⟨below, h, .refl _⟩
  | cons a _ ih =>
    obtain ⟨first, rest, hfirst, hrest, rfl⟩ := h.uncons
    obtain ⟨rest', hrest', hperm⟩ := ih hrest
    exact ⟨_, .cons hfirst hrest', hperm.append_left _⟩
  | swap a b l =>
    obtain ⟨first, rest, hfirst, hrest, rfl⟩ := h.uncons
    obtain ⟨second, rest', hsecond, hrest', rfl⟩ := hrest.uncons
    refine ⟨_, .cons hsecond (.cons hfirst hrest'), ?_⟩
    have hcomm : (children b ++ first ++ (children a ++ second)).Perm
        (children a ++ second ++ (children b ++ first)) := List.perm_append_comm
    simpa only [List.append_assoc] using hcomm.append_right rest'
  | trans _ _ ih ih' =>
    obtain ⟨middle, hmiddle, hperm⟩ := ih h
    obtain ⟨last, hlast, hperm'⟩ := ih' hmiddle
    exact ⟨last, hlast, hperm.trans hperm'⟩

end MediafireSdk.Trees
