import Mathlib.Data.List.AList
import Mathlib.Tactic

/-! Tables: finite maps in which an insertion leaves an entry that is already there.
What the entries of a table add up to is a sum of weights; an insertion adds at most
the weight of its value and a removal takes away the weight of what was found. -/

namespace MediafireSdk

/-- `std::map`; with values that no function reads it is a `std::set`. -/
abbrev Table (κ ν : Type) := AList fun _ : κ => ν

namespace Table

variable {κ ν : Type}

def values (t : Table κ ν) : List ν := t.entries.map Sigma.snd

def size (t : Table κ ν) : ℕ := t.entries.length

/-- The sum of the weights of the values. -/
def weigh (weight : ν → ℕ) (t : Table κ ν) : ℕ := (t.values.map weight).sum

theorem size_eq_weigh (t : Table κ ν) : t.size = t.weigh fun _ => 1 := by
  rw [weigh, List.map_const', List.sum_replicate, values, List.length_map, smul_eq_mul, mul_one, size]

@[simp] theorem size_empty : (∅ : Table κ ν).size = 0 := rfl

@[simp] theorem weigh_empty (weight : ν → ℕ) : (∅ : Table κ ν).weigh weight = 0 := rfl

variable [DecidableEq κ] {t : Table κ ν} {k k' : κ} {v v' : ν}

def find? (k : κ) (t : Table κ ν) : Option ν := AList.lookup k t

/-- `insert` of the standard containers: nothing happens when the key is there. -/
def add (k : κ) (v : ν) (t : Table κ ν) : Table κ ν := if k ∈ t then t else AList.insert k v t

def erase (k : κ) (t : Table κ ν) : Table κ ν := AList.erase k t

@[simp] theorem find?_empty : (∅ : Table κ ν).find? k = none := rfl

theorem mem_of_find? (h : t.find? k = some v) : k ∈ t := by
  rw [← AList.lookup_isSome, ← find?, h]
  rfl

theorem exists_find? (h : k ∈ t) : ∃ v, t.find? k = some v :=
  Option.isSome_iff_exists.mp (AList.lookup_isSome.mpr h)

theorem mem_add : k' ∈ t.add k v ↔ k' = k ∨ k' ∈ t := by
  unfold add
  split_ifs with h
  · refine ⟨Or.inr, ?_⟩
    rintro (rfl | h')
    · exact h
    · exact h'
  · exact AList.mem_insert t

theorem mem_erase : k' ∈ t.erase k ↔ k' ≠ k ∧ k' ∈ t := AList.mem_erase

theorem find?_add (h : (t.add k v).find? k' = some v') :
    (k' = k ∧ k ∉ t ∧ v' = v) ∨ t.find? k' = some v' := by
  unfold add at h
  split_ifs at h with hk
  · exact Or.inr h
  · by_cases heq : k' = k
    · subst heq
      rw [find?, AList.lookup_insert] at h
      exact Or.inl ⟨rfl, hk, (Option.some.inj h).symm⟩
    · rw [find?, AList.lookup_insert_ne heq] at h
      exact Or.inr h

theorem find?_add_self (h : k ∉ t) : (t.add k v).find? k = some v := by
  rw [add, if_neg h, find?, AList.lookup_insert]

theorem find?_add_of_find? (h : t.find? k' = some v') : (t.add k v).find? k' = some v' := by
  unfold add
  split_ifs with hk
  · exact h
  · have hne : k' ≠ k := by
      rintro rfl
      exact hk (mem_of_find? h)
    rw [find?, AList.lookup_insert_ne hne]
    exact h

/-- What is left after a removal was there before, under another key. -/
theorem find?_erase (h : (t.erase k).find? k' = some v) : k' ≠ k ∧ t.find? k' = some v := by
  by_cases heq : k' = k
  · subst heq
    rw [find?, erase, AList.lookup_erase] at h
    cases h
  · rw [find?, erase, AList.lookup_erase_ne heq] at h
    exact ⟨heq, h⟩

theorem find?_erase_of_ne (h : k' ≠ k) : (t.erase k).find? k' = t.find? k' :=
  AList.lookup_erase_ne h

theorem exists_find?_of_mem_values (h : v ∈ t.values) : ∃ k, t.find? k = some v := by
  obtain ⟨⟨k, v⟩, hmem, rfl⟩ := List.mem_map.mp h
  exact ⟨k, AList.mem_lookup_iff.mpr hmem⟩

theorem weigh_add_of_notMem (weight : ν → ℕ) (h : k ∉ t) :
    (t.add k v).weigh weight = t.weigh weight + weight v := by
  have hentries : (t.add k v).entries = ⟨k, v⟩ :: t.entries := by
    rw [add, if_neg h, AList.entries_insert_of_notMem h]
  rw [weigh, values, hentries, List.map_cons, List.map_cons, List.sum_cons, weigh, values]
  exact Nat.add_comm _ _

theorem weigh_add_le (weight : ν → ℕ) : (t.add k v).weigh weight ≤ t.weigh weight + weight v := by
  by_cases h : k ∈ t
  · rw [add, if_pos h]
    exact Nat.le_add_right _ _
  · exact (weigh_add_of_notMem weight h).le

theorem weigh_erase (weight : ν → ℕ) (h : t.find? k = some v) :
    (t.erase k).weigh weight + weight v = t.weigh weight := by
  obtain ⟨w, before, after, -, hentries, herase⟩ :=
    List.exists_of_kerase (AList.mem_keys.mp (mem_of_find? h))
  have hw : w = v := by
    have hfind : t.find? k = some w := by
      rw [find?, ← Option.mem_def, AList.mem_lookup_iff, hentries]
      simp
    rw [hfind] at h
    exact Option.some.inj h
  subst hw
  have herase' : (t.erase k).entries = before ++ after := herase
  simp only [weigh, values, hentries, herase', List.map_append, List.map_cons, List.sum_append,
    List.sum_cons]
  omega

theorem weigh_erase_le (weight : ν → ℕ) (k : κ) :
    (t.erase k).weigh weight ≤ t.weigh weight := by
  by_cases h : k ∈ t
  · obtain ⟨v, hv⟩ := exists_find? h
    have hsum := weigh_erase weight hv
    omega
  · have heq : (t.erase k).entries = t.entries :=
      List.kerase_of_notMem_keys fun hk => h (AList.mem_keys.mpr hk)
    rw [weigh, values, heq, weigh, values]

/-- The weight of one entry is part of the sum. -/
theorem le_weigh (weight : ν → ℕ) (h : t.find? k = some v) : weight v ≤ t.weigh weight :=
  (weigh_erase weight h) ▸ Nat.le_add_left _ _

/-- Two entries weigh no more than all. -/
theorem add_le_weigh (weight : ν → ℕ) (h : t.find? k = some v) (h' : t.find? k' = some v')
    (hne : k' ≠ k) : weight v + weight v' ≤ t.weigh weight := by
  have hrest : (t.erase k).find? k' = some v' := by rw [find?_erase_of_ne hne, h']
  have hle := le_weigh weight hrest
  have hsum := weigh_erase weight h
  omega

end Table

end MediafireSdk
