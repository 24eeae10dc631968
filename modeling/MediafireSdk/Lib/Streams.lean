import Mathlib.Tactic

/-! Byte streams that arrive in packets. A read of an exact amount and a read up to
a delimiter move bytes from the packets to a buffer; the first gives the same for
every cut into packets, the second may read more than it needs. Both end with an
error when the peer closes the connection first, and never when it stays silent. -/

namespace MediafireSdk.Streams

variable {α ε : Type*}

/-- What a peer still sends and how it ends; `none` leaves the connection open. -/
structure PacketStream (α ε : Type*) where
  packets : List (List α)
  close : Option ε

/-- A read that has completed. -/
structure Read (α ε : Type*) where
  received : List α
  error : Option ε
  rest : PacketStream α ε

namespace PacketStream

def bytes (s : PacketStream α ε) : List α := s.packets.flatten

/-- The read that finds the stream at its end; it never completes on an open connection. -/
def drained (s : PacketStream α ε) : Option (Read α ε) :=
  s.close.map fun e => { received := s.bytes, error := some e, rest := { s with packets := [] } }

end PacketStream

/-- The first `n` elements and the packets left. -/
def takeBytes : ℕ → List (List α) → List α × List (List α)
  | _, [] => ([], [])
  | n, p :: ps =>
    if n ≤ p.length then (p.take n, p.drop n :: ps)
    else
      let taken := takeBytes (n - p.length) ps
      (p ++ taken.1, taken.2)

/-- Whole packets until the buffer has what is looked for. -/
def takeUntil (found : List α → Bool) : List α → List (List α) → List α × List (List α)
  | _, [] => ([], [])
  | buffer, p :: ps =>
    if found buffer then ([], p :: ps)
    else
      let taken := takeUntil found (buffer ++ p) ps
      (p ++ taken.1, taken.2)

theorem takeBytes_eq (n : ℕ) (ps : List (List α)) :
    (takeBytes n ps).1 = ps.flatten.take n ∧ (takeBytes n ps).2.flatten = ps.flatten.drop n := by
  induction ps generalizing n with
  | nil => simp [takeBytes]
  | cons p ps ih =>
    rw [takeBytes, List.flatten_cons]
    split_ifs with hn
    · rw [List.take_append_of_le_length hn, List.drop_append_of_le_length hn]
      exact ⟨rfl, rfl⟩
    · obtain ⟨htake, hdrop⟩ := ih (n - p.length)
      have hlen : n = p.length + (n - p.length) := by omega
      have hp : p.take n = p := List.take_of_length_le (by omega)
      have hp' : p.drop n = [] := List.drop_of_length_le (by omega)
      dsimp only
      rw [List.take_append, hp, htake, List.drop_append, hp', hdrop]
      exact ⟨rfl, rfl⟩

theorem takeUntil_eq (found : List α → Bool) (buffer : List α) (ps : List (List α)) :
    (takeUntil found buffer ps).1 ++ (takeUntil found buffer ps).2.flatten = ps.flatten ∧
      (found (buffer ++ (takeUntil found buffer ps).1) = true ∨
        (takeUntil found buffer ps).2 = []) := by
  induction ps generalizing buffer with
  | nil => simp [takeUntil]
  | cons p ps ih =>
    rw [takeUntil]
    split_ifs with hfound
    · exact ⟨rfl, .inl (by rw [List.append_nil]; exact hfound)⟩
    · obtain ⟨hsplit, hend⟩ := ih (buffer ++ p)
      dsimp only
      rw [List.append_assoc, hsplit, ← List.append_assoc, List.flatten_cons]
      exact ⟨rfl, hend⟩

namespace PacketStream

/-- A read of exactly `n` elements. -/
def readExactly (s : PacketStream α ε) (n : ℕ) : Option (Read α ε) :=
  let taken := takeBytes n s.packets
  if taken.1.length = n then
    some { received := taken.1, error := none, rest := { s with packets := taken.2 } }
  else s.drained

/-- A read that completes when the buffer has what is looked for. -/
def readUntil (s : PacketStream α ε) (found : List α → Bool) (buffer : List α) : Option (Read α ε) :=
  let taken := takeUntil found buffer s.packets
  if found (buffer ++ taken.1) then
    some { received := taken.1, error := none, rest := { s with packets := taken.2 } }
  else s.drained

variable {s : PacketStream α ε}

theorem readExactly_of_le {n : ℕ} (h : n ≤ s.bytes.length) :
    ∃ rest, s.readExactly n = some ⟨s.bytes.take n, none, rest⟩ ∧ rest.bytes = s.bytes.drop n ∧
      rest.close = s.close := by
  obtain ⟨htake, hdrop⟩ := takeBytes_eq n s.packets
  have hlen : (takeBytes n s.packets).1.length = n := by
    rw [htake, List.length_take]
    exact Nat.min_eq_left h
  refine ⟨{ s with packets := (takeBytes n s.packets).2 }, ?_, hdrop, rfl⟩
  simp only [readExactly, hlen, if_true]
  rw [htake, bytes]

theorem readExactly_of_lt {n : ℕ} (h : s.bytes.length < n) : s.readExactly n = s.drained := by
  obtain ⟨htake, -⟩ := takeBytes_eq n s.packets
  have hlen : (takeBytes n s.packets).1.length ≠ n := by
    rw [htake, List.length_take]
    change min n s.bytes.length ≠ n
    omega
  simp only [readExactly, hlen, if_false]

/-- What a read takes from the packets. -/
structure Taken (s : PacketStream α ε) (read : Read α ε) : Prop where
  bytes : read.received ++ read.rest.bytes = s.bytes
  all : read.error.isSome → read.rest.bytes = []

theorem drained_taken {read : Read α ε} (h : s.drained = some read) : s.Taken read := by
  obtain ⟨e, -, rfl⟩ := Option.map_eq_some_iff.mp h
  exact ⟨List.append_nil _, fun _ => rfl⟩

theorem readExactly_taken {n : ℕ} {read : Read α ε} (h : s.readExactly n = some read) :
    s.Taken read ∧ read.received.length ≤ n := by
  rcases Nat.lt_or_ge s.bytes.length n with hlt | hle
  · rw [readExactly_of_lt hlt] at h
    have htaken := drained_taken h
    refine ⟨htaken, ?_⟩
    have := congrArg List.length htaken.bytes
    rw [List.length_append] at this
    omega
  · obtain ⟨rest, hread, hrest, -⟩ := readExactly_of_le hle
    cases hread.symm.trans h
    refine ⟨⟨?_, nofun⟩, List.length_take_le _ _⟩
    rw [hrest, List.take_append_drop]

theorem readUntil_taken {found : List α → Bool} {buffer : List α} {read : Read α ε}
    (h : s.readUntil found buffer = some read) :
    s.Taken read ∧ (read.error = none → found (buffer ++ read.received) = true) := by
  obtain ⟨hsplit, -⟩ := takeUntil_eq found buffer s.packets
  unfold readUntil at h
  dsimp only at h
  split_ifs at h with hfound
  · cases h
    exact ⟨⟨hsplit, nofun⟩, fun _ => hfound⟩
  · refine ⟨drained_taken h, fun hnone => ?_⟩
    obtain ⟨e, -, rfl⟩ := Option.map_eq_some_iff.mp h
    cases hnone

theorem readExactly_error {n : ℕ} {read : Read α ε} (h : s.readExactly n = some read) :
    (read.error = none ↔ n ≤ s.bytes.length) ∧ ∀ e, read.error = some e → s.close = some e := by
  rcases Nat.lt_or_ge s.bytes.length n with hlt | hle
  · rw [readExactly_of_lt hlt] at h
    obtain ⟨e, hclose, rfl⟩ := Option.map_eq_some_iff.mp h
    refine ⟨iff_of_false (Option.some_ne_none e) (not_le.mpr hlt), fun e' he => ?_⟩
    cases he
    exact hclose
  · obtain ⟨rest, hread, -, -⟩ := readExactly_of_le hle
    cases hread.symm.trans h
    exact ⟨iff_of_true rfl hle, nofun⟩

/-- A read that fails has all the bytes, and has not found what it looks for. -/
theorem readUntil_error {found : List α → Bool} {buffer : List α} {read : Read α ε}
    (h : s.readUntil found buffer = some read) {e : ε} (he : read.error = some e) :
    s.close = some e ∧ read.received = s.bytes ∧ read.rest.bytes = [] ∧
      found (buffer ++ s.bytes) = false := by
  obtain ⟨hsplit, hend⟩ := takeUntil_eq found buffer s.packets
  unfold readUntil at h
  dsimp only at h
  split_ifs at h with hfound
  · cases h
    cases he
  · obtain ⟨e', hclose, rfl⟩ := Option.map_eq_some_iff.mp h
    cases he
    rw [hend.resolve_left hfound, List.flatten_nil, List.append_nil] at hsplit
    rw [hsplit] at hfound
    exact ⟨hclose, rfl, rfl, Bool.eq_false_of_not_eq_true hfound⟩

theorem drained_of_close {e : ε} (h : s.close = some e) :
    s.drained = some ⟨s.bytes, some e, { packets := [], close := some e }⟩ := by
  rw [drained, h]
  rfl

/-- Something that is there is found, with as much more as the packets bring. -/
theorem readUntil_of_found {found : List α → Bool} {buffer : List α}
    (h : found (buffer ++ s.bytes) = true) :
    ∃ received rest, s.readUntil found buffer = some ⟨received, none, rest⟩ ∧
      received ++ rest.bytes = s.bytes ∧ found (buffer ++ received) = true ∧
      rest.close = s.close := by
  obtain ⟨hsplit, hend⟩ := takeUntil_eq found buffer s.packets
  have hfound : found (buffer ++ (takeUntil found buffer s.packets).1) = true := by
    refine hend.elim id fun hnil => ?_
    rw [hnil, List.flatten_nil, List.append_nil] at hsplit
    rw [hsplit]
    exact h
  refine ⟨_, { s with packets := (takeUntil found buffer s.packets).2 }, ?_, hsplit, hfound, rfl⟩
  simp only [readUntil, hfound, if_true]

/-- What is not there is not found before the end. -/
theorem readUntil_of_not_found {found : List α → Bool} {buffer : List α}
    (hmono : ∀ xs ys, found xs = true → found (xs ++ ys) = true)
    (h : found (buffer ++ s.bytes) = false) : s.readUntil found buffer = s.drained := by
  obtain ⟨hsplit, -⟩ := takeUntil_eq found buffer s.packets
  have hfound : found (buffer ++ (takeUntil found buffer s.packets).1) = false := by
    by_contra hne
    have hall := hmono _ (takeUntil found buffer s.packets).2.flatten (by simpa using hne)
    rw [List.append_assoc, hsplit] at hall
    exact absurd (hall.symm.trans h) (by decide)
  simp [readUntil, hfound]

end PacketStream

end MediafireSdk.Streams
