import MediafireSdk.Http.PostWaits
import MediafireSdk.Uploader.ShortFiles

/-! A range of a file on its way to the server: `SendPost` over an `UploadPostDataPipe`. A bad
pointer of the pipe says no more than that there is no buffer. The state counts the bytes that it
has got, so it is left with `PostSent` when the range is sent and with an error when a read has
fallen short. -/

namespace MediafireSdk.Uploader

open Runs Ranges Words Utils Http Http.Machine

/-- A request, the pipe of its POST, and how often it has been asked. -/
structure Transfer where
  machine : Machine
  pipe : UploadPostDataPipe
  calls : ℕ := 0

namespace Transfer

/-- A pipe on a file that has been opened and brought to the start of the range. -/
def create (cfg : Config) (time : ℕ) (content : List UInt8) (startByte endByte : ℕ) : Transfer :=
  let pipe := UploadPostDataPipe.create { content := content, pos := startByte } startByte endByte
  { machine := Machine.create (cfg.setPost (.pipe pipe.postDataSize)) time, pipe := pipe }

/-- A step of the request; what it gets from the pipe is what the disk of the moment has. -/
def step (content : List UInt8) (disks : ℕ → Disk) (t : Transfer) (a : Act) : Option Transfer :=
  match t.machine.asks, a with
  | some _, .proceed answer =>
    let (buffer, pipe) := (t.pipe.onDisk content (disks t.calls)).chunk
    (t.machine.step (.proceed { answer with chunk := .data (buffer.getD []) })).map
      fun machine => { machine := machine, pipe := pipe, calls := t.calls + 1 }
  | _, _ => (t.machine.step a).map fun machine => { t with machine := machine }

/-- What a step does: something else, or a call of the pipe. -/
inductive Stepped (content : List UInt8) (disks : ℕ → Disk) (t : Transfer) : Act → Transfer → Prop
  | other (a : Act) (machine : Machine) (hstep : t.machine.step a = some machine)
      (hasks : ∀ answer, a = .proceed answer → t.machine.asks = none) :
      Stepped content disks t a { t with machine := machine }
  | asked (answer : Answer) (first : Bool) (machine : Machine)
      (called : Option (List UInt8) × UploadPostDataPipe)
      (hcalled : (t.pipe.onDisk content (disks t.calls)).chunk = called)
      (hasks : t.machine.asks = some first)
      (hstep : t.machine.step (.proceed { answer with chunk := .data (called.1.getD []) }) =
        some machine) :
      Stepped content disks t (.proceed answer)
        { machine := machine, pipe := called.2, calls := t.calls + 1 }

section Steps
variable {content : List UInt8} {disks : ℕ → Disk} {t t' : Transfer} {a : Act}

theorem step_cases (h : t.step content disks a = some t') : Stepped content disks t a t' := by
  unfold step at h
  split at h
  case h_1 first answer hasks =>
    obtain ⟨machine, hstep, rfl⟩ := Option.map_eq_some_iff.mp h
    exact .asked answer first machine _ rfl hasks hstep
  case h_2 hnot =>
    obtain ⟨machine, hstep, rfl⟩ := Option.map_eq_some_iff.mp h
    refine .other _ machine hstep fun answer heq => ?_
    cases hasks : t.machine.asks with
    | none => rfl
    | some first => exact absurd heq (hnot first answer hasks)

/-- What a transfer keeps. -/
structure Feeding (content : List UInt8) (cfg : Config) (startByte endByte : ℕ) (t : Transfer) :
    Prop where
  within : t.pipe.Within
  start_eq : t.pipe.startByte = startByte
  end_eq : t.pipe.endByte = endByte
  unread : t.calls = 0 →
    t.pipe = UploadPostDataPipe.create { content := content, pos := startByte } startByte endByte
  numbered : Numbered t.machine
  waits : Waits t.machine
  connected : Connected t.machine
  given : ∃ y, Sending cfg (.pipe (endByte - startByte)) (t.machine, y) ∧
    y.lifetime = slice content (startByte, t.pipe.currentReadPos)

variable {cfg : Config} {startByte endByte : ℕ}

theorem length_slice_le (l : List UInt8) (a b : ℕ) : (slice l (a, b)).length ≤ b - a := by
  rw [slice_eq]
  exact List.length_take_le _ _

/-- The pipe gives no more than it has announced. -/
theorem Feeding.bounded (h : Feeding content cfg startByte endByte t) {y : Yielded}
    (hgiven : y.lifetime = slice content (startByte, t.pipe.currentReadPos)) :
    (Post.pipe (endByte - startByte)).Bounded y := by
  have hle := h.within.le_end
  have hlt := h.within.end_lt
  rw [h.end_eq] at hle hlt
  have hlength := length_slice_le content startByte t.pipe.currentReadPos
  rw [← hgiven] at hlength
  exact ⟨by omega, by omega⟩

theorem Feeding.posting (h : Feeding content cfg startByte endByte t) :
    ∃ y, Posting (.pipe (endByte - startByte)) t.machine y ∧
      (Post.pipe (endByte - startByte)).Bounded y ∧
      y.lifetime = slice content (startByte, t.pipe.currentReadPos) := by
  obtain ⟨y, hsending, hgiven⟩ := h.given
  have hbound := h.bounded hgiven
  exact ⟨y, hsending.posting hbound, hbound, hgiven⟩

theorem observeYield_asked {s : Machine} {size : ℕ} (hpost : s.cfg.post = some (.pipe size))
    {first : Bool} (hasks : s.asks = some first) (answer : Answer) (y : Yielded) :
    s.observeYield (.proceed answer) y = y.add first size answer.chunk := by
  unfold observeYield
  rw [hpost, hasks]

theorem observeYield_other' {s : Machine} (hasks : ∀ answer, a = .proceed answer → s.asks = none)
    (y : Yielded) : s.observeYield a y = y := by
  unfold observeYield
  split
  · rw [hasks _ rfl]
  · rfl

theorem Feeding.step (h : Feeding content cfg startByte endByte t)
    (hstep : t.step content disks a = some t') : Feeding content cfg startByte endByte t' := by
  obtain ⟨y, hsending, hgiven⟩ := h.given
  have hposting := hsending.posting (h.bounded hgiven)
  have hnext {a : Act} {machine : Machine} (hmachine : t.machine.step a = some machine) :
      Sending cfg (.pipe (endByte - startByte)) (machine, t.machine.observeYield a y) := by
    refine hsending.step (a := a) ?_
    rw [watch, hmachine]
    rfl
  cases step_cases hstep with
  | other _ machine hmachine hasks =>
    have hsame := hnext hmachine
    rw [observeYield_other' hasks] at hsame
    exact ⟨h.within, h.start_eq, h.end_eq, h.unread, h.numbered.step hmachine,
      h.waits.step h.numbered hposting hmachine, h.connected.step hmachine, y, hsame, hgiven⟩
  | asked answer first machine called hcalled hasks hmachine =>
    have hmore := hnext hmachine
    rw [observeYield_asked hposting.config hasks] at hmore
    have hcall := h.within.retreived content (disks t.calls)
    rw [hcalled] at hcall
    have hrest : Numbered machine ∧ Waits machine ∧ Connected machine :=
      ⟨h.numbered.step hmachine, h.waits.step h.numbered hposting hmachine,
        h.connected.step hmachine⟩
    obtain ⟨hnumbered, hwaits, hconnected⟩ := hrest
    cases hcall with
    | bad file =>
      refine ⟨h.within.onFile file, h.start_eq, h.end_eq, nofun, hnumbered, hwaits, hconnected,
        _, hmore, ?_⟩
      show y.lifetime ++ [] = _
      rw [List.append_nil, hgiven]
    | data hfull =>
      refine ⟨h.within.behind content (disks t.calls), h.start_eq, h.end_eq, nofun, hnumbered,
        hwaits, hconnected, _, hmore, ?_⟩
      show y.lifetime ++ slice content _ = _
      rw [hgiven]
      exact slice_append content (h.start_eq ▸ h.within.start_le) (Nat.le_add_right _ _)

theorem feeding_create (cfg : Config) (time : ℕ) (content : List UInt8) {startByte endByte : ℕ}
    (hle : startByte ≤ endByte) (hend : endByte < 2 ^ 64) :
    Feeding content cfg startByte endByte (create cfg time content startByte endByte) := by
  have hsize : (create cfg time content startByte endByte).pipe.postDataSize =
      endByte - startByte := sub_of_le hle hend
  refine ⟨⟨le_rfl, hle, hend⟩, rfl, rfl, fun _ => rfl, numbered_create _ _, waits_create _ _, ?_,
    {}, ?_, by simp [create, UploadPostDataPipe.create, slice]⟩
  · rintro (hstate | hstate) <;> cases hstate
  · refine ⟨?_, fun _ => ?_, fun _ => by rintro ⟨⟩⟩
    · show cfg.setPost (.pipe _) = cfg.setPost (.pipe _)
      rw [← hsize]
      rfl
    · have hposting := posting_create cfg (.pipe (endByte - startByte)) time
      rw [← hsize] at hposting ⊢
      exact hposting

/-! ### What is raised -/

/-- The pipe is asked in this step and returns a bad pointer. -/
def Bad (content : List UInt8) (disks : ℕ → Disk) (t : Transfer) : Prop :=
  t.machine.asks.isSome = true ∧ (t.pipe.onDisk content (disks t.calls)).chunk.1 = none

/-- A bad pointer ends the POST at once: with `PostSent` when all of it was written on this
connection, else with an error, behind what the pipe itself has called. -/
theorem Feeding.bad (h : Feeding content cfg startByte endByte t) (hbad : Bad content disks t)
    {answer : Answer} (hstep : t.step content disks (.proceed answer) = some t') :
    t'.machine.state = .sendPost ∧ t'.machine.pending = (answer.calls.map Call.event ++
      [outcome (endByte - startByte) (sentBody t'.machine.log).length]).map Task.event := by
  obtain ⟨hasked, hnone⟩ := hbad
  obtain ⟨y, hposting, hbound, -⟩ := h.posting
  cases step_cases hstep with
  | other _ machine hmachine hasks =>
    rw [hasks answer rfl] at hasked
    cases hasked
  | asked _ first machine called hcalled hasks hmachine =>
    rw [hcalled] at hnone
    rw [hnone] at hmachine
    obtain ⟨hstate, hbody, hpending⟩ := hposting.asked_end hbound hasks hmachine rfl
    rw [← hbody] at hpending
    exact ⟨hstate, hpending⟩

/-- When `PostSent` is raised the whole range was written on this connection. -/
theorem Feeding.sent (h : Feeding content cfg startByte endByte t)
    (hpending : .event .postSent ∈ t.machine.pending) (hstate : t.machine.state = .sendPost) :
    sentBody t.machine.log = slice content (startByte, endByte) ∧
      (sentBody t.machine.log).length = endByte - startByte := by
  obtain ⟨y, hposting, hbound, hgiven⟩ := h.posting
  obtain ⟨-, hbody, hlength⟩ := hposting.ready hpending hstate
  have hall : y.hop = y.lifetime := hposting.suffix.eq_of_length_le (hbound.2.trans hlength.ge)
  have hsent : sentBody t.machine.log = slice content (startByte, t.pipe.currentReadPos) := by
    rw [hbody, ← hgiven]
    exact hall
  have hsize : (sentBody t.machine.log).length = endByte - startByte := by
    rw [hbody]
    exact hlength
  refine ⟨?_, hsize⟩
  have hread := length_slice_le content startByte t.pipe.currentReadPos
  rw [← hsent, hsize] at hread
  have hstart := h.within.start_le
  have hend := h.within.le_end
  rw [h.start_eq] at hstart
  rw [h.end_eq] at hend
  rw [hsent, show t.pipe.currentReadPos = endByte by omega]

/-! ### How it ends -/

/-- A step of a transfer that nothing disturbs: no call, no timeout, and no error of a write. -/
def Undisturbed : Act → Prop
  | .proceed answer => answer.calls = []
  | .delay _ err => err = false
  | .complete _ _ err => err = none
  | _ => False

/-- What is left of a POST when nothing disturbs it: some steps lead to the end of the pipe, and
the bytes up to there are written. -/
structure Ends (content : List UInt8) (disks : ℕ → Disk) (size : ℕ) (pipe : UploadPostDataPipe)
    (calls written : ℕ) (t' : Transfer) : Prop where
  state : t'.machine.state = .sendPost
  pending : t'.machine.pending = [.event (outcome size (sentBody t'.machine.log).length)]
  written : (sentBody t'.machine.log).length + pipe.currentReadPos =
    written + t'.pipe.currentReadPos
  short : pipe.file.pos = pipe.currentReadPos →
    (t'.pipe.currentReadPos = pipe.endByte ↔ pipe.NoneShort content disks calls)

/-- An undisturbed run to such a state. -/
def Finishes (content : List UInt8) (disks : ℕ → Disk) (size : ℕ) (t : Transfer)
    (pipe : UploadPostDataPipe) (calls written : ℕ) : Prop :=
  ∃ acts t', (∀ a ∈ acts, Undisturbed a) ∧ run (step content disks) t acts = some t' ∧
    Ends content disks size pipe calls written t'

theorem Finishes.cons {size calls written : ℕ} {pipe : UploadPostDataPipe} {t t' : Transfer}
    (h : Finishes content disks size t' pipe calls written) {a : Act}
    (hstep : t.step content disks a = some t') (ha : Undisturbed a) :
    Finishes content disks size t pipe calls written := by
  obtain ⟨acts, t'', hacts, hrun, hends⟩ := h
  refine ⟨a :: acts, t'', ?_, run_cons.mpr ⟨t', hstep, hrun⟩, hends⟩
  intro b hb
  rcases List.mem_cons.mp hb with rfl | hb
  · exact ha
  · exact hacts b hb

/-- A step in which the pipe is not asked. -/
theorem step_other (content : List UInt8) (disks : ℕ → Disk) {machine : Machine}
    (h : t.machine.step a = some machine)
    (hasks : ∀ answer, a = .proceed answer → t.machine.asks = none) :
    t.step content disks a = some { t with machine := machine } := by
  unfold step
  split
  case h_1 first answer hsome =>
    rw [hasks answer rfl] at hsome
    cases hsome
  case h_2 =>
    rw [h]
    rfl

theorem step_asked (answer : Answer) {first : Bool} (hasks : t.machine.asks = some first)
    {called : Option (List UInt8) × UploadPostDataPipe}
    (hcalled : (t.pipe.onDisk content (disks t.calls)).chunk = called) {machine : Machine}
    (h : t.machine.step (.proceed { answer with chunk := .data (called.1.getD []) }) =
      some machine) :
    t.step content disks (.proceed answer) =
      some { machine := machine, pipe := called.2, calls := t.calls + 1 } := by
  unfold step
  rw [hasks, hcalled]
  dsimp only
  rw [h]
  rfl

theorem asks_of_handling {s : Machine} (h : Handling s .pipe) : s.asks = some false := by
  obtain ⟨owner, -, htasks⟩ := h.task
  simp [asks, h.queue, htasks]

theorem asks_of_delay {s : Machine} {postData : List UInt8}
    (h : Handling s (.delayPost · postData)) : s.asks = none := by
  obtain ⟨owner, -, htasks⟩ := h.task
  simp [asks, h.queue, htasks]

/-- The pipe has no buffer. -/
theorem Feeding.finishes_bad (h : Feeding content cfg startByte endByte t)
    (hbad : Bad content disks t) (hcrashed : t.machine.crashed = false)
    (hpending : t.machine.pending ≠ []) :
    Finishes content disks (endByte - startByte) t t.pipe t.calls
      (sentBody t.machine.log).length := by
  obtain ⟨hasked, hnone⟩ := hbad
  obtain ⟨first, hasks⟩ := Option.isSome_iff_exists.mp hasked
  obtain ⟨y, hposting, hbound, -⟩ := h.posting
  have hat := fun hpos => h.within.chunk_at hpos content (disks t.calls)
  have hcall := h.within.retreived content (disks t.calls)
  generalize hcalled : (t.pipe.onDisk content (disks t.calls)).chunk = called at hat hcall hnone
  cases hcall with
  | data hfull => cases hnone
  | bad file =>
    obtain ⟨machine, hmachine⟩ := step_proceed hcrashed hpending { chunk := .data [] }
    obtain ⟨hstate, hbody, hraised⟩ := hposting.asked_end hbound hasks hmachine rfl
    refine ⟨[.proceed {}], _, by simp [Undisturbed], run_cons.mpr ⟨_, step_asked {} hasks hcalled
      hmachine, run_nil _⟩, hstate, ?_, ?_, fun hpos => ?_⟩
    · rw [hbody]
      exact hraised
    · rw [hbody]
    · have hshort : ¬t.pipe.Full content (disks t.calls) := fun hfull => nomatch (hat hpos).mpr hfull
      rcases Nat.eq_or_lt_of_le h.within.le_end with hend | hlt
      · exact iff_of_true hend (UploadPostDataPipe.noneShort_at_end hend.ge)
      · exact iff_of_false hlt.ne fun hnone => hshort ((h.within.noneShort_iff hlt).mp hnone).1

/-- The pipe has given a buffer: it is written after the delay. -/
theorem Feeding.finishes_paused {postData : List UInt8} {size calls written : ℕ}
    {pipe : UploadPostDataPipe} (h : Feeding content cfg startByte endByte t)
    (hpaused : Paused t.machine postData)
    (hrest : ∀ t' : Transfer, Feeding content cfg startByte endByte t' → Writing t'.machine →
      t'.pipe = t.pipe → t'.calls = t.calls →
      sentBody t'.machine.log = sentBody t.machine.log ++ postData →
      Finishes content disks size t' pipe calls written) :
    Finishes content disks size t pipe calls written := by
  obtain ⟨i, machine, hmachine, hwriting, hbody⟩ := hpaused.step h.waits h.connected
  have hstep := step_other content disks hmachine nofun
  exact (hrest _ (h.step hstep) hwriting rfl rfl hbody).cons hstep rfl

/-- A write is under way: what is left of the range is sent buffer by buffer, until the pipe has
no more. -/
theorem Feeding.finishes_writing (disks : ℕ → Disk) (n : ℕ)
    (h : Feeding content cfg startByte endByte t)
    (hwriting : Writing t.machine) (hn : t.pipe.endByte - t.pipe.currentReadPos ≤ n) :
    Finishes content disks (endByte - startByte) t t.pipe t.calls
      (sentBody t.machine.log).length := by
  induction n using Nat.strong_induction_on generalizing t with
  | _ n ih =>
    obtain ⟨y, hposting, -, -⟩ := h.posting
    obtain ⟨i, asking, hasking, hhandling, hlog⟩ := hwriting.step h.waits hposting.config
    have hstep := step_other content disks hasking nofun
    have hfeeding := h.step hstep
    refine Finishes.cons ?_ hstep rfl
    rw [← hlog]
    have hasks := asks_of_handling hhandling
    by_cases hnone : (t.pipe.onDisk content (disks t.calls)).chunk.1 = none
    · obtain ⟨owner, -, htasks⟩ := hhandling.task
      refine hfeeding.finishes_bad ⟨by rw [hasks]; rfl, hnone⟩ hhandling.crashed ?_
      simp [pending, htasks]
    have hcall := h.within.retreived content (disks t.calls)
    generalize hcalled : (t.pipe.onDisk content (disks t.calls)).chunk = called at hcall hnone
    cases hcall with
    | bad file => exact absurd rfl hnone
    | data hfull =>
      have hlength := hfull.length
      have hsize := hfull.pos
      obtain ⟨given, hgiven, hdelay, hlog₁⟩ :=
        hhandling.pipe (List.ne_nil_of_length_pos (hlength.ge.trans_lt' hsize))
      have hstep₁ := step_asked (t := { t with machine := asking }) {} hasks hcalled hgiven
      obtain ⟨pausing, hpausing, hpaused, hlog₂⟩ := hdelay.delay
      have hstep₂ := step_other content disks
        (t := { machine := given, pipe := t.pipe.behind content (disks t.calls)
                calls := t.calls + 1 }) hpausing fun _ _ => asks_of_delay hdelay
      refine Finishes.cons (Finishes.cons ?_ hstep₂ rfl) hstep₁ rfl
      refine ((hfeeding.step hstep₁).step hstep₂).finishes_paused hpaused
        fun t' hfeeding' hwriting' hpipe hcalls hbody => ?_
      have hleft : t'.pipe.endByte - t'.pipe.currentReadPos < n := by
        have hlt := hfull.1
        rw [hpipe]
        simp only [UploadPostDataPipe.behind_endByte, UploadPostDataPipe.behind_currentReadPos]
        omega
      obtain ⟨acts, t'', hacts, hrun, hends⟩ := ih _ hleft hfeeding' hwriting' le_rfl
      refine ⟨acts, t'', hacts, hrun, hends.state, hends.pending, ?_, fun _ => ?_⟩
      · have hwritten := hends.written
        rw [hbody, hpipe, hlog₂, hlog₁, List.length_append, hlength,
          UploadPostDataPipe.behind_currentReadPos] at hwritten
        omega
      · have hshort := hends.short (by rw [hpipe]; rfl)
        rw [hpipe, hcalls] at hshort
        rw [h.within.noneShort_iff hfull.1, and_iff_right hfull]
        exact hshort

/-- `SendPost` is about to be entered. -/
theorem Feeding.finishes_entry (disks : ℕ → Disk)
    (h : Feeding content cfg startByte endByte t)
    (hcrashed : t.machine.crashed = false) (hstate : t.machine.state = .sendHeader)
    (hpending : t.machine.pending = [.event .headersWritten]) :
    Finishes content disks (endByte - startByte) t t.pipe t.calls
      (sentBody t.machine.log).length := by
  obtain ⟨y, hposting, -, -⟩ := h.posting
  have hasks : t.machine.asks = some true := by
    unfold asks
    rw [show t.machine.queue.map Task.event ++ t.machine.tasks = _ from hpending]
    simp [hstate]
  by_cases hnone : (t.pipe.onDisk content (disks t.calls)).chunk.1 = none
  · exact h.finishes_bad ⟨by rw [hasks]; rfl, hnone⟩ hcrashed (by simp [hpending])
  have hcall := h.within.retreived content (disks t.calls)
  generalize hcalled : (t.pipe.onDisk content (disks t.calls)).chunk = called at hcall hnone
  cases hcall with
  | bad file => exact absurd rfl hnone
  | data hfull =>
    have hlength := hfull.length
    have hsize := hfull.pos
    have hunsent := hposting.unsent hcrashed (by rw [hstate]; rfl)
    obtain ⟨entered, hentered, hpaused, hnothing⟩ := hposting.entry_data hcrashed hstate hpending
      (List.ne_nil_of_length_pos (hlength.ge.trans_lt' hsize))
    have hstep := step_asked {} hasks hcalled hentered
    refine Finishes.cons ?_ hstep rfl
    refine (h.step hstep).finishes_paused hpaused
      fun t' hfeeding hwriting hpipe hcalls hbody => ?_
    obtain ⟨acts, t'', hacts, hrun, hends⟩ :=
      hfeeding.finishes_writing disks _ hwriting le_rfl
    refine ⟨acts, t'', hacts, hrun, hends.state, hends.pending, ?_, fun _ => ?_⟩
    · have hwritten := hends.written
      rw [hbody, hpipe, hnothing, List.nil_append, hlength,
        UploadPostDataPipe.behind_currentReadPos] at hwritten
      rw [hunsent, List.length_nil]
      omega
    · have hshort := hends.short (by rw [hpipe]; rfl)
      rw [hpipe, hcalls] at hshort
      rw [h.within.noneShort_iff hfull.1, and_iff_right hfull]
      exact hshort

end Steps

/-! ### Every run -/

/-- What `SendPost` has to wait for: a delay whose handler will write, or a write whose handler
or timeout will act. -/
def Awaits (s : Machine) : Prop :=
  ∃ owner ∈ s.live, (∃ d ∈ s.delays, d.owner = owner ∧ Delaying s d) ∨
    ∃ op ∈ s.ops, op.owner = owner ∧ op.kind = .postWrite ∧ Guarded s op.race

section Runs
variable {content : List UInt8} {disks : ℕ → Disk} {t t' : Transfer} {cfg : Config}
  {startByte endByte : ℕ}

theorem awaits_of_waits {s : Machine} (h : Waits s) (hstate : s.state = .sendPost)
    (hidle : s.idle = true) : Awaits s := by
  obtain ⟨hqueue, htasks⟩ := idle_iff.mp hidle
  obtain ⟨owner, hlive, hout⟩ := h.idle hstate hqueue htasks
  refine ⟨owner, hlive, ?_⟩
  obtain ⟨chunk, hchunk⟩ := List.exists_mem_of_ne_nil _ hout.owed
  rw [owed, htasks, List.filterMap_nil, List.append_nil] at hchunk
  rcases List.mem_append.mp hchunk with hdelay | hop
  · obtain ⟨d, hd, howed⟩ := List.mem_filterMap.mp hdelay
    have howner : d.owner = owner := by
      unfold owedByDelay at howed
      split at howed
      · split_ifs at howed with heq
        exact heq
      · cases howed
    exact .inl ⟨d, hd, howner, hout.delays d hd howner⟩
  · obtain ⟨op, hmem, howed⟩ := List.mem_filterMap.mp hop
    unfold owedByOp at howed
    split_ifs at howed with heq
    obtain ⟨hkind, hguarded⟩ := hout.ops op hmem heq.1
    exact .inr ⟨op, hmem, heq.1, hkind, hguarded⟩

/-- From every such wait the POST can still be brought to an end, by nothing but the ends of the
delays and writes. -/
theorem Feeding.finishes (disks : ℕ → Disk)
    (h : Feeding content cfg startByte endByte t)
    (hstate : t.machine.state = .sendPost) (hidle : t.machine.idle = true)
    (hcrashed : t.machine.crashed = false) :
    ∃ written, Finishes content disks (endByte - startByte) t t.pipe t.calls written := by
  obtain ⟨hqueue, htasks⟩ := idle_iff.mp hidle
  obtain ⟨owner, hlive, ⟨d, hd, rfl, ⟨postData, hkind⟩, -, -⟩ | ⟨op, hop, rfl, -, -⟩⟩ :=
    awaits_of_waits h.waits hstate hidle
  · refine ⟨(sentBody t.machine.log ++ postData).length, h.finishes_paused
      ⟨hstate, hqueue, htasks, hcrashed, d, hd, hlive, hkind⟩
      fun t' hfeeding hwriting hpipe hcalls hbody => ?_⟩
    have hrest := hfeeding.finishes_writing disks _ hwriting le_rfl
    rw [hpipe, hcalls, hbody] at hrest
    exact hrest
  · exact ⟨_, h.finishes_writing disks _ ⟨hstate, hqueue, htasks, hcrashed, op, hop, hlive⟩ le_rfl⟩

theorem outcome_eq_postSent {size written : ℕ} : outcome size written = .postSent ↔ written = size := by
  unfold outcome
  split_ifs with heq
  · exact iff_of_true rfl heq
  · exact iff_of_false nofun heq

/-- What the pipe returns for a range, call by call and up to its first bad pointer. -/
structure ReturnsRange (content : List UInt8) (disks : ℕ → Disk) (startByte endByte : ℕ)
    (pipe : UploadPostDataPipe) : Prop where
  calls : ∀ found : List Disk, (∀ buffer ∈ (pipe.retreive content found).1, buffer.length ≤ 8192) ∧
    (pipe.retreive content found).1.flatten <+: slice content (startByte, endByte)
  drained : ∃ buffers, pipe.drainDisks content disks (endByte - startByte + 1) 0 = some buffers ∧
    (∀ buffer ∈ buffers, buffer.length ≤ 8192) ∧
    buffers.flatten <+: slice content (startByte, endByte) ∧
    (buffers.flatten.length = endByte - startByte ↔ pipe.NoneShort content disks 0) ∧
    (endByte ≤ content.length →
      (buffers.flatten = slice content (startByte, endByte) ↔ pipe.NoneShort content disks 0))

/-- What a request makes of it. `PostSent` comes when all of the range was written, and only then;
when the pipe ends before, it is an error at once; and `SendPost` waits for nothing but a delay
or a write, from which it can still be finished. -/
structure SendsRange (content : List UInt8) (disks : ℕ → Disk) (startByte endByte : ℕ)
    (t : Transfer) : Prop where
  sent : .event .postSent ∈ t.machine.pending → t.machine.state = .sendPost →
    sentBody t.machine.log = slice content (startByte, endByte) ∧
      (sentBody t.machine.log).length = endByte - startByte
  raised : ∀ answer t', Bad content disks t → t.step content disks (.proceed answer) = some t' →
    t'.machine.state = .sendPost ∧ t'.machine.pending = (answer.calls.map Call.event ++
      [outcome (endByte - startByte) (sentBody t'.machine.log).length]).map Task.event
  awaits : t.machine.state = .sendPost → t.machine.idle = true → Awaits t.machine
  finishes : t.machine.state = .sendPost → t.machine.idle = true → t.machine.crashed = false →
    ∃ acts t', (∀ a ∈ acts, Undisturbed a) ∧ run (step content disks) t acts = some t' ∧
      t'.machine.state = .sendPost ∧ t'.machine.pending =
        [.event (outcome (endByte - startByte) (sentBody t'.machine.log).length)]
  whole : t.calls = 0 → t.machine.crashed = false → t.machine.state = .sendHeader →
    t.machine.pending = [.event .headersWritten] →
    ∃ acts t' e, (∀ a ∈ acts, Undisturbed a) ∧ run (step content disks) t acts = some t' ∧
      t'.machine.state = .sendPost ∧ t'.machine.pending = [.event e] ∧
      e = outcome (endByte - startByte) (sentBody t'.machine.log).length ∧
      (e = .postSent ↔ t.pipe.NoneShort content disks 0)

theorem Feeding.whole (h : Feeding content cfg startByte endByte t) (hcalls : t.calls = 0)
    (hcrashed : t.machine.crashed = false) (hstate : t.machine.state = .sendHeader)
    (hpending : t.machine.pending = [.event .headersWritten]) :
    ∃ acts t' e, (∀ a ∈ acts, Undisturbed a) ∧ run (Transfer.step content disks) t acts = some t' ∧
      t'.machine.state = .sendPost ∧ t'.machine.pending = [.event e] ∧
      e = outcome (endByte - startByte) (sentBody t'.machine.log).length ∧
      (e = .postSent ↔ t.pipe.NoneShort content disks 0) := by
  obtain ⟨y, hposting, -, -⟩ := h.posting
  obtain ⟨acts, t', hacts, hrun, hends⟩ := h.finishes_entry disks hcrashed hstate hpending
  have hunread := h.unread hcalls
  have hunsent := hposting.unsent hcrashed (by rw [hstate]; rfl)
  have hwritten := hends.written
  have hshort := hends.short (by rw [hunread]; rfl)
  have hpos : t.pipe.currentReadPos = startByte := by
    rw [hunread]
    rfl
  have hle := h.within.start_le.trans h.within.le_end
  rw [h.start_eq, h.end_eq] at hle
  rw [hunsent, List.length_nil, hpos] at hwritten
  refine ⟨acts, t', _, hacts, hrun, hends.state, hends.pending, rfl, ?_⟩
  rw [outcome_eq_postSent, ← hcalls, ← hshort, h.end_eq]
  omega

theorem Feeding.sendsRange (h : Feeding content cfg startByte endByte t) :
    SendsRange content disks startByte endByte t where
  sent := h.sent
  raised _ _ hbad hstep := h.bad hbad hstep
  awaits := awaits_of_waits h.waits
  finishes hstate hidle hcrashed := by
    obtain ⟨_, acts, t', hacts, hrun, hends⟩ := h.finishes disks hstate hidle hcrashed
    exact ⟨acts, t', hacts, hrun, hends.state, hends.pending⟩
  whole := h.whole

theorem returnsRange_create (content : List UInt8) (disks : ℕ → Disk) {startByte endByte : ℕ}
    (hlt : startByte < endByte) (hend : endByte < 2 ^ 64) :
    ReturnsRange content disks startByte endByte
      (UploadPostDataPipe.create { content := content, pos := startByte } startByte endByte) := by
  have hwithin : (UploadPostDataPipe.create { content := content, pos := startByte }
      startByte endByte).Within := ⟨le_rfl, hlt.le, hend⟩
  refine ⟨fun found => ?_, ?_⟩
  · have hcalls := hwithin.retreives content found
    refine ⟨fun buffer hmem => (hcalls.size buffer hmem).2, ?_⟩
    have hle := hcalls.within.le_end
    rw [hcalls.endByte] at hle
    rw [hcalls.flatten]
    exact slice_initial content hcalls.le hle
  · obtain ⟨buffers, hdrained, hsize, hbegins, hiff⟩ :=
      hwithin.drainDisks disks rfl (endByte - startByte + 1) (Nat.lt_succ_self _) 0
    refine ⟨buffers, hdrained, hsize, hbegins, hiff, fun hlength => ?_⟩
    rw [← hiff]
    have hrange : (slice content (startByte, endByte)).length = endByte - startByte :=
      length_slice hlength
    exact ⟨fun heq => heq ▸ hrange, fun heq => hbegins.eq_of_length (heq.trans hrange.symm)⟩

/-- A short file is reported: for every range, every file, and whatever the disk still has of it
at each call of the pipe, in every run of the request. -/
theorem run_reportsShortFiles (content : List UInt8) (disks : ℕ → Disk) {startByte endByte : ℕ}
    (hlt : startByte < endByte) (hend : endByte < 2 ^ 64) :
    ReturnsRange content disks startByte endByte
        (UploadPostDataPipe.create { content := content, pos := startByte } startByte endByte) ∧
      ∀ cfg time acts, Always (step content disks) (SendsRange content disks startByte endByte)
        (create cfg time content startByte endByte) acts := by
  refine ⟨returnsRange_create content disks hlt hend, fun cfg time acts => ?_⟩
  refine Always.of_guarded (I := Feeding content cfg startByte endByte) (G := fun _ _ _ => True)
    (fun _ h => h.sendsRange) (fun _ _ _ h _ hstep => h.step hstep) ?_ along_true
  exact feeding_create cfg time content hlt.le hend

/-- Three bytes, of which the second cannot be read. -/
theorem run_reportsShortFiles_threeBytes :
    ReturnsRange [1, 2, 3] (fun _ => ⟨3, some 1⟩) 0 3
        (UploadPostDataPipe.create { content := [1, 2, 3], pos := 0 } 0 3) ∧
      ∀ cfg time acts, Always (step [1, 2, 3] fun _ => ⟨3, some 1⟩)
        (SendsRange [1, 2, 3] (fun _ => ⟨3, some 1⟩) 0 3) (create cfg time [1, 2, 3] 0 3) acts :=
  run_reportsShortFiles [1, 2, 3] (fun _ => ⟨3, some 1⟩) (by decide) (by decide)

end Runs

end Transfer

end MediafireSdk.Uploader
