import MediafireSdk.Http.PostTransitions

/-! A POST that is answered was sent whole: what the handlers do between the transitions, and the
run. A pipe that never gives more than it has announced has given nothing to an earlier
connection when the count is right on the last one. -/

namespace MediafireSdk.Http

open Runs Words

namespace Machine

section Handlers
variable {post : Post} {s s' : Machine} {y : Yielded}

/-! ### Handlers -/

theorem alike_setQueue (s : Machine) (queue : List Event) : Alike s (s.setQueue queue) :=
  ⟨rfl, id, rfl, rfl, rfl, le_rfl, rfl, fun _ => .refl _⟩

theorem alike_setTimers (s : Machine) (timers : List Timeout) : Alike s (s.setTimers timers) :=
  ⟨rfl, id, rfl, rfl, rfl, le_rfl, rfl, fun _ => .refl _⟩

theorem alike_tick (s : Machine) (elapsed : ℕ) : Alike s (s.tick elapsed) :=
  ⟨rfl, id, rfl, rfl, rfl, le_rfl, rfl, fun _ => .refl _⟩

theorem alike_take (s : Machine) (race : ℕ) : Alike s (s.take race) :=
  ⟨rfl, id, rfl, rfl, rfl, le_rfl, rfl, fun _ => .refl _⟩

theorem alike_clearAsyncTimeout (s : Machine) : Alike s s.clearAsyncTimeout :=
  ⟨rfl, id, rfl, rfl, rfl, le_rfl, rfl, fun _ => .refl _⟩

theorem alike_establish (s : Machine) : Alike s s.establish :=
  ⟨rfl, id, rfl, rfl, rfl, le_rfl, rfl, fun _ => .refl _⟩

theorem alike_setContent (s : Machine) (d : ReadContentData) : Alike s (s.setContent d) :=
  ⟨rfl, id, rfl, rfl, rfl, le_rfl, rfl, fun _ => .refl _⟩

theorem alike_setDelayTimerEnabled (s : Machine) (enabled : Bool) :
    Alike s (s.setDelayTimerEnabled enabled) :=
  ⟨rfl, id, rfl, rfl, rfl, le_rfl, rfl, fun _ => .refl _⟩

theorem subperm_of_taken {owed taken rest : List (List UInt8)} (h : owed.Perm (taken ++ rest)) :
    rest.Subperm owed :=
  (List.sublist_append_right taken rest).subperm.trans h.symm.subperm

theorem alike_setTasks {t : Task} {tasks : List Task} (h : s.tasks = t :: tasks) :
    Alike s (s.setTasks tasks) :=
  ⟨rfl, id, rfl, rfl, rfl, le_rfl, rfl, fun owner => subperm_of_taken (owed_takeTask h owner)⟩

theorem alike_setOps {i : ℕ} {op : Op} (h : s.ops[i]? = some op) :
    Alike s (s.setOps (s.ops.eraseIdx i)) :=
  ⟨rfl, id, rfl, rfl, rfl, le_rfl, rfl, fun owner => subperm_of_taken (owed_takeOp h owner)⟩

theorem alike_setDelays {i : ℕ} {d : Delay} (h : s.delays[i]? = some d) :
    Alike s (s.setDelays (s.delays.eraseIdx i)) :=
  ⟨rfl, id, rfl, rfl, rfl, le_rfl, rfl, fun owner => subperm_of_taken (owed_takeDelay h owner)⟩

theorem alike_async (s : Machine) (kind : OpKind) (hkind : kind ≠ .postWrite) (owner : ℕ)
    (reason : String) (timeoutSeconds : ℕ) : Alike s (s.async owner reason timeoutSeconds kind) where
  cfg := rfl
  crashed h := (Bool.or_eq_false_iff.mp h).1
  state := rfl
  live := rfl
  sendPostData := rfl
  fresh := Nat.le_succ _
  body := rfl
  owed other := (List.Perm.of_eq (owed_async s other kind hkind owner reason timeoutSeconds)).subperm

/-- A task that nothing is owed by. -/
def isQuiet (t : Task) : Bool :=
  match t with
  | .delayPost _ _ | .pipe _ => false
  | _ => true

theorem filterMap_quiet {tasks : List Task} (h : ∀ t ∈ tasks, isQuiet t = true) (owner : ℕ) :
    tasks.filterMap (owedByTask owner) = [] := by
  refine List.filterMap_eq_nil_iff.mpr fun t ht => ?_
  have hquiet := h t ht
  cases t <;> first | rfl | cases hquiet

theorem alike_next (s : Machine) {tasks : List Task} (h : ∀ t ∈ tasks, isQuiet t = true) :
    Alike s (s.next tasks) := by
  refine ⟨rfl, id, rfl, rfl, rfl, le_rfl, rfl, fun owner => ?_⟩
  have hperm := owed_next s owner tasks
  rw [filterMap_quiet h, List.nil_append] at hperm
  exact hperm.subperm

theorem alike_startContent (s : Machine) (owner : ℕ) (op : AsyncOp) :
    Alike s (s.startContent owner op) := by
  unfold startContent
  split_ifs
  · exact ⟨rfl, id, rfl, rfl, rfl, le_rfl, rfl, fun other =>
      (List.Perm.of_eq (owed_delay_content s other owner op)).subperm⟩
  · exact alike_async s (.content op) nofun _ _ _

theorem alike_record (s : Machine) {entry : Entry} (h : entry.sent (sentBody s.log) = sentBody s.log) :
    Alike s (s.record entry) :=
  ⟨rfl, id, rfl, rfl, rfl, le_rfl, sentBody_of_other h, fun _ => .refl _⟩

/-- What is owed to the data of the state is all that is owed, and the rest of the body so far. -/
theorem Posting.owing (h : Posting post s y) {owner : ℕ} {chunk : List UInt8}
    {rest : List (List UInt8)} (hlive : s.live = some owner)
    (hperm : (s.owed owner).Perm ([chunk] ++ rest)) :
    s.state = .sendPost ∧ rest = [] ∧ sentBody s.log ++ chunk = post.hop y := by
  have hin : chunk ∈ s.owed owner := hperm.mem_iff.mpr (List.mem_append_left _ (by simp))
  have hstate : s.state = .sendPost := by
    by_contra hne
    rw [h.elsewhere hne owner hlive] at hin
    cases hin
  have hone := h.one owner hlive
  have hlength := hperm.length_eq
  rw [List.length_append, List.length_singleton] at hlength
  exact ⟨hstate, List.eq_nil_of_length_eq_zero (by omega), h.body hstate owner hlive chunk hin⟩

theorem callbackCalls_quiet (s : Machine) (answer : Answer) :
    ∀ t ∈ (s.callbackCalls answer).map Task.event, isQuiet t = true ∧ isPost t = false := by
  intro t ht
  obtain ⟨e, he, rfl⟩ := List.mem_map.mp ht
  have herror := s.callbackCalls_isError answer e he
  cases e <;> first | exact ⟨rfl, rfl⟩ | cases herror

/-- A task other than a request for the pipe. -/
theorem Posting.task (h : Posting post s y) {t : Task} {tasks : List Task} (hqueue : s.queue = [])
    (htasks : s.tasks = t :: tasks) (hcrashed : s.crashed = false) (answer : Answer)
    (hpipe : ∀ owner, t ≠ .pipe owner) :
    Posting post ((s.setTasks tasks).runTask t answer)
      (match t with
      | .event e => entryYield post s e answer y
      | _ => y) := by
  have hpending : s.pending = t :: tasks := by simp [pending, hqueue, htasks]
  have hrest := h.rest hpending
  have hsub : tasks ⊆ s.pending := hpending ▸ List.subset_cons_self _ _
  have htaken := alike_setTasks htasks
  have hleft : (s.setTasks tasks).pending = tasks := by simp [pending, hqueue]
  cases t with
  | event e => exact (h.taken hpending htaken hleft).process hcrashed answer
  | content startPos buffer =>
    have hcalls := callbackCalls_quiet ((s.setTasks tasks)) answer
    refine h.keep tasks hsub hrest ((htaken.trans (alike_record _ rfl)).trans
      (alike_next _ fun t ht => (hcalls t ht).1)) fun t ht hpost => ?_
    have hmem : t ∈ ((s.setTasks tasks).callbackCalls answer).map Task.event ++ tasks := by
      simpa [pending, hqueue, runTask] using ht
    rcases List.mem_append.mp hmem with hmem | hmem
    · rw [(hcalls t hmem).2] at hpost
      cases hpost
    · exact hmem
  | start owner op =>
    refine h.keep tasks hsub hrest (htaken.trans (alike_startContent _ owner op)) fun t ht _ => ?_
    simp only [runTask, startContent] at ht
    split at ht <;> simpa [pending, hqueue] using ht
  | delayPost owner postData =>
    refine h.keep tasks hsub hrest ⟨rfl, id, rfl, rfl, rfl, le_rfl, rfl, fun other => ?_⟩
      fun t ht _ => by simpa [pending, hqueue, runTask] using ht
    have hbefore := owed_takeTask htasks other
    have hafter := owed_delay_post (s.setTasks tasks) other owner postData
    refine (hafter.trans (.trans (.of_eq ?_) hbefore.symm)).subperm
    simp only [owedByTask]
    split_ifs <;> rfl
  | pipe owner => exact absurd rfl (hpipe owner)

/-- A further chunk. -/
theorem Posting.pipe {postDataSize owner : ℕ} {tasks : List Task}
    (h : Posting (.pipe postDataSize) s y) (hqueue : s.queue = [])
    (htasks : s.tasks = .pipe owner :: tasks) (answer : Answer)
    (hbound : (Post.pipe postDataSize).Bounded y) :
    Posting (.pipe postDataSize) ((s.setTasks tasks).postViaInterface owner answer)
      (y.add false postDataSize answer.chunk) := by
  obtain ⟨hstate, hlive, hpending, -⟩ := h.asking owner (htasks ▸ List.mem_cons_self)
  obtain rfl : tasks = [] := by simpa [pending, hqueue, htasks] using hpending
  have hdata := h.counted hstate postDataSize rfl
  have htaken := owed_takeTask htasks owner
  simp only [owedByTask, if_true, Option.toList_some] at htaken
  obtain ⟨-, hnone, hsent⟩ := h.owing hlive htaken
  rw [List.append_nil] at hsent
  have howed (other : ℕ) :
      (((s.setTasks []).postViaInterface owner answer).owed other).Perm
        ((if answer.chunk.bytes = [] then [] else
          if owner = other then [answer.chunk.bytes] else []) ++ (s.setTasks []).owed other) := by
    refine (owed_next _ other _).trans (.of_eq ?_)
    rw [List.filterMap_append, filterMap_quiet, List.nil_append]
    · congr 1
      split_ifs <;> simp [owedByTask, *]
    · intro t ht
      obtain ⟨e, -, rfl⟩ := List.mem_map.mp ht
      rfl
  have hown := howed owner
  rw [if_pos rfl, hnone, List.append_nil] at hown
  have htasks' (t : Task) (ht : t ∈ ((s.setTasks []).postViaInterface owner answer).pending) :
      (∃ e ∈ answer.calls.map Call.event ++ s.sendPostData.pipeEvents answer.chunk, t = .event e) ∨
        ∃ postData, t = .delayPost owner postData := by
    simp only [pending, postViaInterface, next_queue, readPipe_queue, setTasks_queue, hqueue,
      List.map_nil, List.nil_append, next_tasks, readPipe_tasks, setTasks_tasks,
      List.append_nil] at ht
    rcases List.mem_append.mp ht with ht | ht
    · obtain ⟨e, he, rfl⟩ := List.mem_map.mp ht
      exact .inl ⟨e, he, rfl⟩
    · split at ht
      · cases ht
      · exact .inr ⟨_, List.mem_singleton.mp ht⟩
  have hraised {e : Event}
      (hmem : .event e ∈ ((s.setTasks []).postViaInterface owner answer).pending) :
      e ∈ answer.calls.map Call.event ++ s.sendPostData.pipeEvents answer.chunk := by
    rcases htasks' _ hmem with ⟨e', he, heq⟩ | ⟨_, heq⟩
    · exact Task.event.inj heq ▸ he
    · cases heq
  refine .of_sending owner h.config hstate hlive (h.live_lt owner hlive) (fun other hne => ?_) ?_ ?_
    ?_ ?_ ?_ (fun hmem => (raised_cases (hraised hmem)).1 rfl) ?_
  · by_cases heq : owner = other
    · exact heq ▸ h.live_lt owner hlive
    · refine h.owed_lt other fun hempty => hne ?_
      have hperm := howed other
      have hbefore := (owed_takeTask htasks other).symm
      rw [hempty] at hbefore
      rw [if_neg heq, ite_self, List.nil_append,
        (List.append_eq_nil_iff.mp hbefore.eq_nil).2] at hperm
      exact hperm.eq_nil
  · rw [hown.length_eq]
    split <;> simp
  · intro postData hmem
    have hmem' := hown.mem_iff.mp hmem
    split at hmem'
    · cases hmem'
    · rw [List.mem_singleton.mp hmem']
      exact congrArg (· ++ answer.chunk.bytes) hsent
  · rintro size ⟨⟩
    show s.sendPostData.read answer.chunk.bytes = _
    rw [hdata, SendPostData.read]
    congr 1
    show trunc 64 (trunc 64 y.hop.length + answer.chunk.bytes.length) =
      trunc 64 (y.hop ++ answer.chunk.bytes).length
    rw [List.length_append]
    exact Nat.mod_add_mod _ _ _
  · intro hmem
    obtain ⟨hbytes, hsize⟩ := (raised_cases (hraised hmem)).2 rfl
    rw [if_pos hbytes] at hown
    rw [hdata, trunc_hop hbound h.suffix] at hsize
    refine ⟨hown.eq_nil, ?_, ?_⟩
    · show sentBody s.log = y.hop ++ answer.chunk.bytes
      rw [hsent, hbytes, List.append_nil]
      rfl
    · show (y.hop ++ answer.chunk.bytes).length = postDataSize
      rw [hbytes, List.append_nil]
      exact hsize
  · obtain ⟨before, hbefore⟩ := h.suffix
    exact ⟨before, by simp [Yielded.add, ← hbefore]⟩
  · intro other hmem
    rcases htasks' _ (mem_pending_of_tasks hmem) with ⟨_, _, heq⟩ | ⟨_, heq⟩ <;> cases heq

/-- Nothing else is pending where a handler starts. -/
theorem Posting.begun (h : Posting post s y) (halike : Alike s s')
    (hnew : ∀ t ∈ s'.pending, isPost t = false) : Posting post s' y := by
  refine h.keep [] (List.nil_subset _) ⟨nofun, nofun⟩ halike fun t ht hpost => ?_
  rw [hnew t ht] at hpost
  cases hpost

/-- What handlers of operations leave to do, other than those of the headers and of the body. -/
theorem ContentTasks.quiet {owner total : ℕ} {d d' : ReadContentData} {tasks : List Task}
    (h : ContentTasks owner d total tasks d') :
    ∀ t ∈ tasks, isQuiet t = true ∧ isPost t = false := by
  cases h <;> simp [isQuiet, isPost]

theorem pending_of_idle (hqueue : s.queue = []) (htasks : s.tasks = []) : s.pending = [] := by
  simp [pending, hqueue, htasks]

theorem pending_next (hqueue : s.queue = []) (htasks : s.tasks = []) (tasks : List Task) :
    (s.next tasks).pending = tasks := by
  simp [pending, hqueue, htasks]

theorem Posting.handled {owner : ℕ} {kind : OpKind} (h : Posting post s y)
    (hqueue : s.queue = []) (htasks : s.tasks = []) (hkind : kind ≠ .postWrite)
    (hhandled : Handled s owner kind s') : Posting post s' y := by
  cases hhandled with
  | event _ e hraises =>
    have hquiet : ∀ t ∈ [Task.event e], isQuiet t = true := by simp [isQuiet]
    have halike := alike_next s hquiet
    have hpending := pending_next hqueue htasks [.event e]
    refine h.alike halike (fun hin => ?_) (fun hin => ?_) fun owner hin => ?_
    · rw [hpending, List.mem_singleton, Task.event.injEq] at hin
      subst hin
      cases hraises
      exact absurd rfl hkind
    · rw [hpending] at hin ⊢
      rw [List.mem_singleton.mp hin]
    · rw [next_tasks, htasks] at hin
      simp at hin
  | established =>
    refine h.begun ((alike_establish s).trans (alike_next _ (by simp [isQuiet]))) fun t ht => ?_
    rw [pending_next (by exact hqueue) (by exact htasks), List.mem_singleton] at ht
    rw [ht]
    rfl
  | proxyRead =>
    refine h.begun (alike_async s .proxyRead nofun _ _ _) fun t ht => ?_
    rw [pending_of_idle (by exact hqueue) (by exact htasks)] at ht
    cases ht
  | pipe size hpost => exact absurd rfl hkind
  | content op received tasks d hcontent =>
    refine h.begun ((alike_setContent s d).trans (alike_next _ fun t ht =>
      (hcontent.quiet t ht).1)) fun t ht => ?_
    rw [pending_next (by exact hqueue) (by exact htasks)] at ht
    exact (hcontent.quiet t ht).2

/-- A write of the body is over. -/
theorem Posting.written {i : ℕ} {op : Op} (h : Posting post s y) (hqueue : s.queue = [])
    (htasks : s.tasks = []) (hop : s.ops[i]? = some op) (hlive : s.live = some op.owner)
    (hkind : op.kind = .postWrite) (received : List UInt8) (err : Option IoError) :
    Posting post (((s.setOps (s.ops.eraseIdx i)).take op.race).clearAsyncTimeout.handle op.owner
      .postWrite received err) y := by
  have htaken := owed_takeOp hop op.owner
  simp only [owedByOp, hkind, and_self, if_true, Option.toList_some] at htaken
  obtain ⟨hstate, hnone, hsent⟩ := h.owing hlive htaken
  rw [List.append_nil] at hsent
  set s₁ := ((s.setOps (s.ops.eraseIdx i)).take op.race).clearAsyncTimeout with hs₁
  have halike : Alike s s₁ := (alike_setOps hop).trans ((alike_take _ _).trans
    (alike_clearAsyncTimeout _))
  have hqueue₁ : s₁.queue = [] := hqueue
  have htasks₁ : s₁.tasks = [] := htasks
  have hconfig : s₁.cfg.post = some post := h.config
  have hquiet (e : Event) : ∀ t ∈ [Task.event e], isQuiet t = true := by simp [isQuiet]
  have hpending (t : Task) := pending_next hqueue₁ htasks₁ [t]
  cases err with
  | some err =>
    refine h.begun (halike.trans (alike_next s₁ (hquiet _))) fun t hmem => ?_
    have hmem' := (hpending _ ▸ hmem : t ∈ [Task.event _])
    rw [List.mem_singleton.mp hmem']
    rfl
  | none =>
    cases post with
    | data bytes =>
      have hhandle : s₁.handle op.owner .postWrite received none =
          s₁.next [.event .postSent] := by
        simp [handle, hconfig, result]
      have hnext := halike.trans (alike_next s₁ (hquiet .postSent))
      have howed : (s₁.next [.event .postSent]).owed op.owner = [] :=
        List.subperm_nil.mp (hnone ▸ (alike_next s₁ (hquiet .postSent)).owed op.owner)
      rw [hhandle]
      refine .of_sending op.owner h.config hstate hlive (h.live_lt _ hlive) (fun other hne => ?_)
        (by rw [howed]; exact Nat.zero_le 1) (by rw [howed]; rintro _ ⟨⟩) (h.counted hstate)
        (fun _ => ⟨howed, hsent, rfl⟩) h.suffix (fun hmem => ?_) fun other hmem => ?_
      · refine h.owed_lt other fun hempty => hne ?_
        exact List.subperm_nil.mp (hempty ▸ hnext.owed other)
      · rw [hpending] at hmem
        simp at hmem
      · rw [next_tasks, htasks₁] at hmem
        simp at hmem
    | pipe size =>
      have hhandle : s₁.handle op.owner .postWrite received none =
          s₁.next [.pipe op.owner] := by
        simp [handle, hconfig]
      rw [hhandle]
      refine h.alike ⟨rfl, id, rfl, rfl, rfl, le_rfl, rfl, fun other => ?_⟩ (fun hmem => ?_)
        (fun hmem => ?_) fun other hmem => ?_
      · -- The write that is over has made way for the request for more.
        have hafter := owed_next s₁ other [.pipe op.owner]
        have hbefore := owed_takeOp hop other
        refine (hafter.trans (.trans (.of_eq ?_) hbefore.symm)).subperm
        simp only [owedByOp, hkind, and_true, List.filterMap_cons, owedByTask, List.filterMap_nil]
        split_ifs <;> rfl
      · rw [hpending] at hmem
        simp at hmem
      · rw [hpending] at hmem
        simp at hmem
      · rw [next_tasks, htasks₁] at hmem
        have hother : other = op.owner := by simpa using hmem
        subst hother
        exact ⟨hstate, hlive, hpending _, size, rfl⟩

/-- A handler that leaves nothing to do. -/
theorem Posting.idle (h : Posting post s y) (halike : Alike s s') (hqueue : s'.queue = [])
    (htasks : s'.tasks = []) : Posting post s' y :=
  h.begun halike fun t ht => by
    rw [pending_of_idle hqueue htasks] at ht
    cases ht

/-- An operation is over. -/
theorem Posting.completed {i : ℕ} {op : Op} (h : Posting post s y) (hqueue : s.queue = [])
    (htasks : s.tasks = []) (hop : s.ops[i]? = some op) (received : List UInt8)
    (err : Option IoError) :
    Posting post ((s.setOps (s.ops.eraseIdx i)).completed op received err) y := by
  have halike := alike_setOps hop
  by_cases hwrite : s.live = some op.owner ∧ op.race ∉ s.taken ∧ op.kind = .postWrite
  · obtain ⟨hlive, hrace, hkind⟩ := hwrite
    have hcompleted : (s.setOps (s.ops.eraseIdx i)).completed op received err =
        (((s.setOps (s.ops.eraseIdx i)).take op.race).clearAsyncTimeout.handle op.owner
          .postWrite received err) := by
      simp [Machine.completed, hlive, hrace, hkind]
    rw [hcompleted]
    exact h.written hqueue htasks hop hlive hkind received err
  · refine completed_cases (P := fun s' => Posting post s' y) _ op received err
      (h.idle halike hqueue htasks) (h.idle (halike.trans (alike_take _ _)) hqueue htasks)
      fun s' hlive hrace hhandled => ?_
    have hkind : op.kind ≠ .postWrite := fun hkind => hwrite ⟨hlive, hrace, hkind⟩
    exact (h.idle ((halike.trans (alike_take _ op.race)).trans (alike_clearAsyncTimeout _)) hqueue
      htasks).handled hqueue htasks hkind hhandled

/-- The delay before a chunk is over. -/
theorem Posting.writing {i : ℕ} {d : Delay} {postData : List UInt8} (h : Posting post s y)
    (hqueue : s.queue = []) (htasks : s.tasks = []) (hd : s.delays[i]? = some d)
    (hlive : s.live = some d.owner) (hkind : d.kind = .post postData) (timeoutSeconds : ℕ) :
    Posting post ((((s.setDelays (s.delays.eraseIdx i)).setDelayTimerEnabled false).record
      (.wrotePost postData)).async d.owner "write request post" timeoutSeconds .postWrite) y := by
  have htaken := owed_takeDelay hd d.owner
  simp only [owedByDelay, hkind, if_true, Option.toList_some] at htaken
  obtain ⟨hstate, hnone, hbody⟩ := h.owing hlive htaken
  have hlt := h.live_lt d.owner hlive
  set s₁ := ((s.setDelays (s.delays.eraseIdx i)).setDelayTimerEnabled false).record
    (.wrotePost postData)
  have howed (other : ℕ) :=
    owed_async_postWrite s₁ other d.owner "write request post" timeoutSeconds
  have hown := howed d.owner
  rw [if_pos rfl, show s₁.owed d.owner = [] from hnone, List.append_nil] at hown
  have hpending : (s₁.async d.owner "write request post" timeoutSeconds .postWrite).pending = [] :=
    pending_of_idle hqueue htasks
  refine .of_sending d.owner h.config hstate hlive (Nat.lt_succ_of_lt hlt) (fun other hne => ?_)
    (by rw [hown.length_eq]; rfl) (fun bytes hmem => ?_) (h.counted hstate) (fun hmem => ?_)
    h.suffix (fun hmem => ?_) fun other hmem => ?_
  · refine Nat.lt_succ_of_lt ?_
    by_cases heq : d.owner = other
    · exact heq ▸ hlt
    · refine h.owed_lt other fun hempty => hne ?_
      have hrest := (alike_setDelays hd).owed other
      rw [hempty] at hrest
      have hperm := howed other
      rw [if_neg heq, show s₁.owed other = [] from List.subperm_nil.mp hrest] at hperm
      exact hperm.eq_nil
  · rw [List.mem_singleton.mp (hown.mem_iff.mp hmem), List.append_nil]
    show sentBody (s.log ++ [.wrotePost postData]) = _
    rw [sentBody_append]
    exact hbody
  · exact absurd (hpending ▸ hmem) List.not_mem_nil
  · exact absurd (hpending ▸ hmem) List.not_mem_nil
  · have hmem' : Task.pipe other ∈ s.tasks := hmem
    rw [htasks] at hmem'
    cases hmem'

/-- A wait on the delay timer is over. -/
theorem Posting.delayed {i : ℕ} {d : Delay} (h : Posting post s y) (hqueue : s.queue = [])
    (htasks : s.tasks = []) (hd : s.delays[i]? = some d) (err : Bool) :
    Posting post ((s.setDelays (s.delays.eraseIdx i)).delayed d err) y := by
  have halike := alike_setDelays hd
  refine delayed_cases (P := fun s' => Posting post s' y) _ d err (h.idle halike hqueue htasks)
    (fun postData hlive hkind => ?_) fun op next enabled _ _ _ => ?_
  · exact h.writing hqueue htasks hd hlive hkind _
  · exact h.idle ((halike.trans (alike_setDelayTimerEnabled _ enabled)).trans
      (alike_async _ (.content next) nofun _ _ _)) hqueue htasks

theorem Posting.timedOut {i : ℕ} {t : Timeout} (h : Posting post s y) (hqueue : s.queue = [])
    (htasks : s.tasks = []) (err : Bool) :
    Posting post ((s.setTimers (s.timers.eraseIdx i)).timedOut t err) y := by
  have halike := alike_setTimers s (s.timers.eraseIdx i)
  refine timedOut_cases (P := fun s' => Posting post s' y) _ t err (h.idle halike hqueue htasks)
    (h.idle (halike.trans (alike_take _ _)) hqueue htasks) fun _ _ => ?_
  refine h.begun ((halike.trans (alike_take _ t.race)).trans (alike_next _ (by simp [isQuiet])))
    fun t' ht' => ?_
  rw [pending_next (by exact hqueue) (by exact htasks), List.mem_singleton] at ht'
  rw [ht']
  rfl

/-! ### Runs -/

theorem observeYield_event {e : Event} {rest : List Task} (h : Posting post s y)
    (hpending : s.pending = .event e :: rest) (answer : Answer) :
    s.observeYield (.proceed answer) y = entryYield post s e answer y := by
  have hasks : s.asks = if e = .headersWritten ∧ s.state = .sendHeader then some true else none := by
    unfold asks
    rw [show s.queue.map Task.event ++ s.tasks = .event e :: rest from hpending]
    by_cases he : e = .headersWritten
    · simp [he]
    · rw [if_neg (not_and_of_not_left _ he)]
      cases e <;> first | rfl | exact absurd rfl he
  unfold observeYield entryYield
  rw [h.config, hasks]
  cases post with
  | data bytes => rfl
  | pipe postDataSize =>
    dsimp only
    split_ifs <;> rfl

theorem observeYield_other {t : Task} {rest : List Task} (hpending : s.pending = t :: rest)
    (hevent : ∀ e, t ≠ .event e) (hpipe : ∀ owner, t ≠ .pipe owner) (answer : Answer) :
    s.observeYield (.proceed answer) y = y := by
  have hasks : s.asks = none := by
    unfold asks
    rw [show s.queue.map Task.event ++ s.tasks = t :: rest from hpending]
    cases t <;> first | rfl | exact absurd rfl (hevent _) | exact absurd rfl (hpipe _)
  unfold observeYield
  rw [hasks]
  split <;> rfl

theorem observeYield_pipe {postDataSize owner : ℕ} {rest : List Task}
    (hconfig : s.cfg.post = some (.pipe postDataSize)) (hpending : s.pending = .pipe owner :: rest)
    (answer : Answer) :
    s.observeYield (.proceed answer) y = y.add false postDataSize answer.chunk := by
  have hasks : s.asks = some false := by
    unfold asks
    rw [show s.queue.map Task.event ++ s.tasks = .pipe owner :: rest from hpending]
  unfold observeYield
  rw [hconfig, hasks]

theorem observeYield_of_begun (a : Act) (h : ∀ answer, a ≠ .proceed answer) :
    s.observeYield a y = y := by
  unfold observeYield
  split
  · exact absurd rfl (h _)
  · rfl

theorem Bounded.of_observeYield {a : Act} (h : post.Bounded (s.observeYield a y)) :
    post.Bounded y := by
  have hprefix : y.lifetime <+: (s.observeYield a y).lifetime := by
    unfold observeYield
    split
    · split
      · exact List.prefix_append _ _
      · exact List.prefix_rfl
    · exact List.prefix_rfl
  cases post with
  | data bytes => trivial
  | pipe postDataSize => exact ⟨h.1, hprefix.length_le.trans h.2⟩

theorem Posting.step {a : Act} (h : Posting post s y) (hstep : s.step a = some s')
    (hbound : post.Bounded (s.observeYield a y)) : Posting post s' (s.observeYield a y) := by
  have hcrashed : s.crashed = false := by
    by_contra hcrashed
    simp [Machine.step, hcrashed] at hstep
  cases step_cases hstep with
  | clock elapsed =>
    rw [observeYield_of_begun (.clock elapsed) (by rintro _ ⟨⟩)]
    refine h.alike (alike_tick s elapsed) id h.alone h.asking
  | queued e queue answer hqueue =>
    have hpending : s.pending = .event e :: (queue.map Task.event ++ s.tasks) := by
      simp [pending, hqueue]
    rw [observeYield_event h hpending]
    exact (h.taken hpending (alike_setQueue s queue) rfl).process hcrashed answer
  | task t tasks answer hqueue htasks =>
    have hpending : s.pending = t :: tasks := by simp [pending, hqueue, htasks]
    by_cases hpipe : ∃ owner, t = .pipe owner
    · obtain ⟨owner, rfl⟩ := hpipe
      obtain ⟨-, -, -, postDataSize, rfl⟩ := h.asking owner (htasks ▸ List.mem_cons_self)
      have hbound' := Bounded.of_observeYield hbound
      rw [observeYield_pipe h.config hpending]
      exact h.pipe hqueue htasks answer hbound'
    · have hnot : ∀ owner, t ≠ .pipe owner := fun owner heq => hpipe ⟨owner, heq⟩
      have htask := h.task hqueue htasks hcrashed answer hnot
      cases t with
      | event e =>
        rw [observeYield_event h hpending]
        exact htask
      | pipe owner => exact absurd rfl (hnot owner)
      | _ =>
        rw [observeYield_other hpending (by simp) (by simp)]
        exact htask
  | start hqueue htasks =>
    rw [observeYield_of_begun .start (by rintro _ ⟨⟩)]
    have htaken : Taken post s y .start := .of_idle h hqueue htasks (by rintro ⟨⟩) (by rintro ⟨⟩)
    have hprocess := htaken.process hcrashed {}
    have hevent : Event.start ≠ .headersWritten := by rintro ⟨⟩
    rwa [entryYield_of_not _ (not_and_of_not_left _ hevent)] at hprocess
  | call call hqueue htasks =>
    rw [observeYield_of_begun (.call call) (by rintro _ ⟨⟩)]
    have hevent : call.event ≠ .headersWritten ∧ call.event ≠ .postSent := by
      cases call <;> exact ⟨by rintro ⟨⟩, by rintro ⟨⟩⟩
    have htaken : Taken post s y call.event := .of_idle h hqueue htasks hevent.1 hevent.2
    have hprocess := htaken.process hcrashed {}
    rwa [entryYield_of_not _ (not_and_of_not_left _ hevent.1)] at hprocess
  | complete i op received err hqueue htasks hop =>
    rw [observeYield_of_begun (.complete i received err) (by rintro _ ⟨⟩)]
    exact h.completed hqueue htasks hop received err
  | timer i t err hqueue htasks ht hcompletes =>
    rw [observeYield_of_begun (.timer i err) (by rintro _ ⟨⟩)]
    exact h.timedOut hqueue htasks err
  | delay i d err hqueue htasks hd =>
    rw [observeYield_of_begun (.delay i err) (by rintro _ ⟨⟩)]
    exact h.delayed hqueue htasks hd err

theorem posting_create (cfg : Config) (post : Post) (time : ℕ) :
    Posting post (create (cfg.setPost post) time) {} where
  config := rfl
  unsent _ hstate := by simp [create, connecting] at hstate
  live_lt := nofun
  owed_lt _ hne := absurd rfl hne
  elsewhere _ := nofun
  one := nofun
  body hstate := by simp [create] at hstate
  counted hstate := by simp [create] at hstate
  ready := nofun
  whole hstate := by simp [create, answering] at hstate
  suffix := List.suffix_rfl
  alone := nofun
  asking := nofun

/-! ### A pipe that ends early -/

/-- The states that a request goes through once its POST cannot be sent. -/
def failing : StateName → Bool
  | .sendPost | .error | .initializing | .resolve => true
  | _ => false

/-- The events on the way. -/
def onTheWay : Task → Bool
  | .event (.error _) | .event .restart | .event .initialized => true
  | _ => false

/-- An error that no timer has raised is still to be processed, and nothing that could end the
request otherwise. -/
def Doomed (s : Machine) : Prop :=
  s.state = .finalError ∨ failing s.state = true ∧ (∀ t ∈ s.pending, onTheWay t = true) ∧
    ∃ evt : ErrorEvent, evt.Plain ∧ .event (.error evt) ∈ s.pending

theorem OnEntry.onTheWay {answer : Answer} {t : Target} (h : OnEntry s answer t s')
    (ht : failing t.state = true) (hne : t.state ≠ .sendPost) :
    ∃ events, s'.queue = s.queue ++ events ∧ ∀ e ∈ events, Machine.onTheWay (.event e) = true := by
  cases h with
  | sendPost post h => exact absurd rfl hne
  | crash => exact ⟨[], (List.append_nil _).symm, nofun⟩
  | resolve url h => exact ⟨[], (List.append_nil _).symm, nofun⟩
  | restart evt hcode hlimit => exact ⟨_, rfl, by simp [Machine.onTheWay]⟩
  | passOn evt h => exact ⟨_, rfl, by simp [Machine.onTheWay]⟩
  | badUrl h => exact ⟨_, rfl, by simp [Machine.onTheWay]⟩
  | initUrl url h hscheme => exact ⟨_, rfl, by simp [Machine.onTheWay]⟩
  | unsupported url h hhttp hhttps => exact ⟨_, rfl, by simp [Machine.onTheWay]⟩
  | _ => simp [failing, Target.state] at ht

/-- A row on the way. -/
theorem Row.failing_cases {e : Event} {t : Target} (h : Row s e t)
    (hstate : failing s.state = true) (he : onTheWay (.event e) = true) :
    (∃ evt, t = .finalError evt) ∨ failing t.state = true ∧ t.state ≠ .sendPost := by
  cases h with
  | initialized h => exact .inr ⟨rfl, nofun⟩
  | restart h => exact .inr ⟨rfl, nofun⟩
  | error evt h h' => exact .inr ⟨rfl, nofun⟩
  | finalError evt h => exact .inl ⟨evt, rfl⟩
  | _ => simp_all [failing, onTheWay]

/-- An event on the way that is processed. -/
theorem process_onTheWay {e : Event} (hstate : failing s.state = true)
    (he : onTheWay (.event e) = true) (answer : Answer) :
    (s.process e answer).state = .finalError ∨ failing (s.process e answer).state = true ∧
      s.pending ⊆ (s.process e answer).pending ∧
      ∀ t ∈ (s.process e answer).pending, t ∈ s.pending ∨ onTheWay t = true := by
  refine process_cases (P := fun s' => s'.state = .finalError ∨ failing s'.state = true ∧
    s.pending ⊆ s'.pending ∧ ∀ t ∈ s'.pending, t ∈ s.pending ∨ onTheWay t = true) s e answer
    (fun _ => .inr ⟨hstate, List.Subset.refl _, fun _ => .inl⟩)
    (fun _ _ => .inr ⟨hstate, List.Subset.refl _, fun _ => .inl⟩) fun t s' _ hrow hentry => ?_
  have hentered := hentry.entered
  rcases hrow.failing_cases hstate he with ⟨evt, rfl⟩ | ⟨ht, hne⟩
  · exact .inl hentered.state
  · obtain ⟨events, hqueue, hevents⟩ := hentry.onTheWay ht hne
    have hpending : s'.pending = s.queue.map Task.event ++ events.map Task.event ++ s.tasks := by
      rw [pending, hqueue, hentered.tasks, List.map_append]
      rfl
    refine .inr ⟨by rw [hentered.state]; exact ht, fun t ht => ?_, fun t ht => ?_⟩
    · rw [hpending]
      rcases List.mem_append.mp ht with ht | ht
      · exact List.mem_append_left _ (List.mem_append_left _ ht)
      · exact List.mem_append_right _ ht
    · rw [hpending] at ht
      rcases List.mem_append.mp ht with ht | ht
      · rcases List.mem_append.mp ht with ht | ht
        · exact .inl (List.mem_append_left _ ht)
        · obtain ⟨e', he', rfl⟩ := List.mem_map.mp ht
          exact .inr (hevents e' he')
      · exact .inl (List.mem_append_right _ ht)

/-- An error that no timer has raised leads to another one, or to the end. -/
theorem process_plain {evt : ErrorEvent} (hstate : failing s.state = true) (hplain : evt.Plain)
    (answer : Answer) : (s.process (.error evt) answer).state = .finalError ∨
      .event (.error evt) ∈ (s.process (.error evt) answer).pending := by
  by_cases herror : s.state = .error
  · refine .inl ?_
    have hprocess : s.process (.error evt) answer =
        (s.leave .finalError).enter (.finalError evt) answer := by
      simp [Machine.process, row, herror, StateName.isTerminate, Target.state]
    rw [hprocess]
    exact (enter_cases _ answer _).entered.state
  · refine .inr ?_
    have hrow : s.row (.error evt) = some (.error evt) := by
      unfold row
      split <;> simp_all [failing]
    have hterminate : s.state.isTerminate = false := by
      cases hwhere : s.state <;> simp_all [failing, StateName.isTerminate]
    have hprocess : s.process (.error evt) answer = (s.leave .error).enterError evt := by
      simp only [Machine.process, hrow, hterminate]
      rfl
    have hcode : ¬(evt.code = .http .ioTimeout ∧ (s.leave .error).now < (s.leave .error).limit) :=
      fun h => hplain h.1
    rw [hprocess, enterError, if_neg hcode]
    simp [pending]

theorem Doomed.process {e : Event} {rest : List Task} (h : Doomed s)
    (hpending : s.pending = .event e :: rest) (s' : Machine) (hstate : s'.state = s.state)
    (hrest : s'.pending = rest) (answer : Answer) : Doomed (s'.process e answer) := by
  rcases h with hfinal | ⟨hfailing, hevents, evt, hplain, hmem⟩
  · refine .inl ?_
    have hprocess : s'.process e answer = s' := by
      simp [Machine.process, hstate, hfinal, StateName.isTerminate]
    rw [hprocess, hstate, hfinal]
  · rw [← hstate] at hfailing
    rw [hpending] at hmem hevents
    have he := hevents _ List.mem_cons_self
    rcases process_onTheWay hfailing he answer with hend | ⟨hstill, hkept, hnew⟩
    · exact .inl hend
    · rw [hrest] at hkept hnew
      have hall : ∀ t ∈ (s'.process e answer).pending, onTheWay t = true := by
        intro t ht
        rcases hnew t ht with ht | ht
        · exact hevents t (List.mem_cons_of_mem _ ht)
        · exact ht
      rcases List.mem_cons.mp hmem with heq | hmem
      · obtain rfl : .error evt = e := Task.event.inj heq
        rcases process_plain hfailing hplain answer with hend | hagain
        · exact .inl hend
        · exact .inr ⟨hstill, hall, evt, hplain, hagain⟩
      · exact .inr ⟨hstill, hall, evt, hplain, hkept hmem⟩

/-- In the last state nothing changes any more. -/
theorem finalError_step {a : Act} (h : s.state = .finalError) (hstep : s.step a = some s') :
    s'.state = .finalError := by
  have hprocess (s₀ : Machine) (hs₀ : s₀.state = .finalError) (e : Event) (answer : Answer) :
      (s₀.process e answer).state = .finalError := by
    simp [Machine.process, hs₀, StateName.isTerminate]
  cases step_cases hstep with
  | clock elapsed => exact h
  | queued e queue answer hqueue => exact hprocess (s.setQueue queue) h e answer
  | start hqueue htasks => exact hprocess s h _ _
  | call call hqueue htasks => exact hprocess s h _ _
  | task t tasks answer hqueue htasks =>
    cases t with
    | event e => exact hprocess (s.setTasks tasks) h e answer
    | content startPos buffer => exact h
    | start owner op => exact (startContent_kept _ owner op).state.trans h
    | delayPost owner postData => exact h
    | pipe owner => exact h
  | complete i op received err hqueue htasks hop =>
    exact (completed_kept _ op received err).state.trans h
  | timer i t err hqueue htasks ht hcompletes => exact (timedOut_kept _ t err).state.trans h
  | delay i d err hqueue htasks hd =>
    exact delayed_cases (P := fun s' => s'.state = .finalError) _ d err h (fun _ _ _ => h)
      fun _ _ _ _ _ _ => h

theorem Doomed.step {a : Act} (h : Doomed s) (hstep : s.step a = some s') : Doomed s' := by
  by_cases hfinal : s.state = .finalError
  · exact .inl (finalError_step hfinal hstep)
  obtain ⟨hfailing, hevents, evt, hplain, hmem⟩ := h.resolve_left hfinal
  -- A handler runs, so no other one starts.
  have hbusy (hqueue : s.queue = []) (htasks : s.tasks = []) : Doomed s' := by
    rw [pending_of_idle hqueue htasks] at hmem
    cases hmem
  cases step_cases hstep with
  | clock elapsed => exact .inr ⟨hfailing, hevents, evt, hplain, hmem⟩
  | queued e queue answer hqueue =>
    have hpending : s.pending = .event e :: (queue.map Task.event ++ s.tasks) := by
      simp [pending, hqueue]
    exact h.process hpending (s.setQueue queue) rfl rfl answer
  | task t tasks answer hqueue htasks =>
    have hpending : s.pending = t :: tasks := by simp [pending, hqueue, htasks]
    have hway := hevents t (hpending ▸ List.mem_cons_self)
    cases t with
    | event e => exact h.process hpending (s.setTasks tasks) rfl (by simp [pending, hqueue]) answer
    | _ => cases hway
  | start hqueue htasks => exact hbusy hqueue htasks
  | call call hqueue htasks => exact hbusy hqueue htasks
  | complete i op received err hqueue htasks hop => exact hbusy hqueue htasks
  | timer i t err hqueue htasks ht hcompletes => exact hbusy hqueue htasks
  | delay i d err hqueue htasks hd => exact hbusy hqueue htasks

/-- An end of the pipe before the announced size raises nothing but errors. -/
theorem pipeEvents_short {d : SendPostData} {chunk : PipeChunk} (hbytes : chunk.bytes = [])
    (hcount : d.bytesReadFromInterface ≠ d.postInterfaceSize) :
    (∀ e ∈ d.pipeEvents chunk, e.isError = true) ∧
      ∃ evt : ErrorEvent, evt.Plain ∧ .error evt ∈ d.pipeEvents chunk := by
  have hfinish : d.finish =
      .error (postSizeError d.postInterfaceSize d.bytesReadFromInterface) := if_neg hcount
  have hplain : (postSizeError d.postInterfaceSize d.bytesReadFromInterface).Plain := by
    simp [ErrorEvent.Plain, postSizeError]
  cases chunk with
  | data bytes =>
    obtain rfl : bytes = [] := hbytes
    refine ⟨?_, _, hplain, ?_⟩ <;> simp [SendPostData.pipeEvents, hfinish, Event.isError]
  | throws what =>
    refine ⟨?_, _, hplain, ?_⟩ <;> simp [SendPostData.pipeEvents, hfinish, Event.isError]

theorem Doomed.of_short (d : SendPostData) (answer : Answer) (hstate : s.state = .sendPost)
    (hpending : s.pending =
      (answer.calls.map Call.event ++ d.pipeEvents answer.chunk).map Task.event)
    (hbytes : answer.chunk.bytes = []) (hcount : d.bytesReadFromInterface ≠ d.postInterfaceSize) :
    Doomed s := by
  obtain ⟨herrors, evt, hplain, hevt⟩ := pipeEvents_short hbytes hcount
  refine .inr ⟨by rw [hstate]; rfl, fun t ht => ?_, evt, hplain, ?_⟩
  · rw [hpending] at ht
    obtain ⟨e, he, rfl⟩ := List.mem_map.mp ht
    rcases List.mem_append.mp he with hcall | hpipe
    · obtain ⟨call, -, rfl⟩ := List.mem_map.mp hcall
      cases call <;> rfl
    · have herror := herrors e hpipe
      cases e <;> first | rfl | cases herror
  · rw [hpending]
    exact List.mem_map_of_mem (List.mem_append_right _ hevt)

theorem add_short {first : Bool} {postDataSize : ℕ} {chunk : PipeChunk} (hbefore : y.short = false)
    (hshort : (y.add first postDataSize chunk).short = true) :
    chunk.bytes = [] ∧ (if first then [] else y.hop).length ≠ postDataSize := by
  simp only [Yielded.add, hbefore, Bool.false_or, Bool.and_eq_true, decide_eq_true_eq] at hshort
  obtain ⟨hbytes, hlength⟩ := hshort
  rw [hbytes, List.append_nil] at hlength
  exact ⟨hbytes, hlength⟩

/-- A pipe that has nothing at all for a connection. -/
theorem Taken.doomed {e : Event} (h : Taken post s y e) (answer : Answer) (hbefore : y.short = false)
    (hshort : (entryYield post s e answer y).short = true) : Doomed (s.process e answer) := by
  by_cases hentry : e = .headersWritten ∧ s.state = .sendHeader
  · obtain ⟨rfl, hstate⟩ := hentry
    cases post with
    | data bytes =>
      have hsame : y.short = true := hshort
      rw [hbefore] at hsame
      cases hsame
    | pipe postDataSize =>
      have hyield : entryYield (.pipe postDataSize) s .headersWritten answer y =
          y.add true postDataSize answer.chunk := if_pos ⟨rfl, hstate⟩
      rw [hyield] at hshort
      obtain ⟨hbytes, hlength⟩ := add_short hbefore hshort
      rw [process_headersWritten h.posting.config hstate]
      exact .of_short _ answer ((s.leave .sendPost).enterSendPost_entered answer).state
        (h.enterPipe_spec answer).1 hbytes hlength
  · rw [entryYield_of_not answer hentry, hbefore] at hshort
    cases hshort

/-- The step in which the pipe has ended too early. -/
theorem Posting.doomed {a : Act} (h : Posting post s y) (hstep : s.step a = some s')
    (hbound : post.Bounded (s.observeYield a y)) (hbefore : y.short = false)
    (hshort : (s.observeYield a y).short = true) : Doomed s' := by
  have hbegun (h : ∀ answer, a ≠ .proceed answer) : Doomed s' := by
    rw [observeYield_of_begun a h, hbefore] at hshort
    cases hshort
  cases step_cases hstep with
  | queued e queue answer hqueue =>
    have hpending : s.pending = .event e :: (queue.map Task.event ++ s.tasks) := by
      simp [pending, hqueue]
    rw [observeYield_event h hpending] at hshort
    exact (h.taken hpending (alike_setQueue s queue) rfl).doomed answer hbefore hshort
  | task t tasks answer hqueue htasks =>
    have hpending : s.pending = t :: tasks := by simp [pending, hqueue, htasks]
    have hother (hevent : ∀ e, t ≠ .event e) (hpipe : ∀ owner, t ≠ .pipe owner) :
        Doomed ((s.setTasks tasks).runTask t answer) := by
      rw [observeYield_other hpending hevent hpipe, hbefore] at hshort
      cases hshort
    cases t with
    | event e =>
      rw [observeYield_event h hpending] at hshort
      exact (h.taken hpending (alike_setTasks htasks) (by simp [pending, hqueue])).doomed answer
        hbefore hshort
    | pipe owner =>
      obtain ⟨hstate, -, hall, postDataSize, rfl⟩ := h.asking owner (htasks ▸ List.mem_cons_self)
      have hcount := trunc_hop (Bounded.of_observeYield hbound) h.suffix
      rw [observeYield_pipe h.config hpending] at hshort
      obtain ⟨hbytes, hlength⟩ := add_short hbefore hshort
      obtain rfl : tasks = [] := by simpa [pending, hqueue, htasks] using hall
      refine .of_short s.sendPostData answer hstate ?_ hbytes ?_
      · simp [pending, runTask, postViaInterface, hqueue, hbytes]
      · rw [h.counted hstate postDataSize rfl, hcount]
        exact hlength
    | _ => exact hother (by simp) (by simp)
  | _ => exact hbegun (by simp)

/-- A step leaves the configuration alone. -/
theorem step_cfg {s s' : Machine} {a : Act} (hstep : s.step a = some s') : s'.cfg = s.cfg := by
  have hprocess (s₀ : Machine) (e : Event) (answer : Answer) :
      (s₀.process e answer).cfg = s₀.cfg :=
    process_cases (P := fun s' => s'.cfg = s₀.cfg) s₀ e answer (fun _ => rfl) (fun _ _ => rfl)
      fun _ _ _ _ hentry => hentry.entered.cfg
  cases step_cases hstep with
  | clock elapsed => rfl
  | queued e queue answer hqueue => exact hprocess (s.setQueue queue) e answer
  | start hqueue htasks => exact hprocess s _ _
  | call call hqueue htasks => exact hprocess s _ _
  | task t tasks answer hqueue htasks =>
    cases t with
    | event e => exact hprocess (s.setTasks tasks) e answer
    | content startPos buffer => rfl
    | start owner op => exact (startContent_kept _ owner op).cfg
    | delayPost owner postData => rfl
    | pipe owner => rfl
  | complete i op received err hqueue htasks hop => exact (completed_kept _ op received err).cfg
  | timer i t err hqueue htasks ht hcompletes => exact (timedOut_kept _ t err).cfg
  | delay i d err hqueue htasks hd =>
    exact delayed_cases (P := fun s' => s'.cfg = s.cfg) _ d err rfl (fun _ _ _ => rfl)
      fun _ _ _ _ _ _ => rfl

end Handlers

end Machine

/-! ### The whole body -/

/-- The body of a POST: the buffer, or all that the pipe has given. -/
def Post.body : Post → Yielded → List UInt8
  | .data bytes, _ => bytes
  | .pipe _, y => y.lifetime

/-- A request that is complete has sent the whole body behind the headers of its last connection,
and as many bytes as these announce. One whose pipe has ended early is over with an error as soon
as no handler runs. -/
structure SentWhole (post : Post) (s : Machine) (y : Yielded) : Prop where
  sent : s.state = .complete → sentBody s.log = post.body y ∧
    HasHeader s.cfg.headers "Content-Length" (toString (sentBody s.log).length)
  failed : y.short = true → s.idle = true → s.state = .finalError

namespace Machine

/-- What a run keeps, as long as the pipe gives no more than it has announced. -/
structure Sending (cfg : Config) (post : Post) (p : Machine × Yielded) : Prop where
  cfg : p.1.cfg = cfg.setPost post
  posting : post.Bounded p.2 → Posting post p.1 p.2
  doomed : post.Bounded p.2 → p.2.short = true → Doomed p.1

theorem Sending.step {cfg : Config} {post : Post} {p p' : Machine × Yielded} {a : Act}
    (h : Sending cfg post p) (hstep : watch Machine.step observeYield p a = some p') :
    Sending cfg post p' := by
  obtain ⟨s, y⟩ := p
  obtain ⟨s', y'⟩ := p'
  obtain ⟨hs, hy⟩ := watch_eq_some hstep
  obtain rfl : y' = s.observeYield a y := hy
  refine ⟨(step_cfg hs).trans h.cfg, fun hbound => ?_, fun hbound hshort => ?_⟩
  · exact (h.posting (Bounded.of_observeYield hbound)).step hs hbound
  · have hbefore := Bounded.of_observeYield hbound
    cases hy : y.short with
    | true => exact (h.doomed hbefore hy).step hs
    | false => exact (h.posting hbefore).doomed hs hbound hy hshort

theorem Sending.sentWhole {cfg : Config} {post : Post} {p : Machine × Yielded}
    (h : Sending cfg post p) (hbound : post.Bounded p.2) : SentWhole post p.1 p.2 := by
  have hposting := h.posting hbound
  refine ⟨fun hcomplete => ?_, fun hshort hidle => ?_⟩
  · obtain ⟨hbody, hlength⟩ := hposting.whole (by rw [hcomplete]; rfl)
    refine ⟨hbody.trans ?_, ?_⟩
    · cases post with
      | data bytes => rfl
      | pipe postDataSize =>
        -- The bytes of this connection are as many as the pipe gives at all.
        exact hposting.suffix.eq_of_length_le (hbound.2.trans hlength.ge)
    · rw [hbody, hlength, h.cfg]
      exact cfg.hasHeader_setPost post
  · obtain ⟨hqueue, htasks⟩ := idle_iff.mp hidle
    refine (h.doomed hbound hshort).resolve_right ?_
    rintro ⟨-, -, evt, -, hmem⟩
    rw [pending_of_idle hqueue htasks] at hmem
    cases hmem

/-- In every run a POST that completes has been sent whole, whatever is redirected, restarted or
fails. -/
theorem run_sentWhole (cfg : Config) (post : Post) (time : ℕ) (acts : List Act) :
    Always (watch Machine.step observeYield)
      (fun p => post.Bounded p.2 → SentWhole post p.1 p.2)
      (create (cfg.setPost post) time, {}) acts := by
  refine Always.of_guarded (I := Sending cfg post) (G := fun _ _ _ => True)
    (fun _ h => h.sentWhole) (fun _ _ _ h _ hstep => h.step hstep) ?_ along_true
  exact ⟨rfl, fun _ => posting_create cfg post time, fun _ => nofun⟩

/-- A pipe of two bytes, and a response without content. -/
def twoBytes : List Act :=
  [.start, .proceed {}, .complete 0 [] none, .proceed {}, .complete 0 [] none, .proceed {},
    .complete 0 [] none, .proceed { chunk := .data [1, 2] }, .delay 0 false, .complete 0 [] none,
    .proceed {}, .proceed {},
    .complete 0 "HTTP/1.1 200 OK\r\nContent-Length: 0\r\n\r\n".toUTF8.toList none,
    .proceed {}, .proceed {}, .complete 0 [] none, .proceed {}, .proceed {}]

/-- A request that posts a pipe of two bytes, before its start. -/
def postTwoBytes : Machine × Yielded :=
  (create (Config.setPost { originalUrl := "http://h/", gunzip := fun _ => .error (.exception "") }
    (.pipe 2)) 0, {})

theorem run_sentWhole_twoBytes : ∃ p,
    run (watch Machine.step observeYield) postTwoBytes twoBytes = some p ∧
      p.1.state = .complete ∧ (Post.pipe 2).Bounded p.2 ∧ SentWhole (.pipe 2) p.1 p.2 := by
  obtain ⟨p, hrun, hp⟩ := Option.map_eq_some_iff.mp
    (show ((run (watch Machine.step observeYield) postTwoBytes twoBytes).map fun p =>
      (p.1.state, p.2.lifetime)) = some (.complete, [1, 2]) by decide +kernel)
  obtain ⟨hstate, hlifetime⟩ := Prod.mk.inj hp
  have hbounded : (Post.pipe 2).Bounded p.2 := by simp [Post.Bounded, hlifetime]
  exact ⟨p, hrun, hstate, hbounded, (run_sentWhole _ (.pipe 2) 0 twoBytes).last hrun hbounded⟩

end Machine

end MediafireSdk.Http
