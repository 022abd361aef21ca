import Lecrev.Direct.Stream

/-!
# Reports of direct invocations and the store

`handleAssignmentUpdate` first asks `handleDirectInvokeUpdate` whether a report belongs to a direct
invocation, and reaches the store only for the others. The answer is the entry of the attempt in
`directInvokes`. The entry stays when the context of the call is cancelled and when `onHTTPEvent`
fails, and goes with the first final report.
-/

namespace Lecrev.Direct

/-- The report is handled in this step, and the coordinator returns without a call to the store. -/
def HandledOffPath (s : Invocation) : Event → Prop
  | .lookup => ∀ msg pending, s.inHand = none → s.pending = msg :: pending →
      ∀ retry now, handleAssignmentUpdate ⟨retry, s.directInvokes⟩ now msg = pure none
  | _ => True

/-- The reports that the coordinator has handled. -/
def handled (reports : List AssignmentUpdate) (s : Invocation) : List AssignmentUpdate :=
  reports.take (reports.length - s.pending.length)

/-- No report follows a final one. -/
def FinalLast (reports : List AssignmentUpdate) : Prop :=
  ∀ msg ∈ reports.dropLast, msg.state.terminal = false

instance (reports : List AssignmentUpdate) : Decidable (FinalLast reports) :=
  inferInstanceAs (Decidable (∀ msg ∈ reports.dropLast, msg.state.terminal = false))

theorem handleAssignmentUpdate_eq_pure_iff {directInvokes : List String} {msg : AssignmentUpdate} :
    (∀ retry now, handleAssignmentUpdate ⟨retry, directInvokes⟩ now msg = pure none) ↔
      msg.attemptID ∈ directInvokes := by
  constructor
  · intro h
    by_contra hnot
    have hpure := h false 0
    rw [handleAssignmentUpdate, if_neg (by simpa using hnot)] at hpure
    -- the first thing that is done otherwise is a call to the store
    cases hpure
  · intro hmem retry now
    rw [handleAssignmentUpdate, if_pos (by simpa using hmem)]

section Run

variable {call : Call} {reports before : List AssignmentUpdate} {s : Invocation} {e : Event}

/-- The reports split into those that were handled and those that were not; the attempt has its
entry while none of the handled ones was final. -/
structure Tracked (call : Call) (reports before : List AssignmentUpdate) (s : Invocation) :
    Prop where
  split : reports = before ++ s.pending
  own : ∀ msg ∈ reports, msg.attemptID = call.attemptID
  entry : call.attemptID ∈ s.directInvokes ↔ ∀ msg ∈ before, msg.state.terminal = false

theorem Tracked.handled_eq (h : Tracked call reports before s) : handled reports s = before := by
  rw [handled, h.split, List.length_append, Nat.add_sub_cancel, List.take_left]

variable (call) in
/-- Other steps leave the pending reports alone. -/
theorem pending_step (he : e = .lookup → s.inHand ≠ none ∨ s.pending = []) :
    (step call s e).pending = s.pending ∧ (step call s e).directInvokes = s.directInvokes := by
  cases e with
  | lookup =>
    change s.lookup.pending = s.pending ∧ s.lookup.directInvokes = s.directInvokes
    unfold Invocation.lookup
    split
    · next hhand hpending =>
      obtain h | h := he rfl
      · exact absurd hhand h
      · rw [h] at hpending
        cases hpending
    · exact ⟨rfl, rfl⟩
  | send =>
    change s.send.pending = s.pending ∧ s.send.directInvokes = s.directInvokes
    unfold Invocation.send
    split
    · exact ⟨rfl, rfl⟩
    · split
      · exact ⟨rfl, rfl⟩
      · split_ifs <;> exact ⟨rfl, rfl⟩
  | wake k =>
    change (s.wake k).pending = s.pending ∧ (s.wake k).directInvokes = s.directInvokes
    unfold Invocation.wake
    split
    · exact ⟨rfl, rfl⟩
    · split <;> exact ⟨rfl, rfl⟩
  | receive now =>
    change (s.receive call now).pending = s.pending ∧
      (s.receive call now).directInvokes = s.directInvokes
    unfold Invocation.receive
    split <;> exact ⟨rfl, rfl⟩
  | done err =>
    change (s.done call err).pending = s.pending ∧
      (s.done call err).directInvokes = s.directInvokes
    unfold Invocation.done
    split <;> exact ⟨rfl, rfl⟩

theorem lookup_eq {msg : AssignmentUpdate} {pending : List AssignmentUpdate}
    (hhand : s.inHand = none) (hpending : s.pending = msg :: pending) :
    s.lookup.pending = pending ∧ s.lookup.directInvokes = remaining s.directInvokes msg := by
  unfold Invocation.lookup
  rw [hhand, hpending]
  exact ⟨rfl, rfl⟩

theorem mem_remaining {directInvokes : List String} {msg : AssignmentUpdate} :
    msg.attemptID ∈ remaining directInvokes msg ↔
      msg.attemptID ∈ directInvokes ∧ msg.state.terminal = false := by
  unfold remaining
  split_ifs with hfinal
  · simp [hfinal]
  · simp [hfinal]

/-- **Step lemma.** A step handles no report, or one more; in the latter case it stays off the path
exactly when no report before it was final. -/
theorem Tracked.step (h : Tracked call reports before s) (e : Event) :
    (Tracked call reports before (Direct.step call s e) ∧ HandledOffPath s e) ∨
      ∃ msg, Tracked call reports (before ++ [msg]) (Direct.step call s e) ∧
        (HandledOffPath s e ↔ ∀ msg ∈ before, msg.state.terminal = false) := by
  by_cases he : e = .lookup → s.inHand ≠ none ∨ s.pending = []
  · left
    obtain ⟨hpending, hentries⟩ := pending_step call he
    refine ⟨⟨hpending ▸ h.split, h.own, hentries ▸ h.entry⟩, ?_⟩
    cases e with
    | lookup =>
      intro msg pending hhand hmsg
      obtain hnot | hnot := he rfl
      · exact absurd hhand hnot
      · rw [hnot] at hmsg
        cases hmsg
    | _ => trivial
  · right
    push Not at he
    obtain ⟨rfl, hhand, hne⟩ := he
    obtain ⟨msg, pending, hmsg⟩ := List.exists_cons_of_ne_nil hne
    obtain ⟨hpending, hentries⟩ := lookup_eq hhand hmsg
    have hown : msg.attemptID = call.attemptID :=
      h.own msg (by rw [h.split, hmsg]; exact List.mem_append_right _ List.mem_cons_self)
    have hentry := h.entry
    rw [← hown] at hentry
    refine ⟨msg, ⟨?_, h.own, ?_⟩, ?_⟩
    · change reports = before ++ [msg] ++ s.lookup.pending
      rw [hpending, List.append_assoc, List.singleton_append, ← hmsg]
      exact h.split
    · change call.attemptID ∈ s.lookup.directInvokes ↔ _
      rw [hentries, ← hown, mem_remaining, hentry, List.forall_mem_append,
        List.forall_mem_singleton]
    · rw [← hentry, ← handleAssignmentUpdate_eq_pure_iff]
      constructor
      · exact fun hoff => hoff msg pending hhand hmsg
      · intro hpure msg' pending' _ hmsg'
        rw [hmsg] at hmsg'
        obtain ⟨rfl, -⟩ := List.cons.inj hmsg'
        exact hpure

/-- **Run lemma.** Every report of a run stays off the path exactly when none was handled after a
final one. -/
theorem tracked_exec (h : Tracked call reports [] s) (schedule : List Event) :
    ∃ before, Tracked call reports before ((system call).exec s schedule) ∧
      ((system call).EveryStep HandledOffPath s schedule ↔ FinalLast before) := by
  -- induction on the last event of the run
  induction schedule using List.reverseRecOn with
  | nil => exact ⟨[], h, iff_of_true trivial (fun _ hmem => absurd hmem List.not_mem_nil)⟩
  | append_singleton schedule e ih =>
    obtain ⟨before, htracked, hiff⟩ := ih
    rw [Transition.System.exec_append, Transition.System.everyStep_append, hiff]
    obtain ⟨hnext, hoff⟩ | ⟨msg, hnext, hoff⟩ := htracked.step e
    · exact ⟨before, hnext, and_iff_left ⟨hoff, trivial⟩⟩
    · refine ⟨before ++ [msg], hnext, ?_⟩
      rw [FinalLast, FinalLast, List.dropLast_concat, ← hoff]
      constructor
      · exact fun hall => hall.2.1
      · intro hoffPath
        refine ⟨fun m hm => hoff.mp hoffPath m (List.mem_of_mem_dropLast hm), hoffPath, trivial⟩

end Run

/-- **Direct updates and the store.** A host has the assignment of a direct invocation. Whatever it
reports about the attempt, and however the handling of the reports, the loop of the call and the
cancellation of its context interleave: every report that is handled stays off the durable path if
and only if none is handled after a final one. -/
theorem off_path_iff {clock : ℕ → Time} {order : MapOrder HostSession} {done : Bool}
    {assignment : Assignment} {w w' : World}
    (hstart : (startDirectExecution clock order done assignment).run w = (.ok (), w')) {call : Call}
    (hcall : call.attemptID = assignment.attemptID) {reports : List AssignmentUpdate}
    (hreports : ∀ msg ∈ reports, msg.attemptID = assignment.attemptID) (schedule : List Event) :
    (system call).EveryStep HandledOffPath (.start call w'.coordinator.directInvokes reports)
        schedule ↔
      FinalLast (handled reports ((system call).exec
        (.start call w'.coordinator.directInvokes reports) schedule)) := by
  have hregistered := registered_of_startDirectExecution hstart
  rw [← hcall] at hregistered hreports
  have htracked : Tracked call reports [] (.start call w'.coordinator.directInvokes reports) :=
    ⟨rfl, hreports, iff_of_true hregistered fun _ hmem => absurd hmem List.not_mem_nil⟩
  obtain ⟨before, hbefore, hiff⟩ := tracked_exec htracked schedule
  rw [hbefore.handled_eq]
  exact hiff

namespace Sample

def session : HostSession where
  host :=
    { id := "h", region := "r", driver := "firecracker", state := .active, availableSlots := 1
      availableFullNetworkSlots := 0, blankWarm := 0, functionWarm := ∅, lastHeartbeat := 0 }
  sendCh := none
  executor := true
  preparer := false

def world : World where
  store := Store.new
  coordinator := { Coordinator.new "r" with hosts := Table.empty.put session }
  handed := []

def assignment : Assignment := { DomainSample.assignment with attemptID := "a", jobID := "j" }

def started : Except Err Unit × World :=
  (startDirectExecution (fun _ => 0) .table false assignment).run world

theorem started_eq : (startDirectExecution (fun _ => 0) .table false assignment).run world =
    (.ok (), started.2) := by
  have hok : started.1 = .ok () := by decide +kernel
  exact Prod.ext hok rfl

def twice (first second : AssignmentState) : List AssignmentUpdate :=
  [report first [], report second []]

theorem own_twice (first second : AssignmentState) :
    ∀ msg ∈ twice first second, msg.attemptID = assignment.attemptID := by
  simp [twice, report, assignment]

end Sample

open Sample in
theorem off_path_iff_sample : (system call).EveryStep HandledOffPath
    (.start call started.2.coordinator.directInvokes (twice .running .succeeded))
    [.lookup, .send, .done .canceled, .lookup] :=
  (off_path_iff started_eq rfl (own_twice _ _) _).mpr (by decide +kernel)

open Sample in
/-- A report that follows the final one finds no entry and goes to the store. -/
theorem not_off_path : ¬ ∀ (clock : ℕ → Time) (order : MapOrder HostSession) (done : Bool)
    (assignment : Assignment) (w w' : World),
    (startDirectExecution clock order done assignment).run w = (.ok (), w') → ∀ call : Call,
    call.attemptID = assignment.attemptID → ∀ reports : List AssignmentUpdate,
    (∀ msg ∈ reports, msg.attemptID = assignment.attemptID) → ∀ schedule : List Event,
      (system call).EveryStep HandledOffPath (.start call w'.coordinator.directInvokes reports)
        schedule := by
  intro h
  obtain ⟨-, -, hlast, -⟩ := h _ _ _ _ _ _ started_eq call rfl (twice .succeeded .running)
    (own_twice _ _) [.lookup, .send, .lookup]
  have hentry := handleAssignmentUpdate_eq_pure_iff.mp (hlast (report .running []) [] rfl rfl)
  exact absurd hentry (by decide +kernel)

end Lecrev.Direct
