import Lecrev.Coordinator.Assign
import Lecrev.Execution.System

/-!
# Deliveries of assignments

A scheduler publishes its assignments on the execution bus of a region, and the bus delivers them to
`assignExecution` of the region's coordinator. The bus delivers at least once: an assignment whose
handler returned an error comes again, after any time, and so does one whose acknowledgement was
lost. Meanwhile the attempt's lease runs, recovery may fail the attempt, and agents report.
-/

namespace Lecrev

namespace Delivery

/-- The execution path, the coordinator of a region, and its bus. -/
structure State where
  path : Execution.State
  coordinator : Coordinator
  /-- The assignments that reached a host, most recent first. -/
  handed : List HandOver
  /-- The attempts whose assignments are acknowledged to the bus. -/
  acked : List String

/-- One delivery of an assignment, with the circumstances it meets. -/
structure Arrival where
  assignment : Assignment
  clock : ℕ → Time := fun _ => 0
  order : MapOrder HostSession := .table
  /-- The consumer's context is done. -/
  done : Bool := false
  /-- The acknowledgement does not reach the bus. -/
  ackLost : Bool := false

/-- What happens next. -/
inductive Event
  /-- A handler of the execution path. -/
  | path (e : Execution.Event)
  /-- The other functions of the coordinator: hosts register, report, drain and go. -/
  | hosts (coordinator : Coordinator)
  /-- The bus delivers an assignment. -/
  | deliver (d : Arrival)

/-- The coordinator and the store that a delivery meets. -/
def State.world (s : State) : World := ⟨s.path.store, s.coordinator, s.handed⟩

/-- A handler that returned `nil` is acknowledged; after an error the bus delivers again. -/
def acknowledge (s : State) (d : Arrival) : Except Err Unit → List String
  | .ok () => if d.ackLost then s.acked else d.assignment.attemptID :: s.acked
  | .error _ => s.acked

/-- `ConsumeExecution` for one message: run the handler, and acknowledge the message. -/
def deliver (s : State) (d : Arrival) : State :=
  let r := (assignExecution d.clock d.order d.done d.assignment).run s.world
  { path := { s.path with store := r.2.store }
    coordinator := r.2.coordinator
    handed := r.2.handed
    acked := acknowledge s d r.1 }

/-- One event: a step of the execution path, a change of the hosts, or a delivery. -/
def step (s : State) : Event → State
  | .path e => { s with path := Execution.step s.path e }
  | .hosts coordinator => { s with coordinator }
  | .deliver d => deliver s d

/-- Every dispatcher publishes on a bus. -/
def Publishes (sch : Scheduler) : Prop :=
  ∀ region dispatcher, sch.dispatchers region = some dispatcher →
    ∃ stats answer, dispatcher = .ofBus region stats answer

/-- The events that may occur: schedulers publish on the bus, and the bus delivers what was
published and is not acknowledged. -/
def Enabled (s : State) : Event → Prop
  | .path e =>
    Execution.Enabled s.path e ∧
      match e with
      | .scheduleNext sch _ _ => Publishes sch
      | _ => True
  | .hosts _ => True
  | .deliver d => d.assignment ∈ s.path.store.accepted ∧ d.assignment.attemptID ∉ s.acked

/-- Deliveries along with the execution path. -/
def system : Transition.System State Event where
  step := step
  enabled := Enabled

/-- No assignment has reached a host yet. -/
structure Initial (s : State) : Prop where
  path : Execution.Initial s.path
  handed : s.handed = []
  acked : s.acked = []

/-! ## At most once, and only while live -/

/-- Every assignment reached its host while the store had a live attempt for it. -/
def WhileLive (handed : List HandOver) : Prop :=
  ∀ h ∈ handed, ∃ state, h.state = some state ∧ state.terminal = false

/-- No attempt reached a host twice. -/
def Once (handed : List HandOver) : Prop := (handed.map (·.attemptID)).Nodup

/-- The condition on deliveries: the stored attempt is live, and the acknowledgement arrives. -/
def Timely (s : State) : Event → Prop
  | .deliver d =>
    (∀ a, s.path.store.attempts.get d.assignment.attemptID = some a → a.state.terminal = false) ∧
      d.ackLost = false
  | _ => True

/-- What timely deliveries keep: what reached a host is acknowledged. -/
structure Inv (s : State) : Prop where
  live : WhileLive s.handed
  once : Once s.handed
  acked : ∀ h ∈ s.handed, h.attemptID ∈ s.acked

theorem deliver_cases (s : State) (d : Arrival) :
    ((deliver s d).handed = s.handed ∧ (deliver s d).acked = s.acked) ∨
      ∃ a hostID, s.path.store.attempts.get d.assignment.attemptID = some a ∧
        (deliver s d).handed =
          { attemptID := d.assignment.attemptID, hostID, state := some a.state } :: s.handed ∧
        (deliver s d).acked = acknowledge s d (.ok ()) := by
  have hassigned := assigned_assignExecution d.clock d.order d.done d.assignment s.world
  unfold deliver
  generalize (assignExecution d.clock d.order d.done d.assignment).run s.world = r at hassigned
  cases hassigned with
  | refused frame handed => exact .inl ⟨handed, rfl⟩
  | handed hostID stored frame handed => exact .inr ⟨_, hostID, stored, handed, rfl⟩

/-- A timely delivery keeps the invariant. -/
theorem Inv.deliver {s : State} {d : Arrival} (h : Inv s)
    (hnew : d.assignment.attemptID ∉ s.acked) (htimely : Timely s (.deliver d)) :
    Inv (deliver s d) := by
  obtain ⟨hlive, hack⟩ := htimely
  obtain ⟨hhanded, hacked⟩ | ⟨a, hostID, hstored, hhanded, hacked⟩ := deliver_cases s d
  · constructor
    · rw [hhanded]
      exact h.live
    · rw [hhanded]
      exact h.once
    · rw [hhanded, hacked]
      exact h.acked
  · rw [acknowledge, hack, if_neg (by simp)] at hacked
    constructor
    · rw [hhanded]
      intro h' hmem
      rcases List.mem_cons.mp hmem with rfl | hmem
      · exact ⟨_, rfl, hlive _ hstored⟩
      · exact h.live h' hmem
    · -- an attempt that reached a host before would be acknowledged
      rw [hhanded]
      refine List.nodup_cons.mpr ⟨fun hmem => ?_, h.once⟩
      obtain ⟨h', hmem', heq⟩ := List.mem_map.mp hmem
      apply hnew
      rw [← show h'.attemptID = d.assignment.attemptID from heq]
      exact h.acked h' hmem'
    · rw [hhanded, hacked]
      intro h' hmem
      rcases List.mem_cons.mp hmem with rfl | hmem
      · exact List.mem_cons_self
      · exact List.mem_cons_of_mem _ (h.acked h' hmem)

/-- A timely event keeps the invariant. -/
theorem Inv.step {s : State} {e : Event} (he : Enabled s e) (htimely : Timely s e) (h : Inv s) :
    Inv (step s e) := by
  cases e with
  | path e => exact ⟨h.live, h.once, h.acked⟩
  | hosts coordinator => exact ⟨h.live, h.once, h.acked⟩
  | deliver d => exact h.deliver he.2 htimely

/-- **An attempt is executed at most once and only while it is live**, in every run whose deliveries
are timely. -/
theorem handed_once_while_live {s : State} {es : List Event} (hinit : Initial s)
    (hruns : system.Runs s es) (htimely : system.EveryStep Timely s es) :
    WhileLive (system.exec s es).handed ∧ Once (system.exec s es).handed := by
  have hstart : Inv s := by
    constructor <;> simp [hinit.handed, WhileLive, Once]
  have hinv : Inv (system.exec s es) :=
    (Transition.System.everyStep_and.mpr ⟨hruns, htimely⟩).invariant hstart
      fun _ _ hstep h => h.step hstep.1 hstep.2
  exact ⟨hinv.live, hinv.once⟩

/-! ## Late and repeated deliveries -/

namespace Sample

def start : State where
  path := Execution.Sample.start
  coordinator := .new "region"
  handed := []
  acked := []

theorem initial_start : Initial start := ⟨Execution.Sample.initial_start, rfl, rfl⟩

def join : Event :=
  .hosts { Coordinator.new "region" with
    hosts := Table.empty.put
      { host := newHost { hostID := "host", region := "region", driver := "microvm"
                          availableSlots := 2 } 5
        sendCh := some 0, executor := false, preparer := false } }

def assignment : Assignment :=
  newAssignment
    (newAttempt "attempt-1" "region" DomainSample.version
      (newExecutionJob "job" DomainSample.version [] 10) 20)
    DomainSample.version DomainSample.artifact
    (newExecutionJob "job" DomainSample.version [] 10)

def publish : List Event :=
  [.path Execution.Sample.enqueue, .path (Execution.Sample.schedule (.ok ()) 20 "attempt-1")]

theorem publishes (answer : Except Err Unit) : Publishes (Execution.Sample.scheduler answer) := by
  intro region dispatcher h
  simp only [Execution.Sample.scheduler] at h
  split_ifs at h with hregion
  obtain rfl := Option.some.inj h
  exact ⟨_, _, by rw [hregion]⟩

end Sample

open Sample in
theorem handed_once_while_live_sample :
    WhileLive (system.exec start (publish ++ [join, .deliver { assignment }])).handed ∧
      Once (system.exec start (publish ++ [join, .deliver { assignment }])).handed := by
  refine handed_once_while_live initial_start ⟨⟨rfl, trivial⟩, ⟨fun _ => rfl, publishes _⟩, trivial,
    ⟨List.mem_cons_self, List.not_mem_nil⟩, trivial⟩ ⟨trivial, trivial, trivial, ⟨?_, rfl⟩, trivial⟩
  intro a ha
  obtain rfl := Option.some.inj ha
  rfl

open Sample in
/-- An assignment can reach a host after its attempt has failed: the first delivery finds no host,
recovery fails the attempt when its lease has passed, and the bus delivers again. And an attempt can
reach a host twice, when the acknowledgement of the first delivery is lost. -/
theorem not_handed_once_while_live :
    (¬ ∀ (s : State) (es : List Event), Initial s → system.Runs s es →
      WhileLive (system.exec s es).handed) ∧
    ¬ ∀ (s : State) (es : List Event), Initial s → system.Runs s es →
      Once (system.exec s es).handed := by
  constructor
  · intro h
    obtain ⟨state, hstate, hlive⟩ := h start
      (publish ++ [.deliver { assignment },
        .path (Execution.Sample.recover (100 * second) "attempt-1"), join, .deliver { assignment }])
      initial_start
      ⟨⟨rfl, trivial⟩, ⟨fun _ => rfl, publishes _⟩, ⟨List.mem_cons_self, List.not_mem_nil⟩,
        ⟨⟨_, rfl, rfl⟩, trivial⟩, trivial, ⟨List.mem_cons_self, List.not_mem_nil⟩, trivial⟩
      ⟨"attempt-1", "host", some .failed⟩ List.mem_cons_self
    obtain rfl := Option.some.inj hstate
    cases hlive
  · -- `acked` does not contain the attempt, so the bus delivers once more
    intro h
    have honce := h start
      (publish ++ [join, .deliver { assignment, ackLost := true }, .deliver { assignment }])
      initial_start
      ⟨⟨rfl, trivial⟩, ⟨fun _ => rfl, publishes _⟩, trivial,
        ⟨List.mem_cons_self, List.not_mem_nil⟩, ⟨List.mem_cons_self, List.not_mem_nil⟩, trivial⟩
    exact (List.nodup_cons.mp honce).1 List.mem_cons_self

end Delivery

end Lecrev
