import Lecrev.NodeAgent.Outcome

/-!
# The agent's count of free slots

The agent lowers its counters for an assignment or a snapshot, though not below zero, and raises
them again afterwards, though not above its capacity. The counters do not remember how far they
would have gone below zero, nor that the agent was drained: a release that follows too many
reservations, or a drain, raises a counter that should stay at zero. -/

namespace Lecrev.NodeAgent

/-! ## The calls -/

/-- The calls that change the counters. -/
inductive SlotCall
  | reserve (policy : NetworkPolicy)
  | release (policy : NetworkPolicy)
  | drain
  deriving DecidableEq, Repr

/-- An agent, with what its counters should remember. -/
structure SlotState where
  agent : Agent
  /-- The policies of the reservations that are open. -/
  held : List NetworkPolicy := []
  drained : Bool := false

/-- The agent at its start. -/
def SlotState.new (n : Node) : SlotState := { agent := .new n }

/-- The open reservations for the full network. -/
def SlotState.heldFull (s : SlotState) : ℕ := s.held.countP isFullNetworkPolicy

/-- The calls, of which a release follows its own reservation with the same policy. -/
def slotSystem (n : Node) : Transition.System SlotState SlotCall where
  step s
    | .reserve policy =>
      { s with
        agent := ((reserveAssignmentSlots policy).run s.agent).2
        held := policy :: s.held }
    | .release policy =>
      { s with
        agent := ((releaseAssignmentSlots n policy).run s.agent).2
        held := s.held.erase policy }
    | .drain => { s with agent := (applyDrain.run s.agent).2, drained := true }
  enabled s
    | .release policy => policy ∈ s.held
    | _ => True

/-- What a counter should say: the capacity without the open reservations that it counts, and zero
once the agent was drained. -/
def freeSlots (drained : Bool) (capacity : ℤ) (held : ℕ) : ℤ :=
  if drained then 0 else max 0 (capacity - held)

/-- The counters say what is free, and a heartbeat advertises them, as `int32`. -/
structure SlotsAccounted (n : Node) (s : SlotState) : Prop where
  slots : s.agent.availableSlots = freeSlots s.drained n.maxSlots s.held.length
  full : s.agent.availableFull = freeSlots s.drained n.maxFullNetwork s.heldFull
  advertised : ∃ msg, (heartbeatMessage n).run s.agent = (.ok msg, s.agent) ∧
    msg.availableSlots = int32 s.agent.availableSlots ∧
      msg.availableFullNetworkSlots = int32 s.agent.availableFull

/-- A release is in time: the agent was not drained, and there are no more open reservations than
there are slots, nor more for the full network if it is one of those. -/
def InTime (n : Node) (s : SlotState) : SlotCall → Prop
  | .release policy => s.drained = false ∧ s.held.length ≤ n.maxSlots ∧
      (isFullNetworkPolicy policy = true → s.heldFull ≤ n.maxFullNetwork)
  | _ => True

/-- A counter after a reservation, if it counts it. -/
def lowered (counts : Bool) (counter : ℤ) : ℤ :=
  if counts = true ∧ counter > 0 then counter - 1 else counter

/-- A counter after a release, if it counts it. -/
def raised (counts : Bool) (capacity counter : ℤ) : ℤ :=
  if counts = true ∧ counter < capacity then counter + 1 else counter

theorem lowered_freeSlots (counts drained : Bool) (capacity : ℤ) (held : ℕ) :
    lowered counts (freeSlots drained capacity held) =
      freeSlots drained capacity (held + counts.toNat) := by
  unfold lowered freeSlots
  cases counts with
  | false => simp
  | true =>
    cases drained with
    | true => rfl
    | false =>
      simp only [true_and, Bool.toNat_true, Nat.cast_add, Nat.cast_one, Bool.false_eq_true,
        if_false]
      split_ifs <;> omega

/-- A release raises what should be free in the same way exactly when it is in time: the counter has
forgotten how far it would have gone below zero, and that the agent was drained. -/
theorem raised_freeSlots_iff (counts drained : Bool) {capacity : ℤ} (hcapacity : 0 < capacity)
    {held : ℕ} (hheld : counts = true → 0 < held) :
    raised counts capacity (freeSlots drained capacity held) =
        freeSlots drained capacity (held - counts.toNat) ↔
      (counts = true → drained = false ∧ held ≤ capacity) := by
  unfold raised freeSlots
  cases counts with
  | false => simp
  | true =>
    have hpos := hheld rfl
    cases drained with
    | true => simp [hcapacity]
    | false =>
      simp only [true_and, Bool.toNat_true, Bool.false_eq_true, if_false, forall_const]
      split_ifs <;> omega

/-! ## What one call does -/

section Step

variable {n : Node} {s : SlotState} {policy : NetworkPolicy}

theorem SlotsAccounted.of_counters
    (hslots : s.agent.availableSlots = freeSlots s.drained n.maxSlots s.held.length)
    (hfull : s.agent.availableFull = freeSlots s.drained n.maxFullNetwork s.heldFull) :
    SlotsAccounted n s := by
  obtain ⟨msg, hrun, -, hcounters⟩ := run_heartbeatMessage n s.agent
  exact ⟨hslots, hfull, msg, hrun, hcounters⟩

theorem agent_reserve :
    ((slotSystem n).step s (.reserve policy)).agent = s.agent.reserved policy := rfl

theorem agent_release :
    ((slotSystem n).step s (.release policy)).agent = s.agent.released n policy := rfl

theorem availableSlots_reserved (a : Agent) :
    (a.reserved policy).availableSlots = lowered true a.availableSlots := by
  simp only [Agent.reserved, lowered, true_and]

theorem availableFull_reserved (a : Agent) :
    (a.reserved policy).availableFull = lowered (isFullNetworkPolicy policy) a.availableFull := by
  simp only [Agent.reserved, lowered]

theorem availableSlots_released (a : Agent) :
    (a.released n policy).availableSlots = raised true n.maxSlots a.availableSlots := by
  simp only [Agent.released, raised, true_and]

theorem availableFull_released (a : Agent) :
    (a.released n policy).availableFull =
      raised (isFullNetworkPolicy policy) n.maxFullNetwork a.availableFull := by
  simp only [Agent.released, raised]

theorem heldFull_reserve :
    ((slotSystem n).step s (.reserve policy)).heldFull =
      s.heldFull + (isFullNetworkPolicy policy).toNat := by
  change List.countP isFullNetworkPolicy (policy :: s.held) = _
  rw [List.countP_cons, SlotState.heldFull]
  cases isFullNetworkPolicy policy with
  | true => rfl
  | false => rfl

theorem heldFull_release (hheld : policy ∈ s.held) :
    ((slotSystem n).step s (.release policy)).heldFull =
      s.heldFull - (isFullNetworkPolicy policy).toNat := by
  change List.countP isFullNetworkPolicy (s.held.erase policy) = _
  rw [List.countP_erase, SlotState.heldFull]
  cases isFullNetworkPolicy policy with
  | true => simp [hheld]
  | false => simp

theorem accounted_reserve (h : SlotsAccounted n s) :
    SlotsAccounted n ((slotSystem n).step s (.reserve policy)) := by
  refine .of_counters ?_ ?_
  · rw [agent_reserve, availableSlots_reserved, h.slots, lowered_freeSlots]
    rfl
  · rw [agent_reserve, availableFull_reserved, h.full, lowered_freeSlots, heldFull_reserve]
    rfl

theorem accounted_release_iff (hpos : 0 < n.maxSlots ∧ 0 < n.maxFullNetwork)
    (h : SlotsAccounted n s) (hheld : policy ∈ s.held) :
    SlotsAccounted n ((slotSystem n).step s (.release policy)) ↔ InTime n s (.release policy) := by
  have hslots : ((slotSystem n).step s (.release policy)).agent.availableSlots =
      freeSlots s.drained n.maxSlots (s.held.erase policy).length ↔
        (true = true → s.drained = false ∧ s.held.length ≤ n.maxSlots) := by
    rw [agent_release, availableSlots_released, h.slots, List.length_erase_of_mem hheld]
    exact raised_freeSlots_iff true s.drained hpos.1 fun _ => List.length_pos_of_mem hheld
  have hfull : ((slotSystem n).step s (.release policy)).agent.availableFull =
      freeSlots s.drained n.maxFullNetwork ((slotSystem n).step s (.release policy)).heldFull ↔
        (isFullNetworkPolicy policy = true →
          s.drained = false ∧ s.heldFull ≤ n.maxFullNetwork) := by
    rw [agent_release, availableFull_released, h.full, heldFull_release hheld]
    exact raised_freeSlots_iff _ s.drained hpos.2 fun hcounts =>
      List.countP_pos_iff.mpr ⟨policy, hheld, hcounts⟩
  constructor
  · intro hstep
    obtain ⟨hdrained, hlength⟩ := hslots.mp hstep.slots rfl
    exact ⟨hdrained, hlength, fun hcounts => (hfull.mp hstep.full hcounts).2⟩
  · rintro ⟨hdrained, hlength, hlimit⟩
    exact .of_counters (hslots.mpr fun _ => ⟨hdrained, hlength⟩)
      (hfull.mpr fun hcounts => ⟨hdrained, hlimit hcounts⟩)

/-- **One call.** It keeps the counters accurate exactly when it is not a release that comes too
late. -/
theorem accounted_step_iff (hpos : 0 < n.maxSlots ∧ 0 < n.maxFullNetwork) (call : SlotCall)
    (henabled : (slotSystem n).enabled s call) (h : SlotsAccounted n s) :
    SlotsAccounted n ((slotSystem n).step s call) ↔ InTime n s call := by
  cases call with
  | reserve policy => exact iff_of_true (accounted_reserve h) trivial
  | release policy => exact accounted_release_iff hpos h henabled
  | drain => exact iff_of_true (.of_counters rfl rfl) trivial

end Step

/-! ## Runs -/

theorem accounted_new {n : Node} (hpos : 0 < n.maxSlots ∧ 0 < n.maxFullNetwork) :
    SlotsAccounted n (.new n) := by
  refine .of_counters ?_ ?_
  · change n.maxSlots = max 0 (n.maxSlots - (0 : ℕ))
    omega
  · change n.maxFullNetwork = max 0 (n.maxFullNetwork - (0 : ℕ))
    omega

/-- **When the counters are right.** Take any sequence of reservations, releases and drains of a new
agent in which each release follows its own reservation. At every point the counters are the
capacities without the open reservations, and zero after a drain, exactly when no release comes
after a drain or while there are more open reservations than the counter has slots. -/
theorem slots_accounted_iff {n : Node} {hostCPUs : ℤ} {c : Config} (hn : n.Configured hostCPUs c)
    {calls : List SlotCall} (hruns : (slotSystem n).Runs (.new n) calls) :
    (∀ before, before <+: calls → SlotsAccounted n ((slotSystem n).exec (.new n) before)) ↔
      (slotSystem n).EveryStep (InTime n) (.new n) calls :=
  Transition.System.EveryStep.forall_prefix_iff hruns (accounted_new hn.pos)
    fun _ call henabled h =>
    accounted_step_iff hn.pos call henabled h

section Examples

open Sample

theorem configured_node : node.Configured 1 ⟨1, 1⟩ := ⟨rfl, rfl⟩

theorem slots_accounted_sample :
    (slotSystem node).Runs (.new node) [.reserve .full, .release .full, .drain] ∧
      ∀ before, before <+: [SlotCall.reserve .full, .release .full, .drain] →
        SlotsAccounted node ((slotSystem node).exec (.new node) before) := by
  have hruns : (slotSystem node).Runs (.new node) [.reserve .full, .release .full, .drain] :=
    ⟨trivial, List.mem_cons_self, trivial, trivial⟩
  refine ⟨hruns, (slots_accounted_iff configured_node hruns).mpr
    ⟨trivial, ⟨rfl, ?_, fun _ => ?_⟩, trivial, trivial⟩⟩
  · decide
  · decide +kernel

/-- The counters forget an assignment too many: with one slot, two assignments and the end of one of
them, a slot is free although one assignment runs. And they forget a drain: the end of an assignment
makes its slot free again. -/
theorem not_slots_accounted :
    (¬ ∀ (n : Node) (hostCPUs : ℤ) (c : Config) (calls : List SlotCall), n.Configured hostCPUs c →
        (slotSystem n).Runs (.new n) calls → SlotCall.drain ∉ calls →
        SlotsAccounted n ((slotSystem n).exec (.new n) calls)) ∧
    ¬ ∀ (n : Node) (hostCPUs : ℤ) (c : Config) (calls : List SlotCall), n.Configured hostCPUs c →
        (slotSystem n).Runs (.new n) calls →
        (slotSystem n).EveryStep (fun s _ => s.held.length ≤ n.maxSlots) (.new n) calls →
        SlotsAccounted n ((slotSystem n).exec (.new n) calls) := by
  constructor
  · intro h
    have haccounted := h node 1 ⟨1, 1⟩ [.reserve .none, .reserve .none, .release .none]
      configured_node ⟨trivial, trivial, List.mem_cons_self, trivial⟩ (by decide)
    have hslots := haccounted.slots
    revert hslots
    decide
  · intro h
    have haccounted := h node 1 ⟨1, 1⟩ [.reserve .none, .drain, .release .none]
      configured_node ⟨trivial, trivial, List.mem_cons_self, trivial⟩
      ⟨by decide, by decide, by decide, trivial⟩
    have hslots := haccounted.slots
    revert hslots
    decide

end Examples

end Lecrev.NodeAgent
