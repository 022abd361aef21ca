import Lecrev.Concurrency.Fifo
import Lecrev.Concurrency.Transition
import Lecrev.Domain.Types
import Lecrev.ToMathlib.List
import Mathlib.Tactic.Common

/-!
# The in-memory execution bus

`MemoryBus` of `internal/dispatch` keeps the published assignments of each region in a buffered
channel, which it creates on the first call for the region. A consumer passes the assignments to its
handler one at a time; after an error a goroutine publishes the assignment again, half a second
later. The model has any number of publishers, consumers and such goroutines, without `Close` and
without a context that is cancelled.
-/

namespace Lecrev.Dispatch.MemoryBus

open Transition

/-! ## The bus -/

/-- An assignment, with the number of the call that published it. -/
structure Item where
  call : ℕ
  assignment : Assignment
  deriving DecidableEq, Repr

/-- Where a call of `PublishExecution` is. -/
inductive Phase
  /-- The timer of a goroutine that will publish again is running. -/
  | waiting
  /-- The assignment is being sent to a channel. -/
  | sending (chan : ℕ)
  /-- The call has returned nil. -/
  | sent
  deriving DecidableEq, Repr

/-- A call of `PublishExecution`, by a client or by a goroutine that publishes again. -/
structure Publication where
  region : String
  item : Item
  requeue : Bool
  phase : Phase
  deriving DecidableEq, Repr

/-- A call of `ConsumeExecution`, with the assignment that its handler is working on. -/
structure Consumer where
  region : String
  chan : ℕ
  handling : Option Item := none
  deriving DecidableEq, Repr

/-- The bus with the calls of its methods. A channel is known by its number. -/
structure State (buffer : ℕ) where
  queues : String → Option ℕ := fun _ => none
  chans : ℕ → Fifo Item buffer := fun _ => .empty
  /-- How many channels have been made. -/
  made : ℕ := 0
  publications : List Publication := []
  consumers : List Consumer := []
  /-- The assignments whose handler has returned nil, with the region of the consumer. -/
  handled : List (String × Item) := []

/-- The capacity of the queue of a region. -/
def bufferSize (buffer : ℤ) : ℕ := if buffer ≤ 0 then 256 else buffer.toNat

variable {buffer : ℕ}

/-- `queue`: the channel of the region, which is made if there is none. -/
def State.queue (s : State buffer) (region : String) : ℕ × State buffer :=
  match s.queues region with
  | some chan => (chan, s)
  | none =>
    (s.made,
      { s with queues := Function.update s.queues region (some s.made), made := s.made + 1 })

/-- The steps of the goroutines. -/
inductive Label
  /-- A client calls `PublishExecution`, which looks up the channel. -/
  | publish (region : String) (assignment : Assignment)
  /-- The timer of a goroutine fires, and `PublishExecution` looks up the channel. -/
  | wake (i : ℕ)
  /-- `PublishExecution` sends. -/
  | send (i : ℕ)
  /-- `ConsumeExecution` is called. -/
  | consume (region : String)
  /-- `ConsumeExecution` receives an assignment, which its handler then works on. -/
  | receive (k : ℕ)
  /-- The handler returns. -/
  | finish (k : ℕ) (result : Except Err Unit)

/-- The state after a step; nothing if the step is not possible. A send blocks while the channel is
full, a receive while it is empty. -/
def next (s : State buffer) : Label → Option (State buffer)
  | .publish region assignment =>
    let (chan, s) := s.queue region
    let item : Item := ⟨s.publications.length, assignment⟩
    some { s with publications := s.publications ++ [⟨region, item, false, .sending chan⟩] }
  | .wake i => do
    let p ← s.publications[i]?
    match p.phase with
    | .waiting =>
      let (chan, s) := s.queue p.region
      some { s with publications := s.publications.set i { p with phase := .sending chan } }
    | _ => none
  | .send i => do
    let p ← s.publications[i]?
    match p.phase with
    | .sending chan => do
      let queue ← (s.chans chan).offer p.item
      some { s with
        chans := Function.update s.chans chan queue
        publications := s.publications.set i { p with phase := .sent } }
    | _ => none
  | .consume region =>
    let (chan, s) := s.queue region
    some { s with consumers := s.consumers ++ [{ region, chan }] }
  | .receive k => do
    let c ← s.consumers[k]?
    match c.handling with
    | some _ => none
    | none => do
      let (item, queue) ← (s.chans c.chan).take
      some { s with
        chans := Function.update s.chans c.chan queue
        consumers := s.consumers.set k { c with handling := some item } }
  | .finish k result => do
    let c ← s.consumers[k]?
    let item ← c.handling
    let s := { s with consumers := s.consumers.set k { c with handling := none } }
    match result with
    | .ok () => some { s with handled := s.handled ++ [(c.region, item)] }
    | .error _ =>
      some { s with publications := s.publications ++ [⟨c.region, item, true, .waiting⟩] }

/-- The bus as a transition system. -/
def bus (buffer : ℕ) : System (State buffer) Label where
  step s l := (next s l).getD s
  enabled s l := (next s l).isSome

section Places

variable (s : State buffer) (region : String) (item : Item)

/-- How often the assignment is in the channel of the region. -/
def queued : ℕ :=
  match s.queues region with
  | some chan => (s.chans chan).toList.count item
  | none => 0

/-- The handler of the consumer works on the assignment. -/
def Consumer.handles (c : Consumer) : Bool := c.region = region ∧ c.handling = some item

/-- How many handlers of the region work on the assignment. -/
def inHandlers : ℕ := s.consumers.countP (Consumer.handles region item)

/-- The goroutine is to publish the assignment again. -/
def Publication.pending (p : Publication) : Bool :=
  p.requeue ∧ p.region = region ∧ p.item = item ∧ p.phase ≠ .sent

/-- How many goroutines are to publish the assignment again. -/
def inRequeues : ℕ := s.publications.countP (Publication.pending region item)

/-- How often the assignment has been handled in the region. -/
def handledTimes : ℕ := s.handled.count (region, item)

/-- In how many places of the region the assignment is on its way. -/
def inFlight : ℕ := queued s region item + inHandlers s region item + inRequeues s region item

/-- In how many places of the region the assignment is, handled or not. -/
def places : ℕ := inFlight s region item + handledTimes s region item

/-- A client has published the assignment, and the call has returned nil. -/
def Published : Prop := s.publications[item.call]? = some ⟨region, item, false, .sent⟩

instance : Decidable (Published s region item) := inferInstanceAs (Decidable (_ = _))

end Places

/-! ## Steps -/

/-- What a step does. -/
inductive Does (s : State buffer) : Label → State buffer → Prop
  | publish {region : String} {chan : ℕ} {s₁ : State buffer}
      (hqueue : s.queue region = (chan, s₁)) (assignment : Assignment) :
      Does s (.publish region assignment) { s₁ with
        publications := s₁.publications ++
          [⟨region, ⟨s₁.publications.length, assignment⟩, false, .sending chan⟩] }
  | wake {i : ℕ} {p : Publication} (hget : s.publications[i]? = some p)
      (hphase : p.phase = .waiting) {chan : ℕ} {s₁ : State buffer}
      (hqueue : s.queue p.region = (chan, s₁)) :
      Does s (.wake i) { s₁ with
        publications := s₁.publications.set i { p with phase := .sending chan } }
  | send {i : ℕ} {p : Publication} (hget : s.publications[i]? = some p) {chan : ℕ}
      (hphase : p.phase = .sending chan) {queue : Fifo Item buffer}
      (hoffer : (s.chans chan).offer p.item = some queue) :
      Does s (.send i) { s with
        chans := Function.update s.chans chan queue
        publications := s.publications.set i { p with phase := .sent } }
  | consume {region : String} {chan : ℕ} {s₁ : State buffer}
      (hqueue : s.queue region = (chan, s₁)) :
      Does s (.consume region) { s₁ with consumers := s₁.consumers ++ [{ region, chan }] }
  | receive {k : ℕ} {c : Consumer} (hget : s.consumers[k]? = some c) (hidle : c.handling = none)
      {item : Item} {queue : Fifo Item buffer}
      (htake : (s.chans c.chan).take = some (item, queue)) :
      Does s (.receive k) { s with
        chans := Function.update s.chans c.chan queue
        consumers := s.consumers.set k { c with handling := some item } }
  | succeed {k : ℕ} {c : Consumer} (hget : s.consumers[k]? = some c) {item : Item}
      (hitem : c.handling = some item) :
      Does s (.finish k (.ok ())) { s with
        consumers := s.consumers.set k { c with handling := none }
        handled := s.handled ++ [(c.region, item)] }
  | fail {k : ℕ} {c : Consumer} (hget : s.consumers[k]? = some c) {item : Item}
      (hitem : c.handling = some item) (e : Err) :
      Does s (.finish k (.error e)) { s with
        consumers := s.consumers.set k { c with handling := none }
        publications := s.publications ++ [⟨c.region, item, true, .waiting⟩] }

variable {s' : State buffer} {chan : ℕ} {publications : List Publication} {p : Publication}
  {c : Consumer}

/-- What a step of the bus can do. -/
theorem does_of_next {s : State buffer} {l : Label} (h : next s l = some s') : Does s l s' := by
  cases l with
  | publish region assignment =>
    cases h
    exact .publish rfl assignment
  | consume region =>
    cases h
    exact .consume rfl
  | wake i =>
    obtain ⟨p, hget, h⟩ := Option.bind_eq_some_iff.mp h
    cases hphase : p.phase with
    | waiting =>
      rw [hphase] at h
      cases h
      exact .wake hget hphase rfl
    | sending | sent =>
      rw [hphase] at h
      cases h
  | send i =>
    obtain ⟨p, hget, h⟩ := Option.bind_eq_some_iff.mp h
    cases hphase : p.phase with
    | sending chan =>
      rw [hphase] at h
      obtain ⟨queue, hoffer, h⟩ := Option.bind_eq_some_iff.mp h
      cases h
      exact .send hget hphase hoffer
    | waiting | sent =>
      rw [hphase] at h
      cases h
  | receive k =>
    obtain ⟨c, hget, h⟩ := Option.bind_eq_some_iff.mp h
    cases hidle : c.handling with
    | none =>
      rw [hidle] at h
      obtain ⟨⟨item, queue⟩, htake, h⟩ := Option.bind_eq_some_iff.mp h
      cases h
      exact .receive hget hidle htake
    | some item =>
      rw [hidle] at h
      cases h
  | finish k result =>
    obtain ⟨c, hget, h⟩ := Option.bind_eq_some_iff.mp h
    obtain ⟨item, hitem, h⟩ := Option.bind_eq_some_iff.mp h
    cases result with
    | ok =>
      cases h
      exact .succeed hget hitem
    | error e =>
      cases h
      exact .fail hget hitem e

/-! ## Conservation -/

/-- The assignment of a client has the number of the call. -/
def Numbered (publications : List Publication) : Prop :=
  ∀ i (p : Publication), publications[i]? = some p → p.requeue = false → p.item.call = i

/-- What holds in every state that is reached. -/
structure Conserved (s : State buffer) : Prop where
  /-- The channels of the regions have been made. -/
  made : ∀ region chan, s.queues region = some chan → chan < s.made
  /-- Different regions have different channels. -/
  distinct : ∀ region region' chan,
    s.queues region = some chan → s.queues region' = some chan → region = region'
  fresh : ∀ chan, s.made ≤ chan → (s.chans chan).toList = []
  /-- Publishers send to the channel of their region. -/
  sending : ∀ p ∈ s.publications, ∀ chan, p.phase = .sending chan →
    s.queues p.region = some chan
  /-- Consumers receive from the channel of their region. -/
  consuming : ∀ c ∈ s.consumers, s.queues c.region = some c.chan
  numbered : Numbered s.publications
  law : ∀ region item, places s region item = if Published s region item then 1 else 0

section Queue

variable {s s₁ : State buffer} {region : String}

theorem queue_cases (h : s.queue region = (chan, s₁)) :
    (s.queues region = some chan ∧ s₁ = s) ∨
      (s.queues region = none ∧ chan = s.made ∧
        s₁ = { s with
          queues := Function.update s.queues region (some s.made), made := s.made + 1 }) := by
  unfold State.queue at h
  cases hget : s.queues region with
  | some chan' =>
    rw [hget] at h
    cases h
    exact .inl ⟨rfl, rfl⟩
  | none =>
    rw [hget] at h
    cases h
    exact .inr ⟨rfl, rfl, rfl⟩

theorem publications_queue (h : s.queue region = (chan, s₁)) :
    s₁.publications = s.publications := by
  obtain ⟨-, rfl⟩ | ⟨-, -, rfl⟩ := queue_cases h <;> rfl

/-- Making a channel loses nothing. -/
theorem Conserved.queue (hs : Conserved s) (hqueue : s.queue region = (chan, s₁)) :
    Conserved s₁ ∧ s₁.queues region = some chan := by
  obtain ⟨hget, rfl⟩ | ⟨hnone, rfl, rfl⟩ := queue_cases hqueue
  · exact ⟨hs, hget⟩
  · -- the new channel is empty and known to no other region
    have hold {region' : String} {chan : ℕ} (h : s.queues region' = some chan) :
        Function.update s.queues region (some s.made) region' = some chan := by
      have hne : region' ≠ region := by
        intro heq
        rw [heq, hnone] at h
        cases h
      rw [Function.update_of_ne hne, h]
    have hnew {region' : String} {chan : ℕ}
        (h : Function.update s.queues region (some s.made) region' = some chan) :
        (region' = region ∧ chan = s.made) ∨ s.queues region' = some chan := by
      by_cases hregion : region' = region
      · rw [hregion, Function.update_self] at h
        exact .inl ⟨hregion, (Option.some.inj h).symm⟩
      · rw [Function.update_of_ne hregion] at h
        exact .inr h
    refine ⟨⟨?_, ?_, ?_, ?_, ?_, hs.numbered, ?_⟩, Function.update_self ..⟩
    · intro region' chan h
      obtain ⟨-, rfl⟩ | hget := hnew h
      · exact Nat.lt_succ_self _
      · exact Nat.lt_succ_of_lt (hs.made _ _ hget)
    · intro region' region'' chan h h'
      obtain ⟨hregion', hchan⟩ | hget := hnew h
      · obtain ⟨hregion'', -⟩ | hget' := hnew h'
        · rw [hregion', hregion'']
        · exact absurd (hs.made _ _ hget') (by rw [hchan]; exact lt_irrefl _)
      · obtain ⟨-, hchan⟩ | hget' := hnew h'
        · exact absurd (hs.made _ _ hget) (by rw [hchan]; exact lt_irrefl _)
        · exact hs.distinct _ _ _ hget hget'
    · exact fun chan h => hs.fresh chan (Nat.le_of_succ_le h)
    · exact fun p hp chan h => hold (hs.sending p hp chan h)
    · exact fun c hc => hold (hs.consuming c hc)
    · intro region' item
      refine Eq.trans ?_ (hs.law region' item)
      have hqueued : queued { s with
            queues := Function.update s.queues region (some s.made)
            made := s.made + 1 } region' item =
          queued s region' item := by
        unfold queued
        by_cases hregion : region' = region
        · rw [hregion, hnone]
          dsimp only
          rw [Function.update_self]
          dsimp only
          rw [hs.fresh s.made (le_refl _), List.count_nil]
        · dsimp only
          rw [Function.update_of_ne hregion]
      exact congrArg (· + inHandlers s region' item + inRequeues s region' item +
        handledTimes s region' item) hqueued

end Queue

theorem countP_set_add {α : Type} {p : α → Bool} {l : List α} {i : ℕ} {a b : α}
    (h : l[i]? = some b) :
    (l.set i a).countP p + (if p b then 1 else 0) = l.countP p + if p a then 1 else 0 := by
  obtain ⟨hi, rfl⟩ := List.getElem?_eq_some_iff.mp h
  have hpos : (if p l[i] then 1 else 0) ≤ l.countP p := by
    split_ifs with hp
    · exact List.countP_pos_iff.mpr ⟨l[i], List.getElem_mem hi, hp⟩
    · exact Nat.zero_le _
  rw [List.countP_set hi]
  omega

section Steps

variable {s : State buffer} {region : String} {item : Item}

theorem queued_update (hs : Conserved s) (hchan : s.queues region = some chan)
    {queue : Fifo Item buffer} (hqueues : s'.queues = s.queues)
    (hchans : s'.chans = Function.update s.chans chan queue) (region' : String) (item : Item) :
    queued s' region' item =
      if region' = region then queue.toList.count item else queued s region' item := by
  unfold queued
  rw [hqueues, hchans]
  split_ifs with hregion
  · rw [hregion, hchan]
    dsimp only
    rw [Function.update_self]
  · cases hget : s.queues region' with
    | none => rfl
    | some chan' =>
      dsimp only
      rw [Function.update_of_ne]
      rintro rfl
      exact hregion (hs.distinct _ _ _ hget hchan)

theorem queued_of_some (hchan : s.queues region = some chan) :
    queued s region item = (s.chans chan).toList.count item := by
  rw [queued, hchan]

/-- A call that has not returned counts as published neither before nor after a change that leaves
it so. -/
theorem published_set {i : ℕ} {p' : Publication} (hget : publications[i]? = some p)
    (hp : p ≠ ⟨region, item, false, .sent⟩) (hp' : p' ≠ ⟨region, item, false, .sent⟩) :
    (publications.set i p')[item.call]? = some ⟨region, item, false, .sent⟩ ↔
      publications[item.call]? = some ⟨region, item, false, .sent⟩ := by
  rw [List.getElem?_set]
  split_ifs with hi hlength
  · rw [← hi, hget]
    exact iff_of_false (fun h => hp' (Option.some.inj h)) fun h => hp (Option.some.inj h)
  · exact absurd (List.getElem?_eq_some_iff.mp hget).1 hlength
  · rfl

theorem published_append (hp : p ≠ ⟨region, item, false, .sent⟩) :
    (publications ++ [p])[item.call]? = some ⟨region, item, false, .sent⟩ ↔
      publications[item.call]? = some ⟨region, item, false, .sent⟩ := by
  rw [List.getElem?_append]
  split_ifs with hlength
  · rfl
  · rw [List.getElem?_eq_none (Nat.le_of_not_lt hlength)]
    refine iff_of_false (fun h => hp ?_) fun h => (by cases h)
    exact (List.mem_singleton.mp (List.mem_of_getElem? h)).symm

theorem Numbered.append (h : Numbered publications)
    (hp : p.requeue = false → p.item.call = publications.length) :
    Numbered (publications ++ [p]) := by
  intro i p' hget hclient
  rw [List.getElem?_append] at hget
  split_ifs at hget with hi
  · exact h i p' hget hclient
  · obtain ⟨hlength, rfl⟩ := List.getElem?_eq_some_iff.mp hget
    rw [List.length_singleton] at hlength
    rw [List.getElem_singleton] at hclient ⊢
    rw [hp hclient]
    omega

theorem Numbered.set (h : Numbered publications) {i : ℕ} (hget : publications[i]? = some p)
    (phase : Phase) :
    Numbered (publications.set i { p with phase }) := by
  intro j p' hget' hclient
  rw [List.getElem?_set] at hget'
  split_ifs at hget' with hj hlength
  · cases hget'
    rw [← hj]
    exact h i p hget hclient
  · exact h j p' hget' hclient

theorem Conserved.law_of_eq (hs : Conserved s)
    (hqueued : queued s' region item = queued s region item)
    (hhandlers : inHandlers s' region item = inHandlers s region item)
    (hrequeues : inRequeues s' region item = inRequeues s region item)
    (hhandled : handledTimes s' region item = handledTimes s region item)
    (hpublished : Published s' region item ↔ Published s region item) :
    places s' region item = if Published s' region item then 1 else 0 := by
  unfold places inFlight
  rw [hqueued, hhandlers, hrequeues, hhandled, if_congr hpublished rfl rfl]
  exact hs.law region item

theorem Conserved.publish (hs : Conserved s) (hchan : s.queues region = some chan)
    (assignment : Assignment) :
    Conserved { s with
      publications := s.publications ++
        [⟨region, ⟨s.publications.length, assignment⟩, false, .sending chan⟩] } where
  made := hs.made
  distinct := hs.distinct
  fresh := hs.fresh
  sending p hp chan' hphase := by
    rcases List.mem_append.mp hp with hp | hp
    · exact hs.sending p hp chan' hphase
    · rw [List.mem_singleton.mp hp] at hphase ⊢
      cases hphase
      exact hchan
  consuming := hs.consuming
  numbered := hs.numbered.append fun _ => rfl
  law region' item := by
    refine hs.law_of_eq rfl rfl ?_ rfl (published_append (by rintro ⟨⟩))
    exact (List.countP_append ..).trans (Nat.add_zero _)

theorem Conserved.wake (hs : Conserved s) {i : ℕ} (hget : s.publications[i]? = some p)
    (hphase : p.phase = .waiting) (hchan : s.queues p.region = some chan) :
    Conserved { s with
      publications := s.publications.set i { p with phase := .sending chan } } where
  made := hs.made
  distinct := hs.distinct
  fresh := hs.fresh
  sending p' hp' chan' hphase' := by
    rcases List.mem_or_eq_of_mem_set hp' with hp' | rfl
    · exact hs.sending p' hp' chan' hphase'
    · cases hphase'
      exact hchan
  consuming := hs.consuming
  numbered := hs.numbered.set hget _
  law region' item := by
    refine hs.law_of_eq rfl rfl ?_ rfl (published_set hget ?_ ?_)
    · have hset := countP_set_add (p := Publication.pending region' item)
        (a := { p with phase := .sending chan }) hget
      have hsame : Publication.pending region' item { p with phase := .sending chan } =
          Publication.pending region' item p := by
        simp only [Publication.pending, hphase, ne_eq, reduceCtorEq, not_false_eq_true, and_true]
      rw [hsame] at hset
      exact Nat.add_right_cancel hset
    · rintro rfl
      cases hphase
    · exact fun h => by cases congrArg Publication.phase h

theorem Conserved.fresh_update (hs : Conserved s) (hchan : s.queues region = some chan)
    (queue : Fifo Item buffer) {chan' : ℕ} (hchan' : s.made ≤ chan') :
    (Function.update s.chans chan queue chan').toList = [] := by
  have hne : chan' ≠ chan := Nat.ne_of_gt (lt_of_lt_of_le (hs.made _ _ hchan) hchan')
  rw [Function.update_of_ne hne]
  exact hs.fresh chan' hchan'

theorem pending_sent (p : Publication) :
    Publication.pending region item { p with phase := .sent } = false :=
  decide_eq_false fun h => h.2.2.2 rfl

theorem pending_of_requeue (h : p.requeue = true) (hphase : p.phase ≠ .sent) :
    Publication.pending p.region p.item p = true :=
  decide_eq_true ⟨h, rfl, rfl, hphase⟩

/-- Sending moves an item from its publication to the channel. -/
theorem Conserved.law_send (hs : Conserved s) {i : ℕ}
    (hget : s.publications[i]? = some p) (hphase : p.phase = .sending chan)
    {queue : Fifo Item buffer} (hoffer : (s.chans chan).offer p.item = some queue)
    (hs' : s' = { s with
      chans := Function.update s.chans chan queue
      publications := s.publications.set i { p with phase := .sent } })
    (region : String) (item : Item) :
    places s' region item = if Published s' region item then 1 else 0 := by
  have hchan := hs.sending p (List.mem_of_getElem? hget) chan hphase
  have hqueues : s'.queues = s.queues := by rw [hs']
  have hchans : s'.chans = Function.update s.chans chan queue := by rw [hs']
  have hqueued := queued_update hs hchan hqueues hchans region item
  rw [Fifo.toList_of_offer hoffer, List.count_append, ← queued_of_some hchan,
    List.count_singleton] at hqueued
  have hrequeues : inRequeues s' region item +
      (if Publication.pending region item p then 1 else 0) = inRequeues s region item := by
    rw [hs']
    refine (countP_set_add hget).trans ?_
    rw [pending_sent]
    rfl
  have hhandlers : inHandlers s' region item = inHandlers s region item := by rw [hs']; rfl
  have hhandled : handledTimes s' region item = handledTimes s region item := by rw [hs']; rfl
  have hlaw := hs.law region item
  have hne : p ≠ ⟨region, item, false, .sent⟩ := by
    rintro rfl
    cases hphase
  unfold places inFlight at hlaw ⊢
  by_cases hmatch : p.region = region ∧ p.item = item
  · obtain ⟨rfl, rfl⟩ := hmatch
    rw [if_pos rfl, if_pos (beq_self_eq_true _)] at hqueued
    cases hrequeue : p.requeue with
    | true =>
      -- one place for another
      have hpublished : Published s' p.region p.item ↔ Published s p.region p.item := by
        rw [hs']
        refine published_set hget hne fun h => ?_
        rw [congrArg Publication.requeue h] at hrequeue
        cases hrequeue
      rw [pending_of_requeue hrequeue (by rw [hphase]; rintro ⟨⟩), if_pos rfl] at hrequeues
      rw [if_congr hpublished rfl rfl, ← hlaw]
      omega
    | false =>
      -- a new assignment
      have hcall := hs.numbered i p hget hrequeue
      have hbefore : ¬ Published s p.region p.item := by
        unfold Published
        rw [hcall, hget]
        exact fun h => hne (Option.some.inj h)
      have hafter : Published s' p.region p.item := by
        rw [hs']
        unfold Published
        dsimp only
        rw [hcall, List.getElem?_set_self (List.getElem?_eq_some_iff.mp hget).1, hrequeue]
      rw [if_neg hbefore] at hlaw
      rw [if_pos hafter]
      omega
  · have hpending : Publication.pending region item p = false :=
      decide_eq_false fun h => hmatch ⟨h.2.1, h.2.2.1⟩
    have hpublished : Published s' region item ↔ Published s region item := by
      rw [hs']
      refine published_set hget hne fun h => hmatch ?_
      exact ⟨congrArg Publication.region h, congrArg Publication.item h⟩
    rw [hpending, if_neg Bool.false_ne_true] at hrequeues
    rw [if_congr hpublished rfl rfl, ← hlaw]
    have hsame : queued s' region item = queued s region item := by
      rw [hqueued]
      split_ifs with hregion hitem
      · exact absurd ⟨hregion.symm, beq_iff_eq.mp hitem⟩ hmatch
      · rw [hregion, Nat.add_zero]
      · rfl
    omega

theorem Conserved.send (hs : Conserved s) {i : ℕ} (hget : s.publications[i]? = some p)
    (hphase : p.phase = .sending chan) {queue : Fifo Item buffer}
    (hoffer : (s.chans chan).offer p.item = some queue) :
    Conserved { s with
      chans := Function.update s.chans chan queue
      publications := s.publications.set i { p with phase := .sent } } where
  made := hs.made
  distinct := hs.distinct
  fresh _ hchan' :=
    hs.fresh_update (hs.sending p (List.mem_of_getElem? hget) chan hphase) queue hchan'
  sending p' hp' chan' hphase' := by
    rcases List.mem_or_eq_of_mem_set hp' with hp' | rfl
    · exact hs.sending p' hp' chan' hphase'
    · cases hphase'
  consuming := hs.consuming
  numbered := hs.numbered.set hget _
  law := hs.law_send hget hphase hoffer rfl

theorem Conserved.consume (hs : Conserved s) (hchan : s.queues region = some chan) :
    Conserved { s with consumers := s.consumers ++ [{ region, chan }] } where
  made := hs.made
  distinct := hs.distinct
  fresh := hs.fresh
  sending := hs.sending
  consuming c hc := by
    rcases List.mem_append.mp hc with hc | hc
    · exact hs.consuming c hc
    · rw [List.mem_singleton.mp hc]
      exact hchan
  numbered := hs.numbered
  law region' item := by
    refine hs.law_of_eq rfl ?_ rfl rfl Iff.rfl
    refine (List.countP_append ..).trans ?_
    rw [List.countP_singleton, if_neg, Nat.add_zero]
    · rfl
    · exact fun h => by cases (of_decide_eq_true h).2

theorem Conserved.consuming_set (hs : Conserved s) {k : ℕ} (hget : s.consumers[k]? = some c)
    (handling : Option Item) :
    ∀ c' ∈ s.consumers.set k { c with handling }, s.queues c'.region = some c'.chan := by
  intro c' hc'
  rcases List.mem_or_eq_of_mem_set hc' with hc' | rfl
  · exact hs.consuming c' hc'
  · exact hs.consuming c (List.mem_of_getElem? hget)

theorem inHandlers_set {k : ℕ} (hget : s.consumers[k]? = some c) {handling : Option Item}
    (hs' : s'.consumers = s.consumers.set k { c with handling }) (region : String) (item : Item) :
    inHandlers s' region item + (if c.region = region ∧ c.handling = some item then 1 else 0) =
      inHandlers s region item + if c.region = region ∧ handling = some item then 1 else 0 := by
  have hset := countP_set_add (p := Consumer.handles region item) (a := { c with handling }) hget
  unfold inHandlers
  rw [hs']
  simpa only [Consumer.handles, decide_eq_true_eq] using hset

/-- Receiving moves an item from the channel to its consumer. -/
theorem Conserved.law_receive (hs : Conserved s) {k : ℕ}
    (hget : s.consumers[k]? = some c) (hidle : c.handling = none)
    {queue : Fifo Item buffer} (htake : (s.chans c.chan).take = some (item, queue))
    (hs' : s' = { s with
      chans := Function.update s.chans c.chan queue
      consumers := s.consumers.set k { c with handling := some item } })
    (region' : String) (item' : Item) :
    places s' region' item' = if Published s' region' item' then 1 else 0 := by
  have hchan := hs.consuming c (List.mem_of_getElem? hget)
  have hqueues : s'.queues = s.queues := by rw [hs']
  have hchans : s'.chans = Function.update s.chans c.chan queue := by rw [hs']
  have hconsumers : s'.consumers = s.consumers.set k { c with handling := some item } := by rw [hs']
  have hqueued := queued_update hs hchan hqueues hchans region' item'
  have hbefore : queued s c.region item' = _ := queued_of_some hchan
  rw [Fifo.toList_of_take htake, List.count_cons] at hbefore
  have hhandlers := inHandlers_set hget hconsumers region' item'
  rw [hidle, if_neg fun h => by cases h.2] at hhandlers
  have hrequeues : inRequeues s' region' item' = inRequeues s region' item' := by rw [hs']; rfl
  have hhandled : handledTimes s' region' item' = handledTimes s region' item' := by rw [hs']; rfl
  have hpublished : Published s' region' item' ↔ Published s region' item' := by rw [hs']; rfl
  rw [if_congr hpublished rfl rfl, ← hs.law region' item']
  unfold places inFlight
  by_cases hregion : region' = c.region
  · rw [if_pos hregion] at hqueued
    rw [← hregion] at hbefore hhandlers
    by_cases hitem : item = item'
    · rw [hitem, if_pos ⟨rfl, rfl⟩] at hhandlers
      rw [hitem, if_pos (beq_self_eq_true _)] at hbefore
      omega
    · rw [if_neg fun h => hitem (Option.some.inj h.2)] at hhandlers
      rw [if_neg fun h => hitem (beq_iff_eq.mp h)] at hbefore
      omega
  · rw [if_neg hregion] at hqueued
    rw [if_neg fun h => hregion h.1.symm] at hhandlers
    omega

theorem Conserved.receive (hs : Conserved s) {k : ℕ} (hget : s.consumers[k]? = some c)
    (hidle : c.handling = none) {queue : Fifo Item buffer}
    (htake : (s.chans c.chan).take = some (item, queue)) :
    Conserved { s with
      chans := Function.update s.chans c.chan queue
      consumers := s.consumers.set k { c with handling := some item } } where
  made := hs.made
  distinct := hs.distinct
  fresh _ hchan' := hs.fresh_update (hs.consuming c (List.mem_of_getElem? hget)) queue hchan'
  sending := hs.sending
  consuming := hs.consuming_set hget _
  numbered := hs.numbered
  law := hs.law_receive hget hidle htake rfl

theorem Conserved.law_succeed (hs : Conserved s) {k : ℕ}
    (hget : s.consumers[k]? = some c) (hitem : c.handling = some item)
    (hs' : s' = { s with
      consumers := s.consumers.set k { c with handling := none }
      handled := s.handled ++ [(c.region, item)] })
    (region' : String) (item' : Item) :
    places s' region' item' = if Published s' region' item' then 1 else 0 := by
  have hconsumers : s'.consumers = s.consumers.set k { c with handling := none } := by rw [hs']
  have hhandlers := inHandlers_set hget hconsumers region' item'
  rw [hitem, if_neg (fun h => by cases h.2 : ¬ (c.region = region' ∧ none = some item'))]
    at hhandlers
  have hhandled : handledTimes s' region' item' = handledTimes s region' item' +
      if c.region = region' ∧ some item = some item' then 1 else 0 := by
    rw [hs']
    refine (List.count_append ..).trans ?_
    rw [List.count_singleton]
    simp only [beq_iff_eq, Prod.mk.injEq, Option.some.injEq]
    rfl
  have hqueued : queued s' region' item' = queued s region' item' := by rw [hs']; rfl
  have hrequeues : inRequeues s' region' item' = inRequeues s region' item' := by rw [hs']; rfl
  have hpublished : Published s' region' item' ↔ Published s region' item' := by rw [hs']; rfl
  rw [if_congr hpublished rfl rfl, ← hs.law region' item']
  unfold places inFlight
  omega

theorem Conserved.succeed (hs : Conserved s) {k : ℕ} (hget : s.consumers[k]? = some c)
    (hitem : c.handling = some item) :
    Conserved { s with
      consumers := s.consumers.set k { c with handling := none }
      handled := s.handled ++ [(c.region, item)] } where
  made := hs.made
  distinct := hs.distinct
  fresh := hs.fresh
  sending := hs.sending
  consuming := hs.consuming_set hget _
  numbered := hs.numbered
  law := hs.law_succeed hget hitem rfl

/-- A failed handler gives its item back as a new publication. -/
theorem Conserved.law_fail (hs : Conserved s) {k : ℕ}
    (hget : s.consumers[k]? = some c) (hitem : c.handling = some item)
    (hs' : s' = { s with
      consumers := s.consumers.set k { c with handling := none }
      publications := s.publications ++ [⟨c.region, item, true, .waiting⟩] })
    (region' : String) (item' : Item) :
    places s' region' item' = if Published s' region' item' then 1 else 0 := by
  have hconsumers : s'.consumers = s.consumers.set k { c with handling := none } := by rw [hs']
  have hhandlers := inHandlers_set hget hconsumers region' item'
  rw [hitem, if_neg (fun h => by cases h.2 : ¬ (c.region = region' ∧ none = some item'))]
    at hhandlers
  have hrequeues : inRequeues s' region' item' = inRequeues s region' item' +
      if c.region = region' ∧ some item = some item' then 1 else 0 := by
    rw [hs']
    refine (List.countP_append ..).trans ?_
    rw [List.countP_singleton]
    simp only [Publication.pending, decide_eq_true_eq, Option.some.injEq, true_and, and_true, ne_eq,
      reduceCtorEq, not_false_eq_true]
    rfl
  have hqueued : queued s' region' item' = queued s region' item' := by rw [hs']; rfl
  have hhandled : handledTimes s' region' item' = handledTimes s region' item' := by rw [hs']; rfl
  have hpublished : Published s' region' item' ↔ Published s region' item' := by
    rw [hs']
    exact published_append fun h => by cases congrArg Publication.requeue h
  rw [if_congr hpublished rfl rfl, ← hs.law region' item']
  unfold places inFlight
  omega

theorem Conserved.fail (hs : Conserved s) {k : ℕ} (hget : s.consumers[k]? = some c)
    (hitem : c.handling = some item) :
    Conserved { s with
      consumers := s.consumers.set k { c with handling := none }
      publications := s.publications ++ [⟨c.region, item, true, .waiting⟩] } where
  made := hs.made
  distinct := hs.distinct
  fresh := hs.fresh
  sending p hp chan hphase := by
    rcases List.mem_append.mp hp with hp | hp
    · exact hs.sending p hp chan hphase
    · rw [List.mem_singleton.mp hp] at hphase
      cases hphase
  consuming := hs.consuming_set hget _
  numbered := hs.numbered.append fun h => by cases h
  law := hs.law_fail hget hitem rfl

/-- Every step conserves the items. -/
theorem Conserved.step (hs : Conserved s) {l : Label} (h : Does s l s') :
    Conserved s' := by
  cases h with
  | publish hqueue assignment =>
    obtain ⟨hs₁, hchan⟩ := hs.queue hqueue
    exact hs₁.publish hchan assignment
  | wake hget hphase hqueue =>
    obtain ⟨hs₁, hchan⟩ := hs.queue hqueue
    rw [← publications_queue hqueue] at hget
    exact hs₁.wake hget hphase hchan
  | send hget hphase hoffer => exact hs.send hget hphase hoffer
  | consume hqueue =>
    obtain ⟨hs₁, hchan⟩ := hs.queue hqueue
    exact hs₁.consume hchan
  | receive hget hidle htake => exact hs.receive hget hidle htake
  | succeed hget hitem => exact hs.succeed hget hitem
  | fail hget hitem e => exact hs.fail hget hitem

theorem conserved_new : Conserved ({} : State buffer) where
  made _ _ h := by cases h
  distinct _ _ _ h := by cases h
  fresh _ _ := rfl
  sending _ h := by cases h
  consuming _ h := by cases h
  numbered _ _ h := by cases h
  law _ _ := rfl

/-- Every run conserves the items. -/
theorem conserved_run {ls : List Label} (h : (bus buffer).Runs {} ls) :
    Conserved ((bus buffer).exec {} ls) := by
  refine h.invariant conserved_new fun s l henabled hs => ?_
  obtain ⟨s', hs'⟩ := Option.isSome_iff_exists.mp henabled
  change Conserved ((next s l).getD s)
  rw [hs']
  exact hs.step (does_of_next hs')

end Steps

/-! ## Removal -/

section Removal

variable {s : State buffer} {l : Label} {region : String} {item : Item}

theorem handled_queue {s₁ : State buffer} (h : s.queue region = (chan, s₁)) :
    s₁.handled = s.handled := by
  obtain ⟨-, rfl⟩ | ⟨-, -, rfl⟩ := queue_cases h <;> rfl

/-- What was published stays published. -/
theorem Published.step (hpublished : Published s region item) (h : Does s l s') :
    Published s' region item := by
  unfold Published at hpublished ⊢
  -- the changed call was not the one that has returned
  have hset {publications : List Publication} {i : ℕ} {p p' : Publication}
      (hpublished : publications[item.call]? = some ⟨region, item, false, .sent⟩)
      (hget : publications[i]? = some p) (hp : p.phase ≠ .sent) :
      (publications.set i p')[item.call]? = some ⟨region, item, false, .sent⟩ := by
    rw [List.getElem?_set_ne, hpublished]
    rintro rfl
    rw [hpublished] at hget
    cases hget
    exact hp rfl
  have happend {publications more : List Publication}
      (hpublished : publications[item.call]? = some ⟨region, item, false, .sent⟩) :
      (publications ++ more)[item.call]? = some ⟨region, item, false, .sent⟩ := by
    rw [List.getElem?_append_left (List.getElem?_eq_some_iff.mp hpublished).1, hpublished]
  cases h with
  | publish hqueue assignment =>
    rw [← publications_queue hqueue] at hpublished
    exact happend hpublished
  | wake hget hphase hqueue =>
    rw [← publications_queue hqueue] at hget hpublished
    exact hset hpublished hget (by rw [hphase]; rintro ⟨⟩)
  | send hget hphase hoffer => exact hset hpublished hget (by rw [hphase]; rintro ⟨⟩)
  | consume hqueue =>
    rw [← publications_queue hqueue] at hpublished
    exact hpublished
  | receive hget hidle htake => exact hpublished
  | succeed hget hitem => exact hpublished
  | fail hget hitem e => exact happend hpublished

theorem handledTimes_step (h : Does s l s') :
    handledTimes s' region item = handledTimes s region item ∨
      ∃ k c, l = .finish k (.ok ()) ∧ s.consumers[k]? = some c ∧ c.region = region ∧
        c.handling = some item := by
  unfold handledTimes
  cases h with
  | publish hqueue assignment => exact .inl (by rw [handled_queue hqueue])
  | wake hget hphase hqueue => exact .inl (by rw [handled_queue hqueue])
  | consume hqueue => exact .inl (by rw [handled_queue hqueue])
  | send | receive | fail => exact .inl rfl
  | @succeed k c hget item' hitem =>
    by_cases hmatch : (c.region, item') = (region, item)
    · cases hmatch
      exact .inr ⟨k, c, rfl, hget, rfl, hitem⟩
    · left
      rw [List.count_append, List.count_singleton, if_neg fun h => hmatch (beq_iff_eq.mp h),
        Nat.add_zero]

end Removal

/-- **Conservation.** At every point of every run, an assignment is in exactly one place of a region
if a client has published it there and the call has returned nil, and in no place of the region
otherwise. A step that removes it from the bus or counts it as handled is the return of nil by the
handler that works on it. -/
theorem assignments_conserved (buffer : ℤ) {ls : List Label}
    (hrun : (bus (bufferSize buffer)).Runs {} ls) :
    let s := (bus (bufferSize buffer)).exec {} ls
    (∀ region item, places s region item = if Published s region item then 1 else 0) ∧
      ∀ l s', next s l = some s' → ∀ region item,
        inFlight s region item ≤ inFlight s' region item ∧
            handledTimes s' region item = handledTimes s region item ∨
          ∃ k c, l = .finish k (.ok ()) ∧ s.consumers[k]? = some c ∧ c.region = region ∧
            c.handling = some item := by
  intro s
  have hs : Conserved s := conserved_run hrun
  refine ⟨hs.law, fun l s' hnext region item => ?_⟩
  have hdoes := does_of_next hnext
  have hlaw := hs.law region item
  have hlaw' := (hs.step hdoes).law region item
  refine (handledTimes_step hdoes).imp_left fun hhandled => ⟨?_, hhandled⟩
  unfold places at hlaw hlaw'
  by_cases hpublished : Published s region item
  · rw [if_pos hpublished] at hlaw
    rw [if_pos (hpublished.step hdoes)] at hlaw'
    omega
  · rw [if_neg hpublished] at hlaw
    omega

namespace Sample

def labels : List Label :=
  [.publish "region" DomainSample.assignment, .send 0, .consume "region", .receive 0,
    .finish 0 (.error (.other "no host")), .wake 1, .send 1, .receive 0, .finish 0 (.ok ())]

end Sample

instance {buffer : ℕ} (s : State buffer) (l : Label) : Decidable ((bus buffer).enabled s l) :=
  inferInstanceAs (Decidable (_ = true))

theorem assignments_conserved_sample :
    (bus (bufferSize 0)).Runs {} Sample.labels ∧
      Published ((bus (bufferSize 0)).exec {} Sample.labels) "region" ⟨0, DomainSample.assignment⟩ ∧
      places ((bus (bufferSize 0)).exec {} Sample.labels) "region" ⟨0, DomainSample.assignment⟩ =
        1 := by
  have hrun : (bus (bufferSize 0)).Runs {} Sample.labels := by
    unfold System.Runs
    decide +kernel
  have hpublished : Published ((bus (bufferSize 0)).exec {} Sample.labels) "region"
      ⟨0, DomainSample.assignment⟩ := by decide +kernel
  refine ⟨hrun, hpublished, ?_⟩
  rw [(assignments_conserved 0 hrun).1, if_pos hpublished]

/-! ## Order -/

section Order

variable {s : State buffer} {l : Label} {region : String}

/-- What is in the channel of the region. -/
def channel (s : State buffer) (region : String) : List Item :=
  match s.queues region with
  | some chan => (s.chans chan).toList
  | none => []

/-- What a step sends to the region. -/
def sends (region : String) (s : State buffer) : Label → List Item
  | .send i => ((s.publications[i]?.filter (·.region = region)).map (·.item)).toList
  | _ => []

/-- What a consumer of the region receives in a step. -/
def receives (region : String) (s : State buffer) : Label → List Item
  | .receive k =>
    ((s.consumers[k]?.filter (·.region = region)).bind fun c =>
      (s.chans c.chan).take.map Prod.fst).toList
  | _ => []

theorem channel_of_some (h : s.queues region = some chan) :
    channel s region = (s.chans chan).toList := by
  simp [channel, h]

theorem channel_queue (hs : Conserved s) {region' : String}
    (hqueue : s.queue region' = (chan, s')) : channel s' region = channel s region := by
  rcases queue_cases hqueue with ⟨-, rfl⟩ | ⟨hnone, -, rfl⟩
  · rfl
  · by_cases hregion : region = region'
    · simp [channel, hregion, hnone, hs.fresh]
    · simp [channel, Function.update_of_ne hregion]

theorem channel_update (hs : Conserved s) {region' : String} (hchan : s.queues region' = some chan)
    (queue : Fifo Item buffer) (publications : List Publication) (consumers : List Consumer) :
    channel { s with
        chans := Function.update s.chans chan queue
        publications, consumers } region =
      if region = region' then queue.toList else channel s region := by
  split_ifs with hregion
  · simp [channel, hregion, hchan]
  · cases hget : s.queues region with
    | none => simp [channel, hget]
    | some chan' =>
      have hne : chan' ≠ chan := by
        rintro rfl
        exact hregion (hs.distinct _ _ _ hget hchan)
      simp [channel, hget, Function.update_of_ne hne]

/-- What a step sends and receives accounts for the channel. -/
theorem channel_step (hs : Conserved s) (h : Does s l s') :
    channel s region ++ sends region s l = receives region s l ++ channel s' region := by
  cases h with
  | publish hqueue => exact (List.append_nil _).trans (channel_queue hs hqueue).symm
  | wake _ _ hqueue => exact (List.append_nil _).trans (channel_queue hs hqueue).symm
  | consume hqueue => exact (List.append_nil _).trans (channel_queue hs hqueue).symm
  | succeed | fail => simp [sends, receives, channel]
  | @send i p hget chan hphase queue hoffer =>
    have hchan := hs.sending p (List.mem_of_getElem? hget) chan hphase
    rw [channel_update hs hchan, Fifo.toList_of_offer hoffer]
    by_cases hregion : region = p.region
    · simp [sends, receives, hget, hregion, channel_of_some hchan]
    · simp [sends, receives, hget, hregion, Ne.symm hregion]
  | @receive k c hget hidle item queue htake =>
    have hchan := hs.consuming c (List.mem_of_getElem? hget)
    rw [channel_update hs hchan]
    by_cases hregion : region = c.region
    · simp [sends, receives, hget, hregion, htake, channel_of_some hchan, Fifo.toList_of_take htake,
        Option.filter_some]
    · simp [sends, receives, hget, hregion, Ne.symm hregion]

end Order

/-- **First in, first out.** In every run of any number of publishers, goroutines that publish again
and consumers, the consumers of a region receive the assignments in the order in which these were
sent to the region. Those that were sent and not received are in its channel, in the same order, and
there are never more of them than the size of the buffer. -/
theorem received_in_order (buffer : ℤ) {ls : List Label}
    (hrun : (bus (bufferSize buffer)).Runs {} ls) (region : String) :
    let left := channel ((bus (bufferSize buffer)).exec {} ls) region
    (bus (bufferSize buffer)).outputs (sends region) {} ls =
        (bus (bufferSize buffer)).outputs (receives region) {} ls ++ left ∧
      left.length ≤ bufferSize buffer := by
  have hstep (s : State (bufferSize buffer)) (l : Label) (henabled : (bus _).enabled s l) :
      Does s l ((bus _).step s l) := by
    obtain ⟨s', hs'⟩ := Option.isSome_iff_exists.mp henabled
    simpa [bus, hs'] using does_of_next hs'
  have hconserved := System.EveryStep.and_invariant hrun conserved_new fun s l henabled hs =>
    hs.step (hstep s l henabled)
  constructor
  · have := hconserved.outputs_eq (channel · region) fun s l h =>
      channel_step h.2 (hstep s l h.1)
    simpa [channel] using this
  · dsimp only [channel]
    split
    · exact Fifo.length_le _
    · exact Nat.zero_le _

theorem received_in_order_sample :
    let ls := Sample.labels.take 5 ++
      [.publish "region" DomainSample.assignment, .send 2, .wake 1, .send 1, .receive 0]
    (bus (bufferSize 0)).Runs {} ls ∧
      ((bus (bufferSize 0)).outputs (receives "region") {} ls).map Item.call = [0, 2] ∧
      (bus (bufferSize 0)).outputs (sends "region") {} ls =
        (bus (bufferSize 0)).outputs (receives "region") {} ls ++
          channel ((bus (bufferSize 0)).exec {} ls) "region" := by
  intro ls
  have hrun : (bus (bufferSize 0)).Runs {} ls := by
    unfold System.Runs
    decide +kernel
  exact ⟨hrun, by decide +kernel, (received_in_order 0 hrun "region").1⟩

end Lecrev.Dispatch.MemoryBus
