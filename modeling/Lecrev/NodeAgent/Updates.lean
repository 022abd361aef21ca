import Lecrev.Concurrency.RelyGuarantee
import Lecrev.NodeAgent.Service

/-!
# The updates of an assignment

`executeAssignment` runs beside the goroutine that reports the assignment as running. The goroutine
is cancelled before the terminal update is sent, but nothing waits for it: a tick that it has taken,
or takes although its context is done, is reported after the terminal update. If it reports its
ticks before it is cancelled, the terminal update is the last one.
-/

namespace Lecrev.NodeAgent

/-- The goroutines that an assignment is about. -/
inductive Goroutine
  /-- `executeAssignment`. -/
  | assignment
  /-- `assignmentHeartbeatLoop`. -/
  | heartbeats
  /-- Whoever cancels the context of the agent. -/
  | caller
  deriving DecidableEq

/-- The program of each goroutine; the `select` of the heartbeats picks the given branches. -/
def goroutine (n : Node) (o : Outside) (msg : Assignment) (turns : List Select) :
    Goroutine → AgentM Unit
  | .assignment => executeAssignment n o msg
  | .heartbeats => assignmentHeartbeatLoop n msg turns
  | .caller => .modify .cancel fun a => { a with ctxDone := true }

/-- The goroutines side by side, after the moves of a schedule. -/
def run (n : Node) (o : Outside) (msg : Assignment) (turns : List Select) (a : Agent)
    (schedule : List Goroutine) : Pool Goroutine AgentCall Agent Err Unit :=
  Pool.system.exec (.start a (goroutine n o msg turns)) (schedule.map .run)

/-- No update was sent about the assignment, and its goroutine was not started. -/
structure Idle (a : Agent) : Prop where
  updates : a.updates = []
  beating : a.beating = false
  stopped : a.stopped = false

/-! ## What the updates say -/

/-- None of the updates ends the assignment. -/
def Open (us : List AssignmentUpdate) : Prop := ∀ u ∈ us, u.terminal = false

instance (us : List AssignmentUpdate) : Decidable (Open us) :=
  inferInstanceAs (Decidable (∀ u ∈ us, u.terminal = false))

/-- Exactly one of the updates ends the assignment. -/
def Ended (us : List AssignmentUpdate) : Prop :=
  ∃ before u after, us = before ++ u :: after ∧ Open before ∧ u.terminal = true ∧ Open after

/-- An update that ends the assignment is the last one. -/
def Settled (us : List AssignmentUpdate) : Prop :=
  ∀ before u after, us = before ++ u :: after → u.terminal = true → after = []

/-- Non-terminal updates, followed by exactly one terminal update and nothing after it. -/
def TerminalLast (us : List AssignmentUpdate) : Prop :=
  us.getLast?.any AssignmentUpdate.terminal = true ∧ Open us.dropLast

instance (us : List AssignmentUpdate) : Decidable (TerminalLast us) :=
  inferInstanceAs (Decidable (_ ∧ Open us.dropLast))

variable {us : List AssignmentUpdate} {a a' : Agent} {u : AssignmentUpdate}

theorem Open.append {vs : List AssignmentUpdate} (hus : Open us) (hvs : Open vs) :
    Open (us ++ vs) := by
  intro u hu
  obtain hu | hu := List.mem_append.mp hu
  · exact hus u hu
  · exact hvs u hu

theorem open_singleton (h : u.terminal = false) : Open [u] := by
  intro v hv
  rw [List.mem_singleton.mp hv]
  exact h

theorem Open.settled (h : Open us) : Settled us := by
  rintro before u after rfl hu
  rw [h u (by simp)] at hu
  cases hu

theorem Open.settled_append (h : Open us) (v : AssignmentUpdate) :
    Settled (us ++ [v]) := by
  intro before u after hus hu
  -- a terminal update that is not the last one would be among the open ones
  obtain ⟨rest, rfl, hrest⟩ | ⟨rest, rfl, hrest⟩ := List.append_eq_append_iff.mp hus
  · cases rest with
    | nil =>
      simp only [List.nil_append, List.cons.injEq] at hrest
      exact hrest.2.symm
    | cons w rest =>
      simp at hrest
  · cases rest with
    | nil =>
      simp only [List.nil_append, List.cons.injEq] at hrest
      exact hrest.2
    | cons w rest =>
      simp only [List.cons_append, List.cons.injEq] at hrest
      obtain ⟨rfl, -⟩ := hrest
      rw [h u (by simp)] at hu
      cases hu

theorem Ended.append {vs : List AssignmentUpdate} (hus : Ended us) (hvs : Open vs) :
    Ended (us ++ vs) := by
  obtain ⟨before, u, after, rfl, hbefore, hu, hafter⟩ := hus
  exact ⟨before, u, after ++ vs, by simp, hbefore, hu, hafter.append hvs⟩

theorem Open.ended (hus : Open us) (hu : u.terminal = true) : Ended (us ++ [u]) :=
  ⟨us, u, [], rfl, hus, hu, by simp [Open]⟩

theorem Ended.terminalLast_iff (h : Ended us) :
    TerminalLast us ↔ Settled us := by
  obtain ⟨before, u, after, rfl, hbefore, hu, hafter⟩ := h
  constructor
  · rintro ⟨-, hopen⟩ before' v after' hus hv
    by_contra hne
    -- a terminal update with something after it is among all but the last
    have hmem : v ∈ (before ++ u :: after).dropLast := by
      rw [hus, List.dropLast_append_of_ne_nil (by simp), List.dropLast_cons_of_ne_nil hne]
      simp
    rw [hopen v hmem] at hv
    cases hv
  · intro hsettled
    obtain rfl := hsettled before u after rfl hu
    refine ⟨by simpa using hu, ?_⟩
    rw [List.dropLast_concat]
    exact hbefore

theorem Open.not_terminalLast (h : Open us) : ¬ TerminalLast us := by
  rintro ⟨hlast, -⟩
  cases hget : us.getLast? with
  | none =>
    rw [hget] at hlast
    cases hlast
  | some u =>
    rw [hget] at hlast
    have hu : u.terminal = true := hlast
    rw [h u (List.mem_of_getLast? hget)] at hu
    cases hu

/-! ## The protocol of the goroutines -/

/-- From `a` to `a'` no update ended the assignment, and its heartbeats were neither started nor
stopped. -/
structure Carries (a a' : Agent) : Prop where
  updates : ∃ us, a'.updates = a.updates ++ us ∧ Open us
  beating : a'.beating = a.beating
  stopped : a'.stopped = a.stopped

/-- What the other goroutines do while an assignment is executed. -/
structure Beside (a a' : Agent) : Prop extends Carries a a' where
  prepared : a'.prepared = a.prepared
  bundleCache : a'.bundleCache = a.bundleCache

theorem carries_of_eq (hupdates : a'.updates = a.updates) (hbeating : a'.beating = a.beating)
    (hstopped : a'.stopped = a.stopped) : Carries a a' :=
  ⟨⟨[], by rw [hupdates, List.append_nil], by simp [Open]⟩, hbeating, hstopped⟩

theorem Beside.refl (a : Agent) : Beside a a := ⟨carries_of_eq rfl rfl rfl, rfl, rfl⟩

theorem Beside.trans {b c : Agent} (hab : Beside a b) (hbc : Beside b c) : Beside a c := by
  obtain ⟨us, hus, hopen⟩ := hab.updates
  obtain ⟨vs, hvs, hopen'⟩ := hbc.updates
  refine ⟨⟨⟨us ++ vs, by rw [hvs, hus, List.append_assoc], hopen.append hopen'⟩, ?_, ?_⟩, ?_, ?_⟩
  · exact hbc.beating.trans hab.beating
  · exact hbc.stopped.trans hab.stopped
  · exact hbc.prepared.trans hab.prepared
  · exact hbc.bundleCache.trans hab.bundleCache

/-- An update has ended the assignment only if its heartbeats are stopped, or were never started. -/
def Calm (a : Agent) : Prop := Open a.updates ∨ a.stopped = true ∨ a.beating = false

theorem Carries.calm (h : Carries a a') (ha : Calm a) : Calm a' := by
  obtain ⟨us, hus, hopen⟩ := h.updates
  obtain hunended | hquiet := ha
  · left
    rw [hus]
    exact hunended.append hopen
  · rw [← h.beating, ← h.stopped] at hquiet
    exact .inr hquiet

/-- What a call of an agent does to the updates. -/
def Appends : AgentCall → Agent → Agent → Prop
  | .sendUpdate u, a, a' => a'.updates = a.updates ++ [u]
  | _, a, a' => a'.updates = a.updates

/-- What a call of the assignment does: it sends an update only if none has ended it, and one that
ends it only once the heartbeats are stopped. -/
structure Reports (l : AgentCall) (a a' : Agent) : Prop where
  appends : Appends l a a'
  first : ∀ u, l = .sendUpdate u → Open a.updates
  calm : Calm a → Calm a'
  beating : a.beating = true → a'.beating = true

/-- What a call of the heartbeats does. With `silent`, they too send an update only if none has
ended the assignment. -/
def Beats (silent : Prop) (l : AgentCall) (a a' : Agent) : Prop :=
  Appends l a a' ∧ Beside a a' ∧ ∀ u, l = .sendUpdate u → silent → Open a.updates

/-- The protocol of each goroutine. With `silent`, the heartbeats send an update only in a state in
which none has ended the assignment. No call fails: the answers of the outside are part of the
programs. -/
def protocol (silent : Prop) : Goroutine → Protocol AgentCall Agent Unit
  | .assignment =>
    { rely := fun _ a _ a' => Beside a a'
      guar := fun l _ a _ a' => Reports l a a'
      meets := fun _ _ => True
      fallible := fun _ => False
      rely_refl := fun _ a => .refl a
      rely_trans := .trans }
  | .heartbeats =>
    { rely := fun _ _ _ _ => True
      guar := fun l _ a _ a' => Beats silent l a a'
      meets := fun l a => silent → ∀ u, l = .sendUpdate u → Open a.updates
      fallible := fun _ => False
      rely_refl := fun _ _ => trivial
      rely_trans := fun _ _ => trivial }
  | .caller =>
    { rely := fun _ _ _ _ => True
      guar := fun l _ a _ a' => Beats silent l a a'
      meets := fun _ _ => True
      fallible := fun _ => False
      rely_refl := fun _ _ => trivial
      rely_trans := fun _ _ => trivial }

theorem compatible_protocol (silent : Prop) : Pool.Compatible (protocol silent) := by
  intro i j hne l g a g' a' hguar
  cases j with
  | assignment =>
    cases i with
    | assignment => exact absurd rfl hne
    | heartbeats => exact hguar.2.1
    | caller => exact hguar.2.1
  | heartbeats => trivial
  | caller => trivial

theorem settled_of_appends {l : AgentCall} (h : Appends l a a')
    (hopen : ∀ u, l = .sendUpdate u → Open a.updates) (hsettled : Settled a.updates) :
    Settled a'.updates := by
  cases l with
  | sendUpdate u =>
    rw [h]
    exact (hopen u rfl).settled_append u
  | _ =>
    rw [h]
    exact hsettled

/-- What the goroutines keep together. -/
def Kept (silent : Prop) (a : Agent) : Prop := (silent → Settled a.updates) ∧ Calm a

theorem Beats.kept {silent : Prop} {l : AgentCall} (h : Beats silent l a a') (ha : Kept silent a) :
    Kept silent a' :=
  ⟨fun hs => settled_of_appends h.1 (fun u hu => h.2.2 u hu hs) (ha.1 hs), h.2.1.calm ha.2⟩

theorem keeping_kept (silent : Prop) :
    Pool.Keeping (protocol silent) fun _ a _ => Kept silent a := by
  intro i l g a g' a' log hguar ha
  cases i with
  | assignment =>
    exact ⟨fun hs => settled_of_appends hguar.appends hguar.first (ha.1 hs), hguar.calm ha.2⟩
  | heartbeats => exact Beats.kept hguar ha
  | caller => exact Beats.kept hguar ha

/-! ## The other goroutines -/

theorem newUpdate_running_terminal (n : Node) (msg : Assignment) (output : Bytes) :
    (newUpdate n msg .running [] output "" 0).terminal = false := rfl

/-- The heartbeats follow their protocol. -/
theorem safe_heartbeats (silent : Prop) (n : Node) (msg : Assignment) (turns : List Select)
    (a : Agent) :
    (assignmentHeartbeatLoop n msg turns).Safe (protocol silent .heartbeats)
      (fun _ _ _ => True) () a := by
  have hsame (l : AgentCall) (a : Agent) (hl : ∀ u, l ≠ .sendUpdate u) : Beats silent l a a := by
    refine ⟨?_, .refl a, fun u hu => absurd hu (hl u)⟩
    cases l with
    | sendUpdate u => exact absurd rfl (hl u)
    | _ => rfl
  induction turns generalizing a with
  | nil => exact fun _ _ _ => trivial
  | cons turn turns ih =>
    cases turn with
    | done =>
      intro g a' _
      refine ⟨fun _ => ⟨(), hsame (.select .done) a' nofun, ?_⟩, nofun⟩
      change (if a'.beating && a'.runDone then pure ()
        else assignmentHeartbeatLoop n msg turns : AgentM Unit).Safe _ _ () a'
      split
      · exact fun _ _ _ => trivial
      · exact ih a'
    | tick =>
      intro g a' _
      refine ⟨fun _ => ⟨(), hsame (.select .tick) a' nofun, ?_⟩, nofun⟩
      change (if a'.beating then emitRunning n msg >>= fun _ => assignmentHeartbeatLoop n msg turns
        else assignmentHeartbeatLoop n msg turns : AgentM Unit).Safe _ _ () a'
      split
      · -- the report, after whatever the others did since the tick
        intro g a'' _
        refine ⟨fun hmeets => ⟨(), ⟨rfl, ?_, fun u hu hs => hmeets hs u hu⟩, ih _⟩, nofun⟩
        exact ⟨⟨⟨_, rfl, open_singleton (newUpdate_running_terminal n msg [])⟩, rfl, rfl⟩, rfl,
          rfl⟩
      · exact ih a'

theorem safe_caller (silent : Prop) (a : Agent) :
    (.modify .cancel fun a => { a with ctxDone := true } : AgentM Unit).Safe
      (protocol silent .caller) (fun _ _ _ => True) () a := by
  intro g a' _
  refine ⟨fun _ => ⟨(), ⟨rfl, ⟨carries_of_eq rfl rfl rfl, rfl, rfl⟩, nofun⟩, ?_⟩, nofun⟩
  exact fun _ _ _ => trivial

/-! ## The assignment -/

/-- The requests that are passed to `PrepareFunctionWarm` after the execution of a request. -/
def warmed (n : Node) (o : Outside) (req : ExecuteRequest) (run : DriverRun) :
    List ExecuteRequest :=
  if n.warmer && !(run.err.isSome || (o.limited run).2.2.isSome) then [req] else []

/-- The bundle that `loadBundle` finds on the agent `a`: it comes from the cache, or from the object
store. -/
def foundBundle (o : Outside) (a : Agent) (bundleKey : String) : Except Err Bytes :=
  if trimSpace bundleKey = "" then .error (.other "artifact bundle key is required")
  else
    match a.bundleCache.lookup (trimSpace bundleKey) with
    | some cached => .ok cached
    | none => o.getObject (trimSpace bundleKey)

/-- The secrets of an assignment without variables would be written to a nil map. -/
def Unwritable (n : Node) (o : Outside) (msg : Assignment) : Prop :=
  msg.envVars = [] ∧ ∃ resolved, o.resolveExecution (secretsRequest n msg) = .ok resolved ∧
    resolved ≠ ∅

/-- `executeAssignment`, started on the agent `a`, panics: it finds the bundle and has secrets to
write to the nil map of an assignment without variables. -/
def Panics (n : Node) (o : Outside) (msg : Assignment) (a : Agent) : Prop :=
  (∃ bundle, foundBundle o a (trimSpace msg.artifactBundleKey) = .ok bundle) ∧ Unwritable n o msg

/-- The requests that are passed to `PrepareFunctionWarm` once the bundle is loaded. -/
def resolvedRequests (n : Node) (o : Outside) (msg : Assignment) (bundle : Bytes) :
    List ExecuteRequest :=
  match o.resolveExecution (secretsRequest n msg) with
  | .error _ => []
  | .ok resolved =>
    match mergeSecrets msg resolved with
    | none => []
    | some env =>
      warmed n o (newExecuteRequest n msg bundle env)
        (o.execute (newExecuteRequest n msg bundle env))

/-- The requests that `executeAssignment`, started on the agent `a`, passes to
`PrepareFunctionWarm`. -/
def warmRequests (n : Node) (o : Outside) (msg : Assignment) (a : Agent) : List ExecuteRequest :=
  if trimSpace msg.artifactBundleKey = "" then []
  else
    match foundBundle o a (trimSpace msg.artifactBundleKey) with
    | .error _ => []
    | .ok bundle => resolvedRequests n o msg bundle

/-- No update has ended the assignment. -/
def Unended (a : Agent) : Prop := Open a.updates

/-- No update has ended the assignment, and one may: no heartbeats are running. -/
def Endable (a : Agent) : Prop := Open a.updates ∧ (a.stopped = true ∨ a.beating = false)

/-- An update has ended the assignment. -/
def Over (a : Agent) : Prop := Ended a.updates

/-- The agent satisfies `Ψ`, and the given requests were made for function snapshots. -/
def At (Ψ : Agent → Prop) (reqs : List ExecuteRequest) (a : Agent) : Prop :=
  Ψ a ∧ a.prepared = reqs

/-- What carries on changes nothing about `Ψ`. -/
def Lasting (Ψ : Agent → Prop) : Prop := ∀ a a', Carries a a' → Ψ a → Ψ a'

theorem lasting_unended : Lasting Unended := by
  intro a a' h ha
  obtain ⟨us, hus, hopen⟩ := h.updates
  show Open a'.updates
  rw [hus]
  exact Open.append ha hopen

theorem lasting_endable : Lasting Endable := by
  intro a a' h ha
  refine ⟨lasting_unended a a' h ha.1, ?_⟩
  rw [h.beating, h.stopped]
  exact ha.2

theorem lasting_over : Lasting Over := by
  intro a a' h ha
  obtain ⟨us, hus, hopen⟩ := h.updates
  show Ended a'.updates
  rw [hus]
  exact Ended.append ha hopen

theorem At.of_beside {Ψ : Agent → Prop} (hΨ : Lasting Ψ) {reqs : List ExecuteRequest}
    (h : At Ψ reqs a) (hbeside : Beside a a') : At Ψ reqs a' :=
  ⟨hΨ a a' hbeside.toCarries h.1, hbeside.prepared.trans h.2⟩

theorem At.unended {reqs : List ExecuteRequest} (h : At Endable reqs a) :
    At Unended reqs a :=
  ⟨h.1.1, h.2⟩

/-- A call that sends no update, leaves the heartbeats alone and asks for no snapshot. -/
def Quiet (l : AgentCall) (a a' : Agent) : Prop :=
  (∀ u, l ≠ .sendUpdate u) ∧ (a'.updates = a.updates ∧ a'.beating = a.beating ∧
    a'.stopped = a.stopped) ∧ a'.prepared = a.prepared

theorem Quiet.carries {l : AgentCall} (h : Quiet l a a') : Carries a a' :=
  carries_of_eq h.2.1.1 h.2.1.2.1 h.2.1.2.2

theorem Quiet.reports {l : AgentCall} (h : Quiet l a a') : Reports l a a' where
  appends := by
    cases l with
    | sendUpdate u => exact absurd rfl (h.1 u)
    | _ => exact h.2.1.1
  first u hu := absurd hu (h.1 u)
  calm := h.carries.calm
  beating := h.2.1.2.1.trans

theorem keeps_locked {f : Agent → Agent}
    (hf : ∀ a, ((f a).updates = a.updates ∧ (f a).beating = a.beating ∧
      (f a).stopped = a.stopped) ∧ (f a).prepared = a.prepared) :
    (Agent.locked f).Keeps (fun _ => True) Quiet :=
  Prog.keeps_modify fun a _ => ⟨trivial, nofun, hf a⟩

theorem keeps_critical {α : Type} (f : Agent → Except Err α) :
    (.query .critical f : AgentM α).Keeps (fun _ => True) Quiet :=
  Prog.keeps_query fun _ _ => ⟨nofun, ⟨rfl, rfl, rfl⟩, rfl⟩

theorem keeps_sendHeartbeat (n : Node) : (sendHeartbeat n).Keeps (fun _ => True) Quiet := by
  have hinventory : (warmInventory n).Keeps (fun _ => True) Quiet := by
    refine (keeps_critical _).bind_of fun slots => ?_
    split
    · exact Prog.keeps_pure _
    · exact Prog.keeps_pure _
    · exact keeps_critical _
  refine Prog.Keeps.bind_of (hinventory.bind_of fun _ => (keeps_critical _).bind_of fun _ =>
    Prog.keeps_pure _) fun heartbeat => ?_
  exact Prog.keeps_modify fun a _ => ⟨trivial, nofun, ⟨rfl, rfl, rfl⟩, rfl⟩

theorem succeeds_sendHeartbeat (n : Node) : (sendHeartbeat n).Succeeds := by
  have hinventory : (warmInventory n).Succeeds := by
    refine (Prog.succeeds_query fun a => ⟨_, rfl⟩).bind fun slots => ?_
    split
    · exact Prog.succeeds_pure _
    · exact Prog.succeeds_pure _
    · exact Prog.succeeds_query fun a => ⟨_, rfl⟩
  refine Prog.Succeeds.bind (hinventory.bind fun _ =>
    (Prog.succeeds_query fun a => ⟨_, rfl⟩).bind fun _ => Prog.succeeds_pure _) fun heartbeat => ?_
  exact Prog.succeeds_modify _ _

section Safe

variable {silent : Prop} {Ψ : Agent → Prop} {reqs : List ExecuteRequest}
  {n : Node} {o : Outside} {msg : Assignment}

theorem safe_quiet {α : Type} {p : AgentM α} (hp : p.Keeps (fun _ => True) Quiet) (hok : p.Succeeds)
    (hΨ : Lasting Ψ) (ha : At Ψ reqs a) :
    p.Safe (protocol silent .assignment) (fun r _ a => (∃ x, r = .ok x) ∧ At Ψ reqs a) () a := by
  refine Prog.Safe.of_succeeds ?_ hok fun _ => id
  refine hp.safe (J := fun _ a => At Ψ reqs a) ha (fun _ => trivial)
    (fun hrely h => h.of_beside hΨ hrely) fun h _ hquiet => ⟨hquiet.reports, ?_⟩
  exact ⟨hΨ _ _ hquiet.carries h.1, hquiet.2.2.trans h.2⟩

theorem safe_locked {f : Agent → Agent}
    (hf : ∀ a, ((f a).updates = a.updates ∧ (f a).beating = a.beating ∧
      (f a).stopped = a.stopped) ∧ (f a).prepared = a.prepared) (hΨ : Lasting Ψ)
    (ha : At Ψ reqs a) :
    (Agent.locked f).Safe (protocol silent .assignment)
      (fun r _ a => (∃ x, r = .ok x) ∧ At Ψ reqs a) () a :=
  safe_quiet (keeps_locked hf) (Prog.succeeds_modify _ _) hΨ ha

/-- A call of the assignment that leads from `Ψ` to `Ψ'`. -/
theorem safe_modify {Ψ' : Agent → Prop} {l : AgentCall} {f : Agent → Agent} (hΨ : Lasting Ψ)
    (hΨ' : Lasting Ψ') (hf : ∀ a, Ψ a → Reports l a (f a) ∧ Ψ' (f a))
    (hprepared : ∀ a, (f a).prepared = a.prepared) (ha : At Ψ reqs a) :
    (.modify l f : AgentM Unit).Safe (protocol silent .assignment)
      (fun r _ a => (∃ x, r = .ok x) ∧ At Ψ' reqs a) () a := by
  intro g a' hrely
  have ha' := ha.of_beside hΨ hrely
  have hdone : At Ψ' reqs (f a') := ⟨(hf a' ha'.1).2, (hprepared a').trans ha'.2⟩
  refine ⟨fun _ => ⟨(), (hf a' ha'.1).1, fun g a'' hrely => ⟨⟨(), rfl⟩, ?_⟩⟩, nofun⟩
  exact hdone.of_beside hΨ' hrely

theorem reports_sendUpdate (hu : u.terminal = false) (ha : Unended a) :
    Reports (.sendUpdate u) a { a with updates := a.updates ++ [u] } where
  appends := rfl
  first _ _ := ha
  calm _ := .inl (Open.append ha (open_singleton hu))
  beating := id

/-- An update that does not end the assignment, sent by the assignment itself. -/
theorem safe_report (hu : u.terminal = false) (ha : At Unended reqs a) :
    (sendUpdate u).Safe (protocol silent .assignment)
      (fun r _ a => (∃ x, r = .ok x) ∧ At Unended reqs a) () a :=
  safe_modify lasting_unended lasting_unended
    (fun _ ha => ⟨reports_sendUpdate hu ha, Open.append ha (open_singleton hu)⟩) (fun _ => rfl) ha

/-- The update that ends the assignment. -/
theorem safe_conclude (hu : u.terminal = true) (ha : At Endable reqs a) :
    (sendUpdate u).Safe (protocol silent .assignment)
      (fun r _ a => (∃ x, r = .ok x) ∧ At Over reqs a) () a :=
  safe_modify lasting_endable lasting_over
    (fun _ ha => ⟨⟨rfl, fun _ _ => ha.1, fun _ => .inr ha.2, id⟩, ha.1.ended hu⟩)
    (fun _ => rfl) ha

theorem safe_then {α β : Type} {J : Agent → Prop} {Q : Except Err β → Unit → Agent → Prop}
    {p : AgentM α} {f : α → AgentM β}
    (hp : p.Safe (protocol silent .assignment) (fun r _ a => (∃ x, r = .ok x) ∧ J a) () a)
    (hf : ∀ x a, J a → (f x).Safe (protocol silent .assignment) Q () a) :
    (p >>= f).Safe (protocol silent .assignment) Q () a := by
  refine hp.bind (fun x _ a h => hf x a h.2) fun e _ _ h => ?_
  obtain ⟨⟨x, hx⟩, -⟩ := h
  cases hx

theorem safe_pure {α : Type} (x : α) (hΨ : Lasting Ψ) (ha : At Ψ reqs a) :
    (pure x : AgentM α).Safe (protocol silent .assignment)
      (fun r _ a => (∃ x, r = .ok x) ∧ At Ψ reqs a) () a :=
  safe_quiet (Prog.keeps_pure _) (Prog.succeeds_pure _) hΨ ha

theorem safe_releaseSlot (flags : SlotFlags) (hΨ : Lasting Ψ) (ha : At Ψ reqs a) :
    (releaseSlot n msg flags).Safe (protocol silent .assignment)
      (fun r _ a => (∃ x, r = .ok x) ∧ At Ψ reqs a) () a := by
  unfold releaseSlot
  split
  · exact safe_pure _ hΨ ha
  · refine safe_then
      (safe_quiet (Prog.keeps_modify fun a _ => ⟨trivial, nofun, ⟨rfl, rfl, rfl⟩, rfl⟩)
      (Prog.succeeds_modify _ _) hΨ ha) fun _ a ha => safe_pure _ hΨ ha

theorem safe_deferredRelease (flags : SlotFlags) (hΨ : Lasting Ψ) (ha : At Ψ reqs a) :
    (deferredRelease n msg flags).Safe (protocol silent .assignment)
      (fun r _ a => (∃ x, r = .ok x) ∧ At Ψ reqs a) () a := by
  unfold deferredRelease
  split
  · exact safe_pure _ hΨ ha
  · exact safe_then (safe_releaseSlot flags hΨ ha) fun _ a ha => safe_pure _ hΨ ha

theorem safe_cleanUp (run : DriverRun) (hΨ : Lasting Ψ) (ha : At Ψ reqs a) :
    (cleanUp run).Safe (protocol silent .assignment)
      (fun r _ a => (∃ x, r = .ok x) ∧ At Ψ reqs a) () a := by
  unfold cleanUp
  split
  · exact safe_quiet (Prog.keeps_modify fun a _ => ⟨trivial, nofun, ⟨rfl, rfl, rfl⟩, rfl⟩)
      (Prog.succeeds_modify _ _) hΨ ha
  · exact safe_pure _ hΨ ha

theorem safe_failAssignment (trace : List String) (errMsg : String) (flags : SlotFlags)
    (ha : At Endable reqs a) :
    (failAssignment n msg trace errMsg flags).Safe (protocol silent .assignment)
      (fun r _ a => (∃ x, r = .ok x) ∧ At Over reqs a) () a :=
  safe_then (safe_conclude rfl ha) fun _ _ ha => safe_pure _ lasting_over ha

theorem safe_prepareWarmAsync (req : ExecuteRequest) (functionVersionID : String)
    (ha : At Over reqs a) :
    (prepareWarmAsync n req functionVersionID (pure ())).Safe (protocol silent .assignment)
      (fun r _ a => (∃ x, r = .ok x) ∧ At Over (reqs ++ if n.warmer then [req] else []) a)
      () a := by
  have hrest (reqs : List ExecuteRequest) (a : Agent) (ha : At Over reqs a) :
      (do pure (); sendHeartbeat n : AgentM Unit).Safe (protocol silent .assignment)
        (fun r _ a => (∃ x, r = .ok x) ∧ At Over reqs a) () a :=
    safe_quiet (keeps_sendHeartbeat n) (succeeds_sendHeartbeat n) lasting_over ha
  unfold prepareWarmAsync
  split
  · intro g a' hrely
    have ha' := ha.of_beside lasting_over hrely
    have hprepared : At Over (reqs ++ [req]) { a' with prepared := a'.prepared ++ [req] } :=
      ⟨ha'.1, by rw [ha'.2]⟩
    exact ⟨fun _ => ⟨(), ⟨rfl, nofun, id, id⟩, hrest _ _ hprepared⟩, nofun⟩
  · rw [List.append_nil]
    exact safe_then (safe_locked (fun _ => ⟨⟨rfl, rfl, rfl⟩, rfl⟩) lasting_over ha) fun _ =>
      hrest reqs

/-- One terminal update ends the assignment. -/
theorem safe_finishAssignment (req : ExecuteRequest) (run : DriverRun) (flags : SlotFlags)
    (ha : At Unended reqs a) :
    (finishAssignment n o msg req run flags).Safe (protocol silent .assignment)
      (fun r _ a => (∃ x, r = .ok x) ∧ At Over (reqs ++ warmed n o req run) a) () a := by
  have hstop : (.modify .cancel fun a => { a with stopped := true } : AgentM Unit).Safe
      (protocol silent .assignment) (fun r _ a => (∃ x, r = .ok x) ∧ At Endable reqs a) () a :=
    safe_modify lasting_unended lasting_endable
      (fun _ ha => ⟨⟨rfl, nofun, fun _ => .inr (.inl rfl), id⟩, ha, .inl rfl⟩) (fun _ => rfl) ha
  unfold finishAssignment warmed
  generalize o.limited run = limited
  refine safe_then hstop fun _ a ha => ?_
  by_cases hfailed : (run.err.isSome || limited.2.2.isSome) = true
  · have hwarmed : (n.warmer && !(run.err.isSome || limited.2.2.isSome)) = false := by
      rw [hfailed, Bool.not_true, Bool.and_false]
    rw [if_pos hfailed, hwarmed, if_neg Bool.false_ne_true, List.append_nil]
    refine safe_then (safe_conclude rfl ha) fun _ a ha => ?_
    refine safe_then (safe_cleanUp run lasting_over ha) fun _ a ha => ?_
    refine safe_then (safe_releaseSlot flags lasting_over ha) fun flags a ha => ?_
    refine safe_then (safe_quiet (keeps_sendHeartbeat n) (succeeds_sendHeartbeat n) lasting_over
      ha) fun _ a ha => ?_
    exact safe_pure flags lasting_over ha
  · have hwarmed : (n.warmer && !(run.err.isSome || limited.2.2.isSome)) = n.warmer := by
      rw [Bool.eq_false_of_not_eq_true hfailed, Bool.not_false, Bool.and_true]
    rw [if_neg hfailed, hwarmed]
    refine safe_then (safe_conclude rfl ha) fun _ a ha => ?_
    refine safe_then (safe_cleanUp run lasting_over ha) fun _ a ha => ?_
    refine safe_then (safe_releaseSlot flags lasting_over ha) fun flags a ha => ?_
    refine safe_then (safe_quiet (keeps_sendHeartbeat n) (succeeds_sendHeartbeat n) lasting_over
      ha) fun _ a ha => ?_
    refine safe_then (safe_prepareWarmAsync req msg.functionVersionID ha) fun _ a ha => ?_
    exact safe_pure flags lasting_over ha

theorem safe_streamEvents (events : List HTTPStreamEvent) (ha : At Unended reqs a) :
    (streamEvents n o msg events).Safe (protocol silent .assignment)
      (fun r _ a => (∃ x, r = .ok x) ∧ At Unended reqs a) () a := by
  induction events generalizing a with
  | nil => exact fun _ _ hrely => ⟨⟨(), rfl⟩, ha.of_beside lasting_unended hrely⟩
  | cons event events ih =>
    exact safe_then (safe_report (newUpdate_running_terminal n msg _) ha) fun _ _ ha => ih ha

theorem safe_runAssignment (req : ExecuteRequest) (flags : SlotFlags) (ha : At Endable reqs a) :
    (runAssignment n o msg req flags).Safe (protocol silent .assignment)
      (fun r _ a => (∃ x, r = .ok x) ∧ At Over (reqs ++ warmed n o req (o.execute req)) a)
      () a := by
  refine safe_then (safe_report (newUpdate_running_terminal n msg _) ha.unended) fun _ a ha => ?_
  have hgo : (.modify .go fun a => { a with beating := true } : AgentM Unit).Safe
      (protocol silent .assignment) (fun r _ a => (∃ x, r = .ok x) ∧ At Unended reqs a) () a :=
    safe_modify lasting_unended lasting_unended
      (fun _ ha => ⟨⟨rfl, nofun, fun _ => .inl ha, fun _ => rfl⟩, ha⟩) (fun _ => rfl) ha
  refine safe_then hgo fun _ a ha => ?_
  have hexecute : (.query (.execute req) fun _ => .ok (o.execute req) : AgentM DriverRun).Safe
      (protocol silent .assignment)
      (fun r _ a => r = .ok (o.execute req) ∧ At Unended reqs a) () a := by
    intro g a' hrely
    have ha' := ha.of_beside lasting_unended hrely
    refine ⟨fun _ => ⟨(), ⟨rfl, nofun, id, id⟩, fun g a'' hrely' => ⟨rfl, ?_⟩⟩, nofun⟩
    exact ha'.of_beside lasting_unended hrely'
  refine hexecute.bind (fun run _ a h => ?_) fun e _ _ h => ?_
  · obtain ⟨hrun, ha⟩ := h
    cases hrun
    split
    · exact safe_then (safe_streamEvents _ ha) fun _ a ha => safe_finishAssignment req _ flags ha
    · exact safe_finishAssignment req _ flags ha
  · cases h.1

theorem safe_cachedBundle {a₀ : Agent} (key : String) (hcache : a.bundleCache = a₀.bundleCache)
    (ha : At Endable reqs a) :
    (cachedBundle key).Safe (protocol silent .assignment)
      (fun r _ a => r = .ok (a₀.bundleCache.lookup key) ∧ a.bundleCache = a₀.bundleCache ∧
        At Endable reqs a) () a := by
  intro g a' hrely
  have hcache' : a'.bundleCache = a₀.bundleCache := hrely.bundleCache.trans hcache
  refine ⟨fun _ => ⟨(), ⟨rfl, nofun, id, id⟩, fun g a'' hrely' => ⟨?_, ?_, ?_⟩⟩, nofun⟩
  · dsimp only
    rw [hcache']
  · exact hrely'.bundleCache.trans hcache'
  · exact (ha.of_beside lasting_endable hrely).of_beside lasting_endable hrely'

theorem safe_cacheBundle {key : String} (bundle : Bytes) (hcache : a.bundleCache.lookup key = none)
    (ha : At Endable reqs a) :
    (cacheBundle key bundle).Safe (protocol silent .assignment)
      (fun r _ a => r = .ok bundle ∧ At Endable reqs a) () a := by
  intro g a' hrely
  have ha' := ha.of_beside lasting_endable hrely
  have hcache' : a'.bundleCache.lookup key = none := by rw [hrely.bundleCache, hcache]
  have hcached : At Endable reqs { a' with bundleCache := a'.bundleCache.insert key bundle } := ha'
  refine ⟨fun _ => ⟨(), Quiet.reports ⟨nofun, ?_⟩, ?_⟩, nofun⟩
  · dsimp only
    rw [hcache']
    exact ⟨⟨rfl, rfl, rfl⟩, rfl⟩
  · dsimp only
    rw [hcache']
    exact fun g a'' hrely' => ⟨rfl, hcached.of_beside lasting_endable hrely'⟩

theorem meets_loadBundle (a₀ : Agent) (key : String) :
    (loadBundle o key).Meets (protocol silent .assignment)
      (fun _ a => a.bundleCache = a₀.bundleCache ∧ At Endable reqs a)
      fun r _ a => r = foundBundle o a₀ key ∧ At Endable reqs a := by
  have hret (r : Except Err Bytes) (a : Agent) (ha : At Endable reqs a) :
      (.ret r : AgentM Bytes).Safe (protocol silent .assignment)
        (fun r' _ a => r' = r ∧ At Endable reqs a) () a :=
    fun _ _ hrely => ⟨rfl, ha.of_beside lasting_endable hrely⟩
  unfold loadBundle foundBundle
  generalize trimSpace key = key
  dsimp only
  refine ⟨fun {g a} h => ?_⟩
  obtain ⟨hcache, ha⟩ := h
  by_cases hkey : key = ""
  · rw [if_pos hkey, if_pos hkey]
    exact hret _ a ha
  · rw [if_neg hkey, if_neg hkey]
    refine (safe_cachedBundle _ hcache ha).bind (fun cached _ a h => ?_) fun e _ _ h => ?_
    · obtain ⟨hcached, hcache, ha⟩ := h
      cases hcached
      cases hlookup : a₀.bundleCache.lookup key with
      | some bundle => exact hret _ a ha
      | none =>
        cases hget : o.getObject key with
        | error e => exact hret _ a ha
        | ok bundle => exact safe_cacheBundle bundle (by rw [hcache, hlookup]) ha
    · cases h.1

/-- What the assignment has done when it returns. If it `panics`, it has asked for no function
snapshots, and no update has ended it; otherwise it has sent updates that do not end it and then
exactly one that does, and has asked for the given snapshots. -/
def Executed {α : Type} (panics : Prop) (reqs warm : List ExecuteRequest) (r : Except Err α)
    (a : Agent) : Prop :=
  ((∃ x, r = .ok x) ∧ ¬ panics ∧ At Over (reqs ++ warm) a) ∨
    (r = .error assignmentToNilMap ∧ panics ∧ At Endable reqs a ∧ warm = [])

theorem meets_failAssignment {panics : Prop} (hpanics : ¬ panics) (trace : List String)
    (errMsg : String) (flags : SlotFlags) :
    (failAssignment n msg trace errMsg flags).Meets (protocol silent .assignment)
      (fun _ => At Endable reqs) fun r _ => Executed panics reqs [] r := by
  refine ⟨fun ha => (safe_failAssignment trace errMsg flags ha).mono fun r _ a h => .inl ?_⟩
  rw [List.append_nil]
  exact ⟨h.1, hpanics, h.2⟩

/-- Only secrets that are written to a nil map are not merged. -/
theorem mergeSecrets_eq_none_iff {resolved : Env} :
    mergeSecrets msg resolved = none ↔ msg.envVars = [] ∧ resolved ≠ ∅ := by
  unfold mergeSecrets
  split_ifs with hvars hresolved <;> simp_all

theorem meets_resolveAssignment (bundle : Bytes) (flags : SlotFlags) :
    (resolveAssignment n o msg bundle flags).Meets (protocol silent .assignment)
      (fun _ => At Endable reqs) fun r _ =>
        Executed (Unwritable n o msg) reqs (resolvedRequests n o msg bundle) r := by
  unfold resolveAssignment resolvedRequests
  cases hresolve : o.resolveExecution (secretsRequest n msg) with
  | error e =>
    refine meets_failAssignment ?_ _ _ _
    rintro ⟨-, resolved, hresolved, -⟩
    exact nomatch hresolve.symm.trans hresolved
  | ok resolved =>
    dsimp only
    cases hmerge : mergeSecrets msg resolved with
    | none =>
      obtain ⟨hvars, hresolved⟩ := mergeSecrets_eq_none_iff.mp hmerge
      refine ⟨fun ha g a' hrely => .inr ⟨rfl, ⟨hvars, resolved, hresolve, hresolved⟩, ?_, rfl⟩⟩
      exact ha.of_beside lasting_endable hrely
    | some env =>
      have hwritable : ¬ Unwritable n o msg := by
        rintro ⟨hvars, resolved', hresolve', hresolved⟩
        obtain rfl := Except.ok.inj (hresolve.symm.trans hresolve')
        exact nomatch hmerge.symm.trans (mergeSecrets_eq_none_iff.mpr ⟨hvars, hresolved⟩)
      exact ⟨fun ha => (safe_runAssignment _ flags ha).mono fun r _ a h =>
        .inl ⟨h.1, hwritable, h.2⟩⟩

theorem meets_loadAssignment (a₀ : Agent) (flags : SlotFlags) :
    (loadAssignment n o msg flags).Meets (protocol silent .assignment)
      (fun _ a => a.bundleCache = a₀.bundleCache ∧ At Endable reqs a) fun r _ =>
        Executed (Panics n o msg a₀) reqs (warmRequests n o msg a₀) r := by
  unfold loadAssignment warmRequests
  rcases hkey : decide (trimSpace msg.artifactBundleKey = "") with _ | _
  · have hkey := of_decide_eq_false hkey
    dsimp only
    rw [if_neg hkey, if_neg hkey]
    refine (meets_loadBundle a₀ _).result_bind fun r => .of_pure fun hbundle => ?_
    rw [← hbundle]
    cases r with
    | error e =>
      refine meets_failAssignment ?_ _ _ _
      rintro ⟨⟨bundle, hfound⟩, -⟩
      exact nomatch hbundle.trans hfound
    | ok bundle =>
      have hpanics : Panics n o msg a₀ ↔ Unwritable n o msg :=
        and_iff_right ⟨bundle, hbundle.symm⟩
      rw [hpanics]
      exact meets_resolveAssignment bundle flags
  · have hkey := of_decide_eq_true hkey
    dsimp only
    rw [if_pos hkey, if_pos hkey]
    refine (meets_failAssignment ?_ _ _ _).of_imp fun _ _ h => h.2
    rintro ⟨⟨bundle, hfound⟩, -⟩
    rw [hkey] at hfound
    cases hfound

theorem safe_endAssignment {panics : Prop} {warm : List ExecuteRequest} {r : Except Err SlotFlags}
    (h : Executed panics reqs warm r a) :
    (endAssignment n msg r).Safe (protocol silent .assignment)
      (fun r _ => Executed panics reqs warm r) () a := by
  obtain ⟨⟨flags, rfl⟩, hpanics, hend⟩ | ⟨rfl, hpanics, hopen, hwarm⟩ := h
  · exact (safe_deferredRelease flags lasting_over hend).mono fun r _ a h =>
      .inl ⟨h.1, hpanics, h.2⟩
  · refine safe_then (safe_deferredRelease {} lasting_endable hopen) fun _ a ha g a' hrely => ?_
    exact .inr ⟨rfl, hpanics, ha.of_beside lasting_endable hrely, hwarm⟩

/-- What a whole assignment sends. -/
theorem meets_executeAssignment (n : Node) (o : Outside) (msg : Assignment) (a₀ : Agent) :
    (executeAssignment n o msg).Meets (protocol silent .assignment)
      (fun _ a => a.bundleCache = a₀.bundleCache ∧ At Endable reqs a) fun r _ =>
        Executed (Panics n o msg a₀) reqs (warmRequests n o msg a₀) r := by
  -- the slot and the first update, after which the cache is as it was
  have hreserve : (reserveAssignmentSlots msg.networkPolicy).Meets (protocol silent .assignment)
      (fun _ a => a.bundleCache = a₀.bundleCache ∧ At Endable reqs a)
      fun r _ a => (∃ x, r = .ok x) ∧ (a.bundleCache = a₀.bundleCache ∧ At Endable reqs a) := by
    refine ⟨fun {g a} h g a₁ h₁ => ?_⟩
    have hbeside : At Endable reqs a₁ := h.2.of_beside lasting_endable h₁
    have ha₁ : At Endable reqs (a₁.reserved msg.networkPolicy) := hbeside
    refine ⟨fun _ => ⟨(), ⟨rfl, nofun, id, id⟩, fun g a₂ h₂ => ⟨⟨(), rfl⟩, ?_⟩⟩, nofun⟩
    exact ⟨h₂.bundleCache.trans (h₁.bundleCache.trans h.1), ha₁.of_beside lasting_endable h₂⟩
  have hstarting : (emitUpdate n msg .starting [] [] "" 0).Meets (protocol silent .assignment)
      (fun _ a => a.bundleCache = a₀.bundleCache ∧ At Endable reqs a)
      fun r _ a => (∃ x, r = .ok x) ∧ (a.bundleCache = a₀.bundleCache ∧ At Endable reqs a) := by
    refine ⟨fun {g a} h g a₁ h₁ => ?_⟩
    have ha₁ := h.2.of_beside lasting_endable h₁
    have hsent : At Endable reqs
        { a₁ with updates := a₁.updates ++ [newUpdate n msg .starting [] [] "" 0] } :=
      ⟨⟨ha₁.1.1.append (open_singleton rfl), ha₁.1.2⟩, ha₁.2⟩
    refine ⟨fun _ => ⟨(), reports_sendUpdate rfl ha₁.1.1, fun g a₂ h₂ => ⟨⟨(), rfl⟩, ?_⟩⟩, nofun⟩
    exact ⟨h₂.bundleCache.trans (h₁.bundleCache.trans h.1), hsent.of_beside lasting_endable h₂⟩
  exact hreserve.then fun _ => hstarting.then fun _ =>
    (meets_loadAssignment a₀ {}).result_bind fun r => ⟨fun h => safe_endAssignment h⟩

end Safe

/-! ## Runs -/

/-- The heartbeats have picked a tick and not reported it yet. -/
def Waiting (c : Pool Goroutine AgentCall Agent Err Unit) : Prop :=
  ∃ u eff next fail, c.progs .heartbeats = .call (.sendUpdate u) eff next fail

/-- The next `select` of the heartbeats picks the ticker. -/
def PicksTick (c : Pool Goroutine AgentCall Agent Err Unit) : Prop :=
  ∃ eff next fail, c.progs .heartbeats = .call (.select .tick) eff next fail

/-- **The condition on the ticks**: those that are picked before `stopRunningHeartbeats` are also
reported before it, and none is picked after it. -/
structure TicksInTime (c : Pool Goroutine AgentCall Agent Err Unit) (m : Pool.Move Goroutine Err) :
    Prop where
  before : c.state.stopped = false → (c.step m).state.stopped = true → ¬ Waiting c
  after : c.state.stopped = true → m = .run .heartbeats → ¬ PicksTick c

/-- The heartbeats send an update only while none has ended the assignment. -/
def Silent (c : Pool Goroutine AgentCall Agent Err Unit) (m : Pool.Move Goroutine Err) : Prop :=
  m = .run .heartbeats → Waiting c → Open c.state.updates

variable {c : Pool Goroutine AgentCall Agent Err Unit}

section Runs

variable {n : Node} {o : Outside} {msg : Assignment} {turns : List Select}

/-- What each goroutine has done when it returns. -/
def Done (n : Node) (o : Outside) (msg : Assignment) (a : Agent) :
    Goroutine → Except Err Unit → Unit → Agent → Prop
  | .assignment, r, _, a' =>
    Executed (Panics n o msg a) a.prepared (warmRequests n o msg a) r a'
  | _, _, _, _ => True

/-- All goroutines keep to their protocols, and with `silent` the updates are settled. -/
abbrev Proceeds (silent : Prop) (n : Node) (o : Outside) (msg : Assignment) (a : Agent) :
    Pool Goroutine AgentCall Agent Err Unit → Prop :=
  Pool.AllSafe (protocol silent) (Done n o msg a) fun _ a _ => Kept silent a

theorem proceeds_start (silent : Prop) (ha : Idle a) :
    Proceeds silent n o msg a (.start a (goroutine n o msg turns)) := by
  have hopen : Open a.updates := by
    rw [ha.updates]
    simp [Open]
  refine ⟨(), ⟨fun _ => hopen.settled, .inl hopen⟩, fun i => ?_⟩
  cases i with
  | assignment =>
    exact (meets_executeAssignment n o msg a).safe ⟨rfl, ⟨hopen, .inr ha.beating⟩, rfl⟩
  | heartbeats => exact safe_heartbeats silent n msg turns a
  | caller => exact safe_caller silent a

theorem admits_protocol {silent : Prop} {i : Goroutine} (h : silent → Silent c (.run i)) :
    Pool.Admits (protocol silent) c (.run i) := by
  intro l eff next fail hprog
  cases i with
  | assignment => trivial
  | heartbeats =>
    rintro hsilent u rfl
    exact h hsilent rfl ⟨u, eff, next, fail, hprog⟩
  | caller => trivial

/-- How far every schedule has come. -/
theorem proceeds_run (silent : Prop) (ha : Idle a) (schedule : List Goroutine)
    (h : silent → Pool.system.EveryStep Silent (.start a (goroutine n o msg turns))
      (schedule.map .run)) :
    Proceeds silent n o msg a (run n o msg turns a schedule) := by
  refine Pool.exec_safe (compatible_protocol silent) (keeping_kept silent)
    (proceeds_start silent ha) ?_
  generalize (Pool.start a (goroutine n o msg turns)) = c at h
  induction schedule generalizing c with
  | nil => trivial
  | cons i schedule ih =>
    exact ⟨admits_protocol fun hsilent => (h hsilent).1, ih _ fun hsilent => (h hsilent).2⟩

/-- Where the goroutine of the heartbeats is: at the head of its loop, or at the report of a tick
that it picked; then the heartbeats are running. -/
def Beating (n : Node) (msg : Assignment) (c : Pool Goroutine AgentCall Agent Err Unit) : Prop :=
  (∃ turns, c.progs .heartbeats = assignmentHeartbeatLoop n msg turns) ∨
    (∃ turns, c.progs .heartbeats =
      emitRunning n msg >>= fun _ => assignmentHeartbeatLoop n msg turns) ∧
      c.state.beating = true ∧ c.state.stopped = false

theorem not_waiting_loop (h : c.progs .heartbeats = assignmentHeartbeatLoop n msg turns) :
    ¬ Waiting c := by
  rintro ⟨u, eff, next, fail, hprog⟩
  rw [h] at hprog
  cases turns with
  | nil => cases hprog
  | cons turn turns => cases turn <;> cases hprog

/-- A turn of the heartbeats. -/
theorem Beating.step_heartbeats (h : Beating n msg c) (hticks : TicksInTime c (.run .heartbeats)) :
    Beating n msg (c.step (.run .heartbeats)) := by
  obtain ⟨turns, hprog⟩ | ⟨⟨turns, hprog⟩, -⟩ := h
  · cases turns with
    | nil =>
      rw [Pool.step_run_of_ret hprog]
      exact .inl ⟨[], hprog⟩
    | cons turn turns =>
      cases turn with
      | done =>
        have hnext := Pool.progs_step_run hprog
        dsimp only at hnext
        cases hdone : c.state.beating && c.state.runDone with
        | true => exact .inl ⟨[], by rw [hnext, hdone]; rfl⟩
        | false => exact .inl ⟨turns, by rw [hnext, hdone]; rfl⟩
      | tick =>
        have hnext := Pool.progs_step_run hprog
        dsimp only at hnext
        have hstate : (c.step (.run .heartbeats)).state = c.state := by
          rw [Pool.step_run hprog]
          rfl
        cases hbeating : c.state.beating with
        | true =>
          have hrunning : c.state.stopped = false := by
            by_contra hstopped
            exact hticks.after (Bool.eq_true_of_not_eq_false hstopped) rfl ⟨_, _, _, hprog⟩
          refine .inr ⟨⟨turns, by rw [hnext, hbeating]; rfl⟩, ?_⟩
          rw [hstate]
          exact ⟨hbeating, hrunning⟩
        | false => exact .inl ⟨turns, by rw [hnext, hbeating]; rfl⟩
  · exact .inl ⟨turns, Pool.progs_step_run hprog⟩

/-- A call of another goroutine. The heartbeats are not stopped while a tick waits. -/
theorem Beating.step_of_ne {i : Goroutine} (hi : i ≠ .heartbeats) (hc : Proceeds False n o msg a c)
    (h : Beating n msg c) (hticks : TicksInTime c (.run i)) : Beating n msg (c.step (.run i)) := by
  have hsame : (c.step (.run i)).progs .heartbeats = c.progs .heartbeats :=
    Pool.progs_step_of_ne (Ne.symm hi)
  obtain ⟨turns, hprog⟩ | ⟨⟨turns, hprog⟩, hbeating, hstopped⟩ := h
  · exact .inl ⟨turns, hsame.trans hprog⟩
  · refine .inr ⟨⟨turns, hsame.trans hprog⟩, ?_, ?_⟩
    · obtain ⟨hstate, -⟩ | ⟨k, l, g, g', -, -, hguar, -⟩ :=
        hc.step_cases (compatible_protocol False) (keeping_kept False) (admits_protocol nofun)
      · rw [hstate]
        exact hbeating
      · cases k with
        | assignment => exact hguar.beating hbeating
        | heartbeats => exact hguar.2.1.beating.trans hbeating
        | caller => exact hguar.2.1.beating.trans hbeating
    · by_contra hstop
      exact hticks.before hstopped (Bool.eq_true_of_not_eq_false hstop) ⟨_, _, _, _, hprog⟩

/-- Heartbeats whose ticks are in time are silent once the assignment has ended: it ends only after
it has stopped them. -/
theorem silent_of_ticksInTime (hc : Proceeds False n o msg a c) (hbeating : Beating n msg c)
    {schedule : List Goroutine} (hticks : Pool.system.EveryStep TicksInTime c (schedule.map .run)) :
    Pool.system.EveryStep Silent c (schedule.map .run) := by
  induction schedule generalizing c with
  | nil => trivial
  | cons i schedule ih =>
    refine ⟨fun hi hwaiting => ?_, ih ?_ ?_ hticks.2⟩
    · obtain ⟨turns, hprog⟩ | ⟨-, hrunning, hstopped⟩ := hbeating
      · exact absurd hwaiting (not_waiting_loop hprog)
      · obtain ⟨g, ⟨-, hcalm⟩, -⟩ := hc
        obtain hopen | hquiet | hquiet := hcalm
        · exact hopen
        · exact nomatch hstopped.symm.trans hquiet
        · exact nomatch hrunning.symm.trans hquiet
    · exact hc.step (compatible_protocol False) (keeping_kept False) (admits_protocol nofun)
    · cases i with
      | heartbeats => exact hbeating.step_heartbeats hticks.1
      | assignment => exact hbeating.step_of_ne nofun hc hticks.1
      | caller => exact hbeating.step_of_ne nofun hc hticks.1

theorem executed_of_ret {silent : Prop} {schedule : List Goroutine} {r : Except Err Unit}
    (h : Proceeds silent n o msg a (run n o msg turns a schedule))
    (hret : (run n o msg turns a schedule).progs .assignment = .ret r) :
    Executed (Panics n o msg a) a.prepared (warmRequests n o msg a) r
      (run n o msg turns a schedule).state := by
  obtain ⟨g, -, hsafe⟩ := h
  have hassignment := hsafe .assignment
  rw [hret] at hassignment
  exact hassignment.ret_post

/-- **The terminal update is the last word** of an assignment whose ticks are in time, exactly when
`executeAssignment` does not panic. In every schedule in which a tick that was picked before
`stopRunningHeartbeats` is also reported before it, and none is picked after it: once
`executeAssignment` has returned, the updates are non-terminal ones followed by exactly one terminal
update and nothing after it, unless the bundle was found and there were secrets to write to the nil
map of an assignment without variables. -/
theorem terminal_last_iff (n : Node) (o : Outside) (msg : Assignment) (turns : List Select)
    {a : Agent} (ha : Idle a) (schedule : List Goroutine)
    (hticks : Pool.system.EveryStep TicksInTime (.start a (goroutine n o msg turns))
      (schedule.map .run)) {r : Except Err Unit}
    (hret : (run n o msg turns a schedule).progs .assignment = .ret r) :
    TerminalLast (run n o msg turns a schedule).state.updates ↔ ¬ Panics n o msg a := by
  have hsilent : Pool.system.EveryStep Silent (.start a (goroutine n o msg turns))
      (schedule.map .run) :=
    silent_of_ticksInTime (proceeds_start False ha) (.inl ⟨turns, rfl⟩) hticks
  have hproceeds : Proceeds True n o msg a (run n o msg turns a schedule) :=
    proceeds_run True ha schedule fun _ => hsilent
  obtain ⟨-, hpanics, hover⟩ | ⟨-, hpanics, hopen, -⟩ := executed_of_ret hproceeds hret
  · obtain ⟨g, ⟨hsettled, -⟩, -⟩ := hproceeds
    exact iff_of_true (hover.1.terminalLast_iff.mpr (hsettled trivial)) hpanics
  · exact iff_of_false hopen.1.1.not_terminalLast (not_not_intro hpanics)

end Runs

namespace Sample

def node : Node where
  hostID := "host"
  region := "region"
  driverName := "driver"
  maxSlots := 1
  maxFullNetwork := 1
  warmer := true
  inventoryForSlots := none
  inventory := none

def outside (secrets : Env) (err : Option Err) : Outside where
  getObject _ := .ok [1]
  resolveExecution _ := .ok secrets
  execute _ :=
    { result := some { exitCode := 0, logs := "", output := [], platformTrace := "" }, err }
  marshal _ := []
  bundleLoadMs := 0
  secretsLoadMs := 0
  driverExecuteMs := 0

def assignment (envVars : List (String × String)) : Assignment :=
  { DomainSample.assignment with envVars, envRefs := ["secret"] }

def inTime : List Goroutine :=
  .replicate 6 .assignment ++ [.heartbeats, .heartbeats] ++ .replicate 8 .assignment ++
    [.heartbeats]

def late : List Goroutine :=
  .replicate 6 .assignment ++ [.heartbeats] ++ .replicate 13 .assignment ++ [.heartbeats]

end Sample

section Examples

open Sample

theorem idle_new (n : Node) : Idle (.new n) := ⟨rfl, rfl, rfl⟩

theorem terminal_last_iff_sample :
    TerminalLast (run node (outside ∅ (some (.other "exit"))) (assignment [("NAME", "value")])
      [.tick, .done] (.new node) inTime).state.updates := by
  have hret : (run node (outside ∅ (some (.other "exit"))) (assignment [("NAME", "value")])
      [.tick, .done] (.new node) inTime).progs .assignment = .ret (.ok ()) :=
    Prog.eq_ret_of_result? (by decide +kernel)
  refine (terminal_last_iff _ _ _ _ (idle_new node) _ ?_ hret).mpr fun h => ?_
  · refine ⟨⟨?_, ?_⟩, ⟨?_, ?_⟩, ⟨?_, ?_⟩, ⟨?_, ?_⟩, ⟨?_, ?_⟩, ⟨?_, ?_⟩, ⟨?_, ?_⟩, ⟨?_, ?_⟩,
      ⟨?_, ?_⟩, ⟨?_, ?_⟩, ⟨?_, ?_⟩, ⟨?_, ?_⟩, ⟨?_, ?_⟩, ⟨?_, ?_⟩, ⟨?_, ?_⟩, ⟨?_, ?_⟩, ⟨?_, ?_⟩,
      trivial⟩
    -- the flag is not set, another goroutine moves, or the heartbeats are at another call
    all_goals
      intro hstopped hmove
      first
      | cases hstopped; done
      | cases hmove; done
      | rintro ⟨u, eff, next, fail, ⟨⟩⟩
  · exact List.cons_ne_nil _ _ h.2.1

/-- The terminal update need not be the last one: a tick that was picked before the context was
cancelled is reported after it. And without a tick there need not be one at all: secrets that are
written to a nil map end the agent. -/
theorem not_terminal_last :
    (¬ ∀ (n : Node) (o : Outside) (msg : Assignment) (turns : List Select) (a : Agent)
        (schedule : List Goroutine) (r : Except Err Unit), ¬ Unwritable n o msg → Idle a →
        (run n o msg turns a schedule).progs .assignment = .ret r →
        TerminalLast (run n o msg turns a schedule).state.updates) ∧
    ¬ ∀ (n : Node) (o : Outside) (msg : Assignment) (a : Agent) (schedule : List Goroutine)
        (r : Except Err Unit), Idle a → (run n o msg [] a schedule).progs .assignment = .ret r →
        TerminalLast (run n o msg [] a schedule).state.updates := by
  constructor
  · intro h
    have hrun : ((run node (outside ∅ none) (assignment [("NAME", "value")]) [.tick] (.new node)
          late).progs .assignment).result? = some (.ok ()) ∧
        ¬ TerminalLast (run node (outside ∅ none) (assignment [("NAME", "value")]) [.tick]
          (.new node) late).state.updates := by
      decide +kernel
    exact hrun.2 (h _ _ _ _ _ _ _ (fun h => List.cons_ne_nil _ _ h.1) (idle_new node)
      (Prog.eq_ret_of_result? hrun.1))
  · intro h
    let secrets : Env := .ofList [("SECRET", "value")]
    have hrun : ((run node (outside secrets none) (assignment []) [] (.new node)
          (.replicate 5 .assignment)).progs .assignment).result? =
            some (.error assignmentToNilMap) ∧
        ¬ TerminalLast (run node (outside secrets none) (assignment []) [] (.new node)
          (.replicate 5 .assignment)).state.updates := by
      decide +kernel
    exact hrun.2 (h _ _ _ _ _ _ (idle_new node) (Prog.eq_ret_of_result? hrun.1))

end Examples

end Lecrev.NodeAgent
