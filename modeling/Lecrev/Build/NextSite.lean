import Lecrev.Concurrency.Transition
import Mathlib.Data.Int.Notation
import Mathlib.Logic.Function.Basic
import Mathlib.Tactic.Common

/-!
# The handler of a Next.js site

A website is deployed with the handler `nextSiteHandlerScript` of `internal/build`, which proxies
requests to a child process that runs the standalone server of the site. The child is spawned by the
first request. A request whose proxying fails kills the child, if that is still the one in use, and
tries once more.

The script runs on an event loop, and a step of the model is what runs without an `await`. Requests
overlap in any order, a boot may fail before or after its child was spawned, proxying may fail for
any reason, and a child may end at any time, also between the end of its process and the `exit`
event. A boot that fails does not kill its child, so that one may live on. -/

namespace Lecrev.NextSite

/-! ## The handler -/

/-- A child process, as its owner sees it. -/
structure Child where
  spawned : Bool := false
  /-- The process has not ended. -/
  running : Bool := false
  /-- Set by the `exit` event, unless a signal has ended the process. -/
  exitCode : Option ℤ := none
  /-- `kill` has sent a signal. -/
  killed : Bool := false
  /-- The boot that spawned the child has failed. -/
  abandoned : Bool := false

/-- `childAlive` -/
def Child.alive (child : Child) : Bool := child.exitCode.isNone && !child.killed

/-- Where the function that makes a `bootPromise` is. -/
inductive BootPhase
  /-- It looks for a port and opens the log files. -/
  | port
  /-- It is in `waitUntilReady`. -/
  | waiting (child : ℕ)
  | ready (child : ℕ)
  | failed

/-- The promise has not been settled. -/
def BootPhase.pending : BootPhase → Bool
  | .port | .waiting _ => true
  | .ready _ | .failed => false

/-- A boot, with the request that has started it. -/
structure Boot where
  owner : ℕ := 0
  phase : BootPhase := .failed

/-- Where `proxyThroughNext` is. -/
inductive Phase
  | idle
  | awaiting (attempt boot : ℕ)
  | proxying (attempt child : ℕ)
  | returned
  | failed

/-- The variables of the script, with its requests, boots and children. -/
structure State where
  bootPromise : Option ℕ := none
  serverState : Option ℕ := none
  request : ℕ → Phase := fun _ => .idle
  boot : ℕ → Boot := fun _ => {}
  /-- How many boots have been started. -/
  boots : ℕ := 0
  child : ℕ → Child := fun _ => {}

namespace State

variable (s : State)

/-- Move a request to a phase. -/
def setRequest (r : ℕ) (phase : Phase) : State :=
  { s with request := Function.update s.request r phase }

/-- Move a boot to a phase. -/
def setBoot (b : ℕ) (phase : BootPhase) : State :=
  { s with boot := Function.update s.boot b { s.boot b with phase } }

/-- Change a child process. -/
def setChild (c : ℕ) (child : Child) : State :=
  { s with child := Function.update s.child c child }

/-- `serverState && childAlive(serverState.child)` -/
def server : Option ℕ := s.serverState.filter fun c => (s.child c).alive

/-- `child.kill('SIGKILL')`; a process that has ended gets no signal. -/
def kill (c : ℕ) : State :=
  s.setChild c { s.child c with killed := (s.child c).killed || (s.child c).running }

end State

/-- `ensureServer` up to its first `await`, in an attempt of a request. -/
def ensureServer (s : State) (r attempt : ℕ) : State :=
  match s.server, s.bootPromise with
  | some c, _ => s.setRequest r (.proxying attempt c)
  | none, some b => s.setRequest r (.awaiting attempt b)
  | none, none =>
    { s with
      bootPromise := some s.boots
      boot := Function.update s.boot s.boots { owner := r, phase := .port }
      boots := s.boots + 1
      request := Function.update s.request r (.awaiting attempt s.boots) }

/-- The end of the `await` of a promise: the request that has started the boot clears it. -/
def awaited (s : State) (r b : ℕ) : State :=
  if (s.boot b).owner = r then { s with bootPromise := none } else s

/-- What happens on the event loop. -/
inductive Label
  | request (r : ℕ)
  /-- A boot spawns a new child. -/
  | spawn (b c : ℕ)
  | ready (b : ℕ)
  | bootFails (b : ℕ)
  /-- A request goes on after its promise was settled. -/
  | resume (r : ℕ)
  | respond (r : ℕ)
  | proxyFails (r : ℕ)
  /-- The process of a child ends. -/
  | ends (c : ℕ)
  /-- The `exit` event of a child, with its exit code if it has one. -/
  | exit (c : ℕ) (exitCode : Option ℤ)

/-- The state after a step; nothing changes if the step is not possible. -/
def step (s : State) : Label → State
  | .request r =>
    match s.request r with
    | .idle => ensureServer s r 1
    | _ => s
  | .spawn b c =>
    match (s.boot b).phase, (s.child c).spawned with
    | .port, false => (s.setBoot b (.waiting c)).setChild c { spawned := true, running := true }
    | _, _ => s
  | .ready b =>
    match (s.boot b).phase with
    | .waiting c => { s.setBoot b (.ready c) with serverState := some c }
    | _ => s
  | .bootFails b =>
    match (s.boot b).phase with
    | .port => s.setBoot b .failed
    | .waiting c => (s.setBoot b .failed).setChild c { s.child c with abandoned := true }
    | _ => s
  | .resume r =>
    match s.request r with
    | .awaiting attempt b =>
      match (s.boot b).phase with
      | .ready c => (awaited s r b).setRequest r (.proxying attempt c)
      | .failed => (awaited s r b).setRequest r .failed
      | _ => s
    | _ => s
  | .respond r =>
    match s.request r with
    | .proxying _ _ => s.setRequest r .returned
    | _ => s
  | .proxyFails r =>
    match s.request r with
    | .proxying attempt c =>
      if attempt ≥ 2 then s.setRequest r .failed
      else if s.serverState = some c then
        ensureServer { s.kill c with serverState := none } r (attempt + 1)
      else ensureServer s r (attempt + 1)
    | _ => s
  | .ends c => s.setChild c { s.child c with running := false }
  | .exit c exitCode =>
    if (s.child c).running then s
    else
      { s.setChild c { s.child c with exitCode } with
        serverState := if s.serverState = some c then none else s.serverState }

/-- The handler as a transition system. -/
def handler : Transition.System State Label where
  step := step
  enabled _ _ := True

/-! ## One server -/

/-- The child runs and was not killed. -/
def Child.Current (child : Child) : Prop := child.running ∧ ¬ child.killed

/-- What holds in every state that is reached. -/
structure Inv (s : State) : Prop where
  /-- Only the boot of the promise is pending. -/
  promise : ∀ b, (s.boot b).phase.pending → s.bootPromise = some b
  /-- A promise is cleared by the request that has made it. -/
  owner : ∀ b attempt, s.request (s.boot b).owner = .awaiting attempt b → s.bootPromise = some b
  exited : ∀ c, (s.child c).exitCode.isSome → ¬ (s.child c).running
  server_spawned : ∀ c, s.serverState = some c → (s.child c).spawned
  waiting_spawned : ∀ b c, (s.boot b).phase = .waiting c → (s.child c).spawned
  /-- A boot is only started when the server has ended or was killed. -/
  exclusive : ∀ b c, (s.boot b).phase.pending → s.serverState = some c → ¬ (s.child c).Current
  current : ∀ c, (s.child c).Current → ¬ (s.child c).abandoned →
    s.serverState = some c ∨ ∃ b, (s.boot b).phase = .waiting c

theorem inv_initial : Inv {} := by
  constructor <;> simp [BootPhase.pending, Child.Current]

section Steps

variable {s : State}

theorem Inv.setRequest (h : Inv s) {r : ℕ} {phase : Phase}
    (hphase : ∀ attempt b, phase = .awaiting attempt b → s.bootPromise = some b) :
    Inv (s.setRequest r phase) := by
  refine { h with owner := fun b attempt hb => ?_ }
  by_cases hr : (s.boot b).owner = r
  · exact hphase attempt b (by simpa [State.setRequest, hr] using hb)
  · exact h.owner b attempt (by simpa [State.setRequest, hr] using hb)

theorem not_current_of_server (h : Inv s) (hserver : s.server = none) {c : ℕ}
    (hc : s.serverState = some c) : ¬ (s.child c).Current := by
  have halive : (s.child c).alive = false := by
    simpa [State.server, hc, Option.filter_some] using hserver
  have := h.exited c
  grind [Child.alive, Child.Current]

theorem Inv.ensureServer (h : Inv s) (r attempt : ℕ) : Inv (ensureServer s r attempt) := by
  unfold NextSite.ensureServer
  split
  · exact h.setRequest nofun
  · refine h.setRequest fun _ _ heq => ?_
    grind
  · next hserver _ =>
    have hended := fun c => not_current_of_server h hserver (c := c)
    cases h
    constructor <;> grind [BootPhase.pending, Function.update_apply]

theorem Inv.spawn (h : Inv s) {b c : ℕ} (hb : (s.boot b).phase = .port)
    (hc : (s.child c).spawned = false) :
    Inv ((s.setBoot b (.waiting c)).setChild c { spawned := true, running := true }) := by
  obtain ⟨hpromise, howner, hexited, hspawned, hwaiting, hexclusive, hcurrent⟩ := h
  unfold State.setBoot State.setChild
  -- no other boot is pending
  have hother (b' c' : ℕ) : (s.boot b').phase ≠ .waiting c' := by
    grind [BootPhase.pending]
  constructor
  case current =>
    intro c' hcurrent' hkept
    by_cases hc' : c' = c
    · exact .inr ⟨b, by simp [hc']⟩
    · simp only [Function.update_of_ne hc'] at hcurrent' hkept
      exact .inl ((hcurrent c' hcurrent' hkept).resolve_right fun ⟨b', hb'⟩ => hother b' c' hb')
  all_goals grind [BootPhase.pending, Function.update_apply]

theorem Inv.ready (h : Inv s) {b c : ℕ} (hb : (s.boot b).phase = .waiting c) :
    Inv { s.setBoot b (.ready c) with serverState := some c } := by
  cases h
  unfold State.setBoot
  constructor <;> grind [BootPhase.pending, Function.update_apply]

theorem Inv.bootFails (h : Inv s) (b : ℕ) : Inv (step s (.bootFails b)) := by
  simp only [step]
  split
  · cases h
    unfold State.setBoot
    constructor <;> grind [BootPhase.pending, Function.update_apply]
  · cases h
    unfold State.setBoot State.setChild
    constructor <;> grind [BootPhase.pending, Function.update_apply, Child.Current]
  · exact h

theorem Inv.awaited (h : Inv s) {r attempt b : ℕ} (hr : s.request r = .awaiting attempt b)
    (hb : (s.boot b).phase.pending = false) {phase : Phase}
    (hphase : ∀ attempt b, phase ≠ .awaiting attempt b) :
    Inv ((awaited s r b).setRequest r phase) := by
  unfold NextSite.awaited
  split_ifs with howns
  · obtain ⟨hpromise, howner, hexited, hspawned, hwaiting, hexclusive, hcurrent⟩ := h
    have := howner b attempt
    unfold State.setRequest
    constructor <;> grind [Function.update_apply]
  · exact h.setRequest fun _ _ heq => absurd heq (hphase _ _)

theorem Inv.kill (h : Inv s) {c : ℕ} (hc : s.serverState = some c) :
    Inv { s.kill c with serverState := none } := by
  cases h
  unfold State.kill State.setChild
  constructor <;> grind [Function.update_apply, Child.Current]

/-- Every event keeps the invariant. -/
theorem Inv.step (h : Inv s) (l : Label) : Inv (step s l) := by
  cases l with
  | request r =>
    simp only [NextSite.step]
    split
    · exact h.ensureServer r 1
    · exact h
  | spawn b c =>
    simp only [NextSite.step]
    split
    · next hb hc => exact h.spawn hb hc
    · exact h
  | ready b =>
    simp only [NextSite.step]
    split
    · next hb => exact h.ready hb
    · exact h
  | bootFails b => exact h.bootFails b
  | resume r =>
    simp only [NextSite.step]
    split
    · next hr =>
      split
      · next hb => exact h.awaited hr (by simp [hb, BootPhase.pending]) nofun
      · next hb => exact h.awaited hr (by simp [hb, BootPhase.pending]) nofun
      · exact h
    · exact h
  | respond r =>
    simp only [NextSite.step]
    split
    · exact h.setRequest nofun
    · exact h
  | proxyFails r =>
    simp only [NextSite.step]
    split
    · split_ifs with _ hc
      · exact h.setRequest nofun
      · exact (h.kill hc).ensureServer r _
      · exact h.ensureServer r _
    · exact h
  | ends c =>
    cases h
    simp only [NextSite.step, State.setChild]
    constructor <;> grind [Function.update_apply, Child.Current]
  | exit c exitCode =>
    simp only [NextSite.step]
    split_ifs
    · exact h
    all_goals
      cases h
      unfold State.setChild
      constructor <;> grind [Function.update_apply, Child.Current]

end Steps

/-- **One server.** In every run of any number of requests, at most one boot is under way. At most
one child is running that was not killed and whose boot has not failed, however the requests, the
boots, the failures of the proxying and the ends of children overlap. -/
theorem one_server (ls : List Label) :
    let s := handler.exec {} ls
    (∀ b b', (s.boot b).phase.pending → (s.boot b').phase.pending → b = b') ∧
      ∀ c c', (s.child c).Current → ¬ (s.child c).abandoned →
        (s.child c').Current → ¬ (s.child c').abandoned → c = c' := by
  intro s
  have hs : Inv s := handler.exec_invariant ls inv_initial fun _ l h => h.step l
  have hboot (b b' : ℕ) (h : (s.boot b).phase.pending) (h' : (s.boot b').phase.pending) :
      b = b' :=
    Option.some.inj ((hs.promise b h).symm.trans (hs.promise b' h'))
  have hpending {b c : ℕ} (h : (s.boot b).phase = .waiting c) : (s.boot b).phase.pending := by
    simp [h, BootPhase.pending]
  refine ⟨hboot, fun c c' hc hkept hc' hkept' => ?_⟩
  rcases hs.current c hc hkept with h | ⟨b, h⟩ <;>
    rcases hs.current c' hc' hkept' with h' | ⟨b', h'⟩
  · exact Option.some.inj (h.symm.trans h')
  · exact absurd hc (hs.exclusive b' c (hpending h') h)
  · exact absurd hc' (hs.exclusive b c' (hpending h) h')
  · obtain rfl := hboot b b' (hpending h) (hpending h')
    exact BootPhase.waiting.inj (h.symm.trans h')

-- two requests share a boot; the first one finds the child dead and boots another one
example : (handler.exec {} [.request 0, .request 1, .spawn 0 0, .ready 0, .resume 0, .resume 1,
    .ends 0, .proxyFails 0, .spawn 1 1, .exit 0 none, .ready 1]).serverState = some 1 := by decide

end Lecrev.NextSite
