import Lecrev.Http.Response
import Lecrev.ToMathlib.Framing

/-!
# The prepared worker

The script of a prepared worker in `internal/runtime/nodeexec` reads requests from a socket. It cuts
the text at newlines as it arrives, and appends each request to a chain of promises, so that a
request is handled after the one before it.
-/

namespace Lecrev.Nodeexec

open Transition Framing Http

/-! ## Requests -/

/-- A text on the socket. -/
abbrev Text := List Char

/-- The characters that `trim` removes. -/
def isTrimmed (c : Char) : Bool :=
  c.val ∈ ([9, 10, 11, 12, 13, 32, 0xA0, 0x1680, 0x2028, 0x2029, 0x202F, 0x205F, 0x3000,
    0xFEFF] : List UInt32) ∨ 0x2000 ≤ c.val ∧ c.val ≤ 0x200A

/-- `text.trim() === ''`. -/
def isBlank (text : Text) : Bool := text.all isTrimmed

mutual

/-- `String(value)` returns. An object is converted by its method `toString`, which a field of that
name hides; an array by converting its items. -/
def isConvertible : Json → Bool
  | .obj fields => (fields.lookup "toString").isNone
  | .arr items => areConvertible items
  | _ => true

/-- All items can be converted. -/
def areConvertible : List Json → Bool
  | [] => true
  | item :: items => isConvertible item && areConvertible items

end

/-- `applyEnv(env)` throws, for the field `env` of a request. -/
def applyEnvThrows : Option Json → Bool
  | some (.obj fields) => !areConvertible (fields.map Prod.snd)
  | some (.arr items) => !areConvertible items
  | _ => false

/-- How the handling of a request goes on once it has begun. -/
inductive Handling
  /-- It returns whether to close. -/
  | returns (shouldClose : Bool)
  | throws
  /-- It waits for the handler of the function. -/
  | awaits
  deriving DecidableEq, Repr

/-- `handleRequest`, up to what it writes. -/
def handleRequest : Json → Handling
  -- `null` has no field `type`
  | .null => .throws
  | request =>
    match request.field? "type" with
    | some (.str "ping") => .returns false
    | some (.str "shutdown") => .returns true
    | some (.str "invoke") => if applyEnvThrows (request.field? "env") then .throws else .awaits
    | _ => .returns false

/-- The callback that `enqueue` appends to the chain, when it is not to close; `parse` is
`JSON.parse`. -/
def handleRaw (parse : Text → Option Json) (rawRequest : Text) : Handling :=
  if isBlank rawRequest then handleRequest (.obj [("type", .str "ping")])
  else
    match parse rawRequest with
    | none => .returns false
    | some request => handleRequest request

/-! ## The socket -/

/-- How a promise of the chain has settled. -/
inductive Status
  | fulfilled (shouldClose : Bool)
  | rejected
  deriving DecidableEq, Repr

/-- How the promise settles at once; nothing while it waits. -/
def Handling.outcome : Handling → Option Status
  | .returns shouldClose => some (.fulfilled shouldClose)
  | .throws => some .rejected
  | .awaits => none

/-- What is seen of the handling of a request. -/
inductive Event
  | begins (rawRequest : Text)
  | ends (rawRequest : Text)
  deriving DecidableEq, Repr

/-- A connection of the worker. -/
structure Socket where
  raw : Text := []
  ended : Bool := false
  /-- The requests that were passed to `enqueue`, in their order. -/
  enqueued : List Text := []
  /-- How many promises of the chain have settled. -/
  settled : ℕ := 0
  /-- How the last of them has settled. -/
  status : Status := .fulfilled false
  /-- The callback of the next promise waits for the handler of the function. -/
  running : Bool := false
  events : List Event := []
  deriving DecidableEq, Repr

/-- The loop of the `data` callback: the requests that it passes to `enqueue`, and the rest. -/
def drain (raw : Text) : List Text × Text :=
  if _ : '\n' ∈ raw then
    let newlineIndex := raw.idxOf '\n'
    let (requests, rest) := drain (raw.drop (newlineIndex + 1))
    (raw.take newlineIndex :: requests, rest)
  else ([], raw)
  termination_by raw.length
  decreasing_by
    have hlt := List.idxOf_lt_length_of_mem ‹ '\n' ∈ raw›
    rw [List.length_drop]
    omega

/-- The steps on a socket. -/
inductive Label
  /-- The event `data`. -/
  | data (chunk : Text)
  /-- The event `end`. -/
  | end
  /-- The next promise of the chain takes up the result of the one before. -/
  | react
  /-- The promise of the handler settles. Its own `catch` may throw in turn, where the error has no
  text. -/
  | settle (rejects : Bool)
  deriving DecidableEq, Repr

/-- The socket after a step; nothing if the step is not possible. Nothing handles a rejection of the
chain, so that `node` exits after it: there the steps go on for longer than the worker does. -/
def next (parse : Text → Option Json) (s : Socket) : Label → Option Socket
  | .data chunk =>
    if s.ended then none
    else
      let (requests, raw) := drain (s.raw ++ chunk)
      some { s with enqueued := s.enqueued ++ requests, raw }
  | .end =>
    if s.ended then none
    else if isBlank s.raw then some { s with ended := true }
    else some { s with ended := true, enqueued := s.enqueued ++ [s.raw], raw := [] }
  | .react =>
    if s.running then none
    else do
      let rawRequest ← s.enqueued[s.settled]?
      match s.status with
      | .rejected | .fulfilled true => some { s with settled := s.settled + 1 }
      | .fulfilled false =>
        match (handleRaw parse rawRequest).outcome with
        | none => some { s with running := true, events := s.events ++ [.begins rawRequest] }
        | some status =>
          some { s with
            settled := s.settled + 1
            status
            events := s.events ++ [.begins rawRequest, .ends rawRequest] }
  | .settle rejects =>
    if s.running then do
      let rawRequest ← s.enqueued[s.settled]?
      some { s with
        settled := s.settled + 1
        status := if rejects then .rejected else .fulfilled false
        running := false
        events := s.events ++ [.ends rawRequest] }
    else none

/-- The worker as a transition system. -/
def worker (parse : Text → Option Json) : System Socket Label where
  step s l := (next parse s l).getD s
  enabled s l := (next parse s l).isSome

instance (parse : Text → Option Json) (s : Socket) (l : Label) :
    Decidable ((worker parse).enabled s l) :=
  inferInstanceAs (Decidable (_ = true))

/-- The requests of a text: the lines that are ended by a newline, and the rest unless it is
blank. -/
def requestsOf (text : Text) : List Text :=
  let parts := text.splitOn '\n'
  parts.dropLast ++ parts.getLast?.toList.filter fun rest => !isBlank rest

theorem drain_append_newline {line : Text} (hline : '\n' ∉ line) (later : Text) :
    drain (line ++ '\n' :: later) = (line :: (drain later).1, (drain later).2) := by
  have hindex : (line ++ '\n' :: later).idxOf '\n' = line.length := by
    rw [List.idxOf_append_of_notMem hline, List.idxOf_cons_self, Nat.add_zero]
  have hdrop : (line ++ '\n' :: later).drop (line.length + 1) = later := by
    rw [List.drop_append, List.drop_eq_nil_of_le (Nat.le_succ _)]
    simp
  rw [drain, dif_pos (List.mem_append_right _ List.mem_cons_self), hindex]
  dsimp only
  rw [hdrop, List.take_left]

theorem splits_drain (raw : Text) : Splits '\n' raw (drain raw).1 (drain raw).2 := by
  induction h : raw.length using Nat.strong_induction_on generalizing raw with
  | _ n ih =>
    by_cases hmem : '\n' ∈ raw
    · obtain ⟨line, later, rfl, hline⟩ := List.eq_append_cons_of_mem hmem
      rw [drain_append_newline hline]
      refine .cons hline (ih later.length ?_ later rfl)
      rw [← h, List.length_append, List.length_cons]
      omega
    · rw [drain, dif_neg hmem]
      exact .of_notMem hmem

theorem requestsOf_of_splits {text rest : Text} {lines : List Text}
    (h : Splits '\n' text lines rest) :
    requestsOf text = lines ++ if isBlank rest then [] else [rest] := by
  unfold requestsOf
  dsimp only
  rw [h.splitOn_eq, List.dropLast_concat, List.getLast?_concat, Option.toList_some,
    List.filter_cons]
  cases isBlank rest <;> rfl

/-! ## Steps -/

/-- What a step does. -/
inductive Does (parse : Text → Option Json) (s : Socket) : Label → Socket → Prop
  | data (hopen : s.ended = false) (chunk : Text) :
      Does parse s (.data chunk) { s with
        enqueued := s.enqueued ++ (drain (s.raw ++ chunk)).1
        raw := (drain (s.raw ++ chunk)).2 }
  | finish (hopen : s.ended = false) (raw : Text) :
      Does parse s .end { s with
        ended := true
        enqueued := s.enqueued ++ if isBlank s.raw then [] else [s.raw]
        raw }
  | skip (hidle : s.running = false) {rawRequest : Text}
      (hget : s.enqueued[s.settled]? = some rawRequest) (hstatus : s.status ≠ .fulfilled false) :
      Does parse s .react { s with settled := s.settled + 1 }
  | await (hidle : s.running = false) {rawRequest : Text}
      (hget : s.enqueued[s.settled]? = some rawRequest) (hstatus : s.status = .fulfilled false)
      (houtcome : (handleRaw parse rawRequest).outcome = none) :
      Does parse s .react { s with
        running := true
        events := s.events ++ [.begins rawRequest] }
  | handle (hidle : s.running = false) {rawRequest : Text}
      (hget : s.enqueued[s.settled]? = some rawRequest) (hstatus : s.status = .fulfilled false)
      {status : Status} (houtcome : (handleRaw parse rawRequest).outcome = some status) :
      Does parse s .react { s with
        settled := s.settled + 1
        status
        events := s.events ++ [.begins rawRequest, .ends rawRequest] }
  | settle (hrunning : s.running = true) {rawRequest : Text}
      (hget : s.enqueued[s.settled]? = some rawRequest) (rejects : Bool) :
      Does parse s (.settle rejects) { s with
        settled := s.settled + 1
        status := if rejects then .rejected else .fulfilled false
        running := false
        events := s.events ++ [.ends rawRequest] }

/-- What a step of the socket can do. -/
theorem does_of_next {parse : Text → Option Json} {s s' : Socket} {l : Label}
    (h : next parse s l = some s') : Does parse s l s' := by
  cases l with
  | data chunk =>
    dsimp only [next] at h
    split_ifs at h with hopen
    cases h
    exact .data (Bool.eq_false_iff.mpr hopen) chunk
  | «end» =>
    dsimp only [next] at h
    split_ifs at h with hopen hblank
    · cases h
      have hdoes : Does parse s .end _ := .finish (Bool.eq_false_iff.mpr hopen) s.raw
      rw [if_pos hblank, List.append_nil] at hdoes
      exact hdoes
    · cases h
      have hdoes : Does parse s .end _ := .finish (Bool.eq_false_iff.mpr hopen) []
      rw [if_neg hblank] at hdoes
      exact hdoes
  | react =>
    dsimp only [next] at h
    split_ifs at h with hrunning
    have hidle := Bool.eq_false_iff.mpr hrunning
    obtain ⟨rawRequest, hget, h⟩ := Option.bind_eq_some_iff.mp h
    by_cases hstatus : s.status = .fulfilled false
    · rw [hstatus] at h
      dsimp only at h
      cases houtcome : (handleRaw parse rawRequest).outcome with
      | none =>
        have hdoes := Does.await hidle hget hstatus houtcome
        rw [houtcome] at h
        cases h
        rwa [hstatus] at hdoes
      | some status =>
        rw [houtcome] at h
        cases h
        exact .handle hidle hget hstatus houtcome
    · have hskip : some { s with settled := s.settled + 1 } = some s' := by
        rw [← h]
        cases hcase : s.status with
        | rejected => rfl
        | fulfilled shouldClose =>
          cases shouldClose with
          | true => rfl
          | false => exact absurd hcase hstatus
      cases hskip
      exact .skip hidle hget hstatus
  | settle rejects =>
    dsimp only [next] at h
    by_cases hrunning : s.running = true
    · rw [if_pos hrunning] at h
      obtain ⟨rawRequest, hget, h⟩ := Option.bind_eq_some_iff.mp h
      cases h
      exact .settle hrunning hget rejects
    · rw [if_neg hrunning] at h
      cases h

/-- The chunk of a step. -/
def Label.chunk : Label → Text
  | .data chunk => chunk
  | _ => []

/-- The requests that were cut off so far are those of the text so far. -/
structure Framed (text : Text) (s : Socket) : Prop where
  requests : s.ended = false → Splits '\n' text s.enqueued s.raw
  all : s.ended = true → s.enqueued = requestsOf text

section Run

variable {parse : Text → Option Json} {s s' : Socket} {l : Label} {text : Text}

/-- Every step keeps the framing. -/
theorem Framed.step (hs : Framed text s) (h : Does parse s l s') : Framed (text ++ l.chunk) s' := by
  cases h with
  | data hopen chunk =>
    refine ⟨fun _ => (hs.requests hopen).append (splits_drain _), fun hended => ?_⟩
    rw [hopen] at hended
    cases hended
  | finish hopen raw =>
    refine ⟨fun hopen => (by cases hopen), fun _ => ?_⟩
    change _ = requestsOf (text ++ [])
    rw [List.append_nil, requestsOf_of_splits (hs.requests hopen)]
  | skip | await | handle | settle =>
    change Framed (text ++ []) _
    rw [List.append_nil]
    exact ⟨hs.requests, hs.all⟩

theorem framed_new : Framed [] {} where
  requests _ := .of_notMem List.not_mem_nil
  all h := by cases h

end Run

/-! ## One request after the other -/

/-- The requests up to the first shutdown. -/
def upToShutdown (parse : Text → Option Json) : List Text → List Text
  | [] => []
  | rawRequest :: later =>
    rawRequest ::
      if handleRaw parse rawRequest = .returns true then [] else upToShutdown parse later

/-- The request that is being handled. -/
def Socket.current (s : Socket) : Option Text :=
  if s.running then s.enqueued[s.settled]? else none

/-- The events of requests that are handled one after the other. -/
def eventsOf (processed : List Text) (current : Option Text) : List Event :=
  (processed.flatMap fun rawRequest => [.begins rawRequest, .ends rawRequest]) ++
    current.toList.map .begins

/-- The requests that have been handled so far. -/
structure Processed (parse : Text → Option Json) (s : Socket) (processed : List Text) : Prop where
  events : s.events = eventsOf processed s.current
  running : s.running = true → s.status = .fulfilled false ∧
    ∃ rawRequest, s.enqueued[s.settled]? = some rawRequest ∧
      (handleRaw parse rawRequest).outcome = none
  le : s.settled ≤ s.enqueued.length
  handled : processed <+: s.enqueued.take s.settled
  /-- While the chain goes on, every promise has handled its request. -/
  goesOn : s.status = .fulfilled false → processed = s.enqueued.take s.settled
  noShutdown : s.status ≠ .fulfilled true →
    ∀ rawRequest ∈ processed, handleRaw parse rawRequest ≠ .returns true
  /-- A shutdown ends it. -/
  shutdown : s.status = .fulfilled true → ∃ front last, processed = front ++ [last] ∧
    (∀ rawRequest ∈ front, handleRaw parse rawRequest ≠ .returns true) ∧
    handleRaw parse last = .returns true

section Chain

variable {parse : Text → Option Json} {s s' : Socket} {l : Label} {processed : List Text}

theorem upToShutdown_append_of_forall {front : List Text}
    (h : ∀ rawRequest ∈ front, handleRaw parse rawRequest ≠ .returns true) (later : List Text) :
    upToShutdown parse (front ++ later) = front ++ upToShutdown parse later := by
  induction front with
  | nil => rfl
  | cons rawRequest front ih =>
    rw [List.cons_append, upToShutdown, if_neg (h rawRequest List.mem_cons_self),
      ih fun r hr => h r (List.mem_cons_of_mem rawRequest hr), List.cons_append]

theorem upToShutdown_cons_shutdown {rawRequest : Text}
    (h : handleRaw parse rawRequest = .returns true) (later : List Text) :
    upToShutdown parse (rawRequest :: later) = [rawRequest] := by
  rw [upToShutdown, if_pos h]

theorem take_settled_succ {rawRequest : Text} (hget : s.enqueued[s.settled]? = some rawRequest) :
    s.enqueued.take (s.settled + 1) = s.enqueued.take s.settled ++ [rawRequest] := by
  rw [List.take_add_one, hget]
  rfl

theorem eventsOf_append (processed : List Text) (rawRequest : Text) :
    eventsOf (processed ++ [rawRequest]) none =
      eventsOf processed none ++ [.begins rawRequest, .ends rawRequest] := by
  unfold eventsOf
  rw [List.flatMap_append]
  simp

theorem eventsOf_some_append (processed : List Text) (rawRequest : Text) :
    eventsOf processed (some rawRequest) ++ [.ends rawRequest] =
      eventsOf (processed ++ [rawRequest]) none := by
  rw [eventsOf_append]
  simp [eventsOf]

theorem eventsOf_none_append (processed : List Text) (rawRequest : Text) :
    eventsOf processed none ++ [.begins rawRequest] = eventsOf processed (some rawRequest) := by
  simp [eventsOf]

/-- New requests wait behind the others. -/
theorem Processed.enqueue (h : Processed parse s processed) (more : List Text) (raw : Text)
    (ended : Bool) :
    Processed parse { s with enqueued := s.enqueued ++ more, raw, ended } processed := by
  have htake : (s.enqueued ++ more).take s.settled = s.enqueued.take s.settled :=
    List.take_append_of_le_length h.le
  have hget {rawRequest : Text} (hget : s.enqueued[s.settled]? = some rawRequest) :
      (s.enqueued ++ more)[s.settled]? = some rawRequest := by
    rw [List.getElem?_append_left (List.getElem?_eq_some_iff.mp hget).1, hget]
  refine ⟨?_, ?_, ?_, ?_, ?_, h.noShutdown, h.shutdown⟩
  · refine h.events.trans (congrArg (eventsOf processed) ?_)
    unfold Socket.current
    split_ifs with hrunning
    · obtain ⟨-, rawRequest, hnow, -⟩ := h.running hrunning
      rw [hnow]
      exact (hget hnow).symm
    · rfl
  · intro hrunning
    obtain ⟨hstatus, rawRequest, hnow, houtcome⟩ := h.running hrunning
    exact ⟨hstatus, rawRequest, hget hnow, houtcome⟩
  · exact h.le.trans (by rw [List.length_append]; exact Nat.le_add_right _ _)
  · change processed <+: (s.enqueued ++ more).take s.settled
    rw [htake]
    exact h.handled
  · intro hstatus
    change processed = (s.enqueued ++ more).take s.settled
    rw [htake]
    exact h.goesOn hstatus

theorem current_of_idle (h : s.running = false) : s.current = none := by
  rw [Socket.current, h, if_neg Bool.false_ne_true]

/-- The next request is handled after the one before it. -/
theorem Processed.handle (h : Processed parse s processed) {rawRequest : Text}
    (hget : s.enqueued[s.settled]? = some rawRequest) (hstatus : s.status = .fulfilled false)
    {status : Status}
    (hshutdown : status = .fulfilled true → handleRaw parse rawRequest = .returns true)
    (hother : status ≠ .fulfilled true → handleRaw parse rawRequest ≠ .returns true)
    {events : List Event} (hevents : events = eventsOf (processed ++ [rawRequest]) none) :
    Processed parse { s with settled := s.settled + 1, status, running := false, events }
      (processed ++ [rawRequest]) where
  events := hevents
  running hrunning := by cases hrunning
  le := (List.getElem?_eq_some_iff.mp hget).1
  handled := by
    change _ <+: s.enqueued.take (s.settled + 1)
    rw [take_settled_succ hget, h.goesOn hstatus]
  goesOn _ := by
    change _ = s.enqueued.take (s.settled + 1)
    rw [take_settled_succ hget, h.goesOn hstatus]
  noShutdown hnot := by
    intro r hr
    rcases List.mem_append.mp hr with hr | hr
    · exact h.noShutdown (by rw [hstatus]; rintro ⟨⟩) r hr
    · rw [List.mem_singleton.mp hr]
      exact hother hnot
  shutdown hyes := ⟨processed, rawRequest, rfl, h.noShutdown (by rw [hstatus]; rintro ⟨⟩),
    hshutdown hyes⟩

theorem outcome_eq_some {handling : Handling} {status : Status}
    (h : handling.outcome = some status) :
    status = .fulfilled true ↔ handling = .returns true := by
  cases handling with
  | returns shouldClose =>
    cases h
    exact ⟨(fun h => by cases h; rfl), (fun h => by cases h; rfl)⟩
  | throws =>
    cases h
    exact ⟨(fun h => by cases h), (fun h => by cases h)⟩
  | awaits => cases h

/-- A step keeps the requests in order. -/
theorem Processed.step (h : Processed parse s processed) (hdoes : Does parse s l s') :
    ∃ processed', Processed parse s' processed' := by
  cases hdoes with
  | data hopen chunk => exact ⟨processed, h.enqueue _ _ _⟩
  | finish hopen raw => exact ⟨processed, h.enqueue _ _ _⟩
  | skip hidle hget hstatus =>
    refine ⟨processed, ?_, ?_, ?_, ?_, fun hopen => absurd hopen hstatus, h.noShutdown, h.shutdown⟩
    · rw [h.events, current_of_idle hidle]
      exact congrArg (eventsOf processed) (if_neg (by rw [hidle]; exact Bool.false_ne_true)).symm
    · intro hrunning
      rw [hidle] at hrunning
      cases hrunning
    · exact (List.getElem?_eq_some_iff.mp hget).1
    · exact h.handled.trans (List.take_prefix_take_left (Nat.le_succ _))
  | @await hidle rawRequest hget hstatus houtcome =>
    refine ⟨processed, ?_, fun _ => ⟨hstatus, rawRequest, hget, houtcome⟩, h.le, h.handled,
      h.goesOn, h.noShutdown, h.shutdown⟩
    rw [h.events, current_of_idle hidle, eventsOf_none_append]
    exact congrArg (eventsOf processed) hget.symm
  | @handle hidle rawRequest hget hstatus status houtcome =>
    refine ⟨processed ++ [rawRequest], ?_⟩
    have hnext := h.handle hget hstatus (outcome_eq_some houtcome).mp
      (fun hnot hshutdown => hnot ((outcome_eq_some houtcome).mpr hshutdown)) rfl
    rw [eventsOf_append, ← current_of_idle hidle, ← h.events, ← hidle] at hnext
    exact hnext
  | @settle hrunning rawRequest hget rejects =>
    refine ⟨processed ++ [rawRequest], ?_⟩
    obtain ⟨hstatus, rawRequest', hget', houtcome⟩ := h.running hrunning
    obtain rfl := Option.some.inj (hget.symm.trans hget')
    have hawaits : handleRaw parse rawRequest ≠ .returns true := by
      intro hreturns
      rw [hreturns] at houtcome
      cases houtcome
    refine h.handle hget hstatus (fun hyes => ?_) (fun _ => hawaits) ?_
    · cases rejects <;> cases hyes
    · rw [h.events, Socket.current, if_pos hrunning, hget, eventsOf_some_append]

theorem processed_new : Processed parse {} [] where
  events := rfl
  running h := by cases h
  le := le_refl 0
  handled := List.prefix_refl _
  goesOn _ := rfl
  noShutdown _ _ h := by cases h
  shutdown h := by cases h

theorem not_rejected_step (hdoes : Does parse s l s') (hl : l ≠ .settle true)
    (hs : (∀ rawRequest ∈ s.enqueued, handleRaw parse rawRequest ≠ .throws) →
      s.status ≠ .rejected)
    (hthrows : ∀ rawRequest ∈ s'.enqueued, handleRaw parse rawRequest ≠ .throws) :
    s'.status ≠ .rejected := by
  cases hdoes with
  | data hopen chunk => exact hs fun r hr => hthrows r (List.mem_append_left _ hr)
  | finish hopen raw => exact hs fun r hr => hthrows r (List.mem_append_left _ hr)
  | skip hidle hget hstatus => exact hs hthrows
  | await hidle hget hstatus houtcome => exact hs hthrows
  | @handle hidle rawRequest hget hstatus status houtcome =>
    have hrequest := hthrows rawRequest (List.mem_of_getElem? hget)
    rintro rfl
    cases hhandling : handleRaw parse rawRequest with
    | throws => exact hrequest hhandling
    | returns | awaits =>
      rw [hhandling] at houtcome
      cases houtcome
  | settle hrunning hget rejects =>
    cases rejects with
    | true => exact absurd rfl hl
    | false => rintro ⟨⟩

end Chain

section Run

variable {parse : Text → Option Json} {ls : List Label}

theorem does_of_enabled {s : Socket} {l : Label} (h : (worker parse).enabled s l) :
    Does parse s l ((worker parse).step s l) := by
  obtain ⟨s', hs'⟩ := Option.isSome_iff_exists.mp h
  have hstep : (worker parse).step s l = s' := by
    change (next parse s l).getD s = s'
    rw [hs', Option.getD_some]
  rw [hstep]
  exact does_of_next hs'

/-- The text that has arrived. -/
def textOf (ls : List Label) : Text := ls.flatMap Label.chunk

/-- Every run keeps the framing. -/
theorem framed_run {s : Socket} {text : Text} (hs : Framed text s)
    (hrun : (worker parse).Runs s ls) :
    Framed (text ++ textOf ls) ((worker parse).exec s ls) := by
  induction ls generalizing s text with
  | nil =>
    rw [textOf, List.flatMap_nil, List.append_nil]
    exact hs
  | cons l ls ih =>
    have hnext := ih (hs.step (does_of_enabled hrun.1)) hrun.2
    rw [List.append_assoc] at hnext
    exact hnext

/-- Every run handles the requests in order. -/
theorem processed_run (hrun : (worker parse).Runs {} ls) :
    ∃ processed, Processed parse ((worker parse).exec {} ls) processed := by
  refine hrun.invariant (P := fun s => ∃ processed, Processed parse s processed)
    ⟨[], processed_new⟩ fun s l hl hs => ?_
  obtain ⟨processed, hs⟩ := hs
  exact hs.step (does_of_enabled hl)

theorem not_rejected_run (hrun : (worker parse).Runs {} ls) (hsettle : .settle true ∉ ls)
    (hthrows : ∀ rawRequest ∈ ((worker parse).exec {} ls).enqueued,
      handleRaw parse rawRequest ≠ .throws) :
    ((worker parse).exec {} ls).status ≠ .rejected := by
  have hlabels : (worker parse).EveryStep (fun _ l => l ≠ .settle true) {} ls :=
    (worker parse).everyStep_of_forall_mem {} fun l hl heq => hsettle (heq ▸ hl)
  have hboth := System.everyStep_and.mpr ⟨hrun, hlabels⟩
  refine hboth.invariant (P := fun s => (∀ rawRequest ∈ s.enqueued,
    handleRaw parse rawRequest ≠ .throws) → s.status ≠ .rejected) ?_ ?_ hthrows
  · exact fun _ h => by cases h
  · exact fun s l hl hs => not_rejected_step (does_of_enabled hl.1) hl.2 hs

end Run

/-! ## The worker -/

/-- The request is blank, or no JSON, or an object; the variables of an invocation can be
converted. -/
def IsRegular (parse : Text → Option Json) (rawRequest : Text) : Prop :=
  isBlank rawRequest = true ∨ parse rawRequest = none ∨
    ∃ fields, parse rawRequest = some (.obj fields) ∧
      (fields.lookup "type" = some (.str "invoke") → applyEnvThrows (fields.lookup "env") = false)

theorem IsRegular.not_throws {parse : Text → Option Json} {rawRequest : Text}
    (h : IsRegular parse rawRequest) : handleRaw parse rawRequest ≠ .throws := by
  unfold handleRaw
  split_ifs with hblank
  · decide +kernel
  · obtain hyes | hnone | ⟨fields, hsome, henv⟩ := h
    · exact absurd hyes hblank
    · rw [hnone]
      rintro ⟨⟩
    · rw [hsome]
      dsimp only [handleRequest]
      split
      · rintro ⟨⟩
      · rintro ⟨⟩
      · next hinvoke =>
        change (if applyEnvThrows (fields.lookup "env") then Handling.throws else .awaits) ≠ _
        rw [henv hinvoke, if_neg Bool.false_ne_true]
        rintro ⟨⟩
      · rintro ⟨⟩

/-- **The prepared worker.** However the text arrives, the requests are its lines and the rest that
is not blank. They are handled in their order, each after the one before it has ended, and none
after a shutdown. Once every promise has settled, all of them up to the first shutdown have been
handled, provided that no object has variables that `String` cannot convert and no handler rejects
with an error that has no text. -/
theorem worker_processes (parse : Text → Option Json) {ls : List Label}
    (hrun : (worker parse).Runs {} ls) :
    let s := (worker parse).exec {} ls
    (s.ended = true → s.enqueued = requestsOf (textOf ls)) ∧
      ∃ processed, s.events = eventsOf processed s.current ∧
        processed ++ s.current.toList <+: s.enqueued ∧
        (∀ rawRequest ∈ (processed ++ s.current.toList).dropLast,
          handleRaw parse rawRequest ≠ .returns true) ∧
        ((∀ rawRequest ∈ s.enqueued, IsRegular parse rawRequest) → .settle true ∉ ls →
          s.settled = s.enqueued.length → processed = upToShutdown parse s.enqueued) := by
  intro s
  obtain ⟨processed, h⟩ := processed_run hrun
  refine ⟨(framed_run framed_new hrun).all, processed, h.events, ?_, ?_, ?_⟩
  · unfold Socket.current
    split_ifs with hrunning
    · obtain ⟨hstatus, rawRequest, hget, -⟩ := h.running hrunning
      rw [hget, Option.toList_some, h.goesOn hstatus, ← take_settled_succ hget]
      exact List.take_prefix _ _
    · rw [Option.toList_none, List.append_nil]
      exact h.handled.trans (List.take_prefix _ _)
  · intro rawRequest hmem
    by_cases hstatus : s.status = .fulfilled true
    · obtain ⟨front, last, rfl, hfront, -⟩ := h.shutdown hstatus
      have hidle : s.current = none := by
        refine if_neg fun hrunning => ?_
        have hfalse := (h.running hrunning).1
        rw [hstatus] at hfalse
        cases hfalse
      rw [hidle, Option.toList_none, List.append_nil, List.dropLast_concat] at hmem
      exact hfront rawRequest hmem
    · refine h.noShutdown hstatus rawRequest ?_
      cases hcurrent : s.current with
      | none =>
        rw [hcurrent, Option.toList_none, List.append_nil] at hmem
        exact List.mem_of_mem_dropLast hmem
      | some last =>
        rwa [hcurrent, Option.toList_some, List.dropLast_concat] at hmem
  · intro hregular hsettle hall
    have hrejected := not_rejected_run hrun hsettle fun r hr => (hregular r hr).not_throws
    cases hstatus : s.status with
    | rejected => exact absurd hstatus hrejected
    | fulfilled shouldClose =>
      cases shouldClose with
      | true =>
        obtain ⟨front, last, hprocessed, hfront, hlast⟩ := h.shutdown hstatus
        obtain ⟨later, hlater⟩ := h.handled.trans (List.take_prefix _ _)
        rw [← hlater, hprocessed, List.append_assoc, upToShutdown_append_of_forall hfront,
          List.singleton_append, upToShutdown_cons_shutdown hlast]
      | false =>
        have hprocessed := h.goesOn hstatus
        rw [hall, List.take_length] at hprocessed
        have hnone := h.noShutdown (by rw [hstatus]; rintro ⟨⟩)
        have happend := upToShutdown_append_of_forall hnone []
        rw [List.append_nil, upToShutdown, List.append_nil, hprocessed] at happend
        rw [hprocessed, happend]

namespace Sample

def invoke : Text :=
  "\x7b\"type\":\"invoke\",\"env\":\x7b\"A\":\x7b\"toString\":1\x7d\x7d\x7d".toList

def ping : Text := "\x7b\"type\":\"ping\"\x7d".toList

def parse (text : Text) : Option Json :=
  if text = invoke then
    some (.obj [("type", .str "invoke"), ("env", .obj [("A", .obj [("toString", .num 1)])])])
  else if text = ping then some (.obj [("type", .str "ping")])
  else none

def labels (first second : Text) : List Label :=
  [.data (first ++ '\n' :: second), .react, .data ['\n'], .end, .react]

end Sample

theorem worker_processes_sample :
    (worker Sample.parse).Runs {} (Sample.labels Sample.ping Sample.ping) ∧
      ∃ processed, ((worker Sample.parse).exec {} (Sample.labels Sample.ping Sample.ping)).events =
          eventsOf processed none ∧ processed = [Sample.ping, Sample.ping] := by
  have hrun : (worker Sample.parse).Runs {} (Sample.labels Sample.ping Sample.ping) := by
    unfold System.Runs
    decide +kernel
  have henqueued :
      ((worker Sample.parse).exec {} (Sample.labels Sample.ping Sample.ping)).enqueued =
        [Sample.ping, Sample.ping] := by decide +kernel
  have hregular : IsRegular Sample.parse Sample.ping :=
    .inr (.inr ⟨[("type", .str "ping")], rfl, fun _ => rfl⟩)
  have hcurrent : ((worker Sample.parse).exec {}
      (Sample.labels Sample.ping Sample.ping)).current = none := by decide +kernel
  obtain ⟨-, processed, hevents, -, -, hall⟩ := worker_processes Sample.parse hrun
  rw [hcurrent] at hevents
  refine ⟨hrun, processed, hevents, (hall ?_ (by decide) (by decide +kernel)).trans ?_⟩
  · intro rawRequest hmem
    rw [henqueued] at hmem
    simp only [List.mem_cons, List.not_mem_nil, or_false, or_self] at hmem
    rw [hmem]
    exact hregular
  · rw [henqueued]
    decide +kernel

/-- A request is never handled if the one before it has a variable that `String` cannot convert. -/
theorem not_worker_processes : ¬ ∀ (parse : Text → Option Json) (ls : List Label),
    (worker parse).Runs {} ls →
    let s := (worker parse).exec {} ls
    (∀ rawRequest ∈ s.enqueued, isBlank rawRequest = true ∨ parse rawRequest = none ∨
      ∃ fields, parse rawRequest = some (.obj fields)) →
    .settle true ∉ ls →
    (s.ended = true → s.enqueued = requestsOf (textOf ls)) ∧
      ∃ processed, s.events = eventsOf processed s.current ∧
        processed ++ s.current.toList <+: s.enqueued ∧
        (∀ rawRequest ∈ (processed ++ s.current.toList).dropLast,
          handleRaw parse rawRequest ≠ .returns true) ∧
        (s.settled = s.enqueued.length → processed = upToShutdown parse s.enqueued) := by
  intro hall
  have hrun : (worker Sample.parse).Runs {} (Sample.labels Sample.invoke Sample.ping) := by
    unfold System.Runs
    decide +kernel
  have henqueued :
      ((worker Sample.parse).exec {} (Sample.labels Sample.invoke Sample.ping)).enqueued =
        [Sample.invoke, Sample.ping] := by decide +kernel
  have hlines : ∀ rawRequest ∈
      ((worker Sample.parse).exec {} (Sample.labels Sample.invoke Sample.ping)).enqueued,
      isBlank rawRequest = true ∨ Sample.parse rawRequest = none ∨
        ∃ fields, Sample.parse rawRequest = some (.obj fields) := by
    intro rawRequest hmem
    rw [henqueued] at hmem
    simp only [List.mem_cons, List.not_mem_nil, or_false] at hmem
    rcases hmem with rfl | rfl
    · exact .inr (.inr ⟨_, rfl⟩)
    · exact .inr (.inr ⟨_, rfl⟩)
  obtain ⟨-, processed, hevents, -, -, hprocessed⟩ :=
    hall Sample.parse (Sample.labels Sample.invoke Sample.ping) hrun hlines (by decide)
  have htwo := hprocessed (by decide +kernel)
  rw [henqueued] at htwo
  have hupTo : upToShutdown Sample.parse [Sample.invoke, Sample.ping] =
      [Sample.invoke, Sample.ping] := by decide +kernel
  rw [htwo, hupTo] at hevents
  -- only the first of the two has begun
  exact absurd hevents (by decide +kernel)

end Lecrev.Nodeexec
