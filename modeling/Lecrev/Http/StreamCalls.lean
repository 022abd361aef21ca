import Lecrev.Http.Handlers

/-!
# The stream writer as a state machine

`httpDirectStreamWriter` turns the events of a direct invocation into calls on the response writer.
Its callers may send events in any order, also twice, without a start or after the end, and tell it
about the job and the latency at any time.
-/

namespace Lecrev.Http

/-- A call on the stream writer. -/
inductive StreamCall
  | handleEvent (event : HTTPStreamEvent)
  | setMeta (jobID : String) (startMode : StartMode)
  | setLatency (latencyMs : ℤ)

namespace StreamCall

/-- The event of a call. -/
def event? : StreamCall → Option HTTPStreamEvent
  | handleEvent event => some event
  | _ => none

end StreamCall

/-- A call on the stream writer. The error is a panic of the response writer. -/
def StreamWriter.perform (sw : StreamWriter) : StreamCall → Except ResponseWriter StreamWriter
  | .handleEvent event => sw.handleEvent event
  | .setMeta jobID startMode => .ok (sw.setMeta jobID startMode)
  -- a latency below zero is ignored, as that of zero is
  | .setLatency latencyMs => .ok (sw.setLatency latencyMs.toNat)

/-- The status that a call on the response writer announces. -/
def WriterCall.status? : WriterCall → Option ℤ
  | .writeHeader status _ => some status
  | _ => none

/-- The data that a call on the response writer writes. -/
def WriterCall.data : WriterCall → Bytes
  | .write data => data
  | _ => []

/-- The call sends the header of the response. -/
def WriterCall.isHeader : WriterCall → Bool
  | .writeHeader _ _ => true
  | _ => false

/-! ## Changes of the header alone -/

/-- Of the stream writer nothing that decides on the response was changed: the calls so far, whether
the response has started or ended, the method and the status. -/
structure OnlyHeader (sw sw' : StreamWriter) : Prop where
  calls : sw'.writer.calls = sw.writer.calls
  started : sw'.started = sw.started
  closed : sw'.closed = sw.closed
  method : sw'.method = sw.method
  status : sw'.status = sw.status

namespace OnlyHeader

variable {sw sw' sw'' : StreamWriter}

theorem refl (sw : StreamWriter) : OnlyHeader sw sw := ⟨rfl, rfl, rfl, rfl, rfl⟩

theorem trans (h : OnlyHeader sw sw') (h' : OnlyHeader sw' sw'') : OnlyHeader sw sw'' where
  calls := h'.calls.trans h.calls
  started := h'.started.trans h.started
  closed := h'.closed.trans h.closed
  method := h'.method.trans h.method
  status := h'.status.trans h.status

theorem declareLatencyTrailer (sw : StreamWriter) : OnlyHeader sw sw.declareLatencyTrailer := by
  unfold StreamWriter.declareLatencyTrailer
  split_ifs
  · exact refl sw
  · exact ⟨rfl, rfl, rfl, rfl, rfl⟩

theorem setLatency (sw : StreamWriter) (latencyMs : ℕ) :
    OnlyHeader sw (sw.setLatency latencyMs) := by
  unfold StreamWriter.setLatency
  split_ifs
  · exact refl sw
  · exact ⟨rfl, rfl, rfl, rfl, rfl⟩

theorem setMeta (sw : StreamWriter) (jobID : String) (startMode : StartMode) :
    OnlyHeader sw (sw.setMeta jobID startMode) := by
  unfold StreamWriter.setMeta
  dsimp only
  split_ifs <;> exact ⟨rfl, rfl, rfl, rfl, rfl⟩

theorem setEventHeaders (sw : StreamWriter) (fields : List (String × String)) :
    OnlyHeader sw (sw.setEventHeaders fields) := by
  unfold StreamWriter.setEventHeaders
  induction fields generalizing sw with
  | nil => exact refl sw
  | cons field fields ih =>
    rw [List.foldl_cons]
    refine trans ?_ (ih _)
    split_ifs <;> exact ⟨rfl, rfl, rfl, rfl, rfl⟩

end OnlyHeader

/-! ## The response, read off the events -/

/-- The event is of one of the known types. -/
def known (event : HTTPStreamEvent) : Bool := event.type ≠ .unknown

/-- The event ends the response. -/
def final (event : HTTPStreamEvent) : Bool := event.type = .end

/-- The status with which a first event starts the response. -/
def startStatus (event : HTTPStreamEvent) : ℤ :=
  if event.type = .start ∧ 0 < event.statusCode then event.statusCode else 200

/-- The status of the response, once there is an event of a known type. -/
def announced (events : List HTTPStreamEvent) : Option ℤ := (events.find? known).map startStatus

/-- The data of a chunk. -/
def chunkOf (event : HTTPStreamEvent) : Bytes := if event.type = .chunk then event.chunk else []

/-- The chunks before the first end. -/
def chunksOf (events : List HTTPStreamEvent) : Bytes :=
  (events.takeWhile fun event => !final event).flatMap chunkOf

/-- The body of the response. -/
def streamedBody (method : String) (events : List HTTPStreamEvent) : Bytes :=
  if method = "HEAD" then [] else chunksOf events

section Events

variable {events : List HTTPStreamEvent} {event : HTTPStreamEvent}

theorem announced_append_of_any (h : events.any known = true) :
    announced (events ++ [event]) = announced events := by
  have hsome : (events.find? known).isSome := List.find?_isSome.mpr (List.any_eq_true.mp h)
  obtain ⟨first, hfirst⟩ := Option.isSome_iff_exists.mp hsome
  rw [announced, announced, List.find?_append, hfirst]
  rfl

theorem announced_append_of_not_any (h : events.any known = false) :
    announced (events ++ [event]) = if known event then some (startStatus event) else none := by
  have hnone : events.find? known = none := List.find?_eq_none.mpr (List.any_eq_false.mp h)
  rw [announced, List.find?_append, hnone, List.find?_singleton]
  split_ifs <;> rfl

theorem chunksOf_append_of_any (h : events.any final = true) :
    chunksOf (events ++ [event]) = chunksOf events := by
  obtain ⟨last, hmem, hlast⟩ := List.any_eq_true.mp h
  rw [chunksOf, List.takeWhile_append, if_neg, chunksOf]
  intro hlength
  -- otherwise all the events would come before the end
  have hall := List.takeWhile_eq_self_iff.mp
    ((List.takeWhile_prefix _).eq_of_length hlength) last hmem
  rw [hlast] at hall
  cases hall

theorem chunksOf_append_of_not_any (h : events.any final = false) :
    chunksOf (events ++ [event]) = chunksOf events ++ chunkOf event := by
  have hall : ∀ e ∈ events, (!final e) = true := fun e he =>
    Bool.not_eq_true' _ |>.mpr (Bool.eq_false_iff.mpr (List.any_eq_false.mp h e he))
  have hbefore : (events ++ [event]).takeWhile (fun e => !final e) =
      events ++ if final event then [] else [event] := by
    rw [List.takeWhile_append_of_pos hall]
    by_cases hfinal : final event = true
    · rw [List.takeWhile_cons_of_neg (by rw [hfinal]; decide), if_pos hfinal]
    · rw [List.takeWhile_cons_of_pos (by rw [Bool.eq_false_iff.mpr hfinal]; rfl), if_neg hfinal]
      rfl
  rw [chunksOf, hbefore, chunksOf, List.takeWhile_eq_self_iff.mpr hall, List.flatMap_append]
  congr 1
  by_cases hfinal : final event = true
  · -- the end itself has no chunk
    rw [if_pos hfinal, chunkOf, of_decide_eq_true hfinal]
    rfl
  · rw [if_neg hfinal]
    exact List.append_nil _

end Events

/-! ## What a step adds -/

/-- A step leaves the method alone and adds calls that announce the statuses and write the data. -/
structure Adds (sw sw' : StreamWriter) (statuses : List ℤ) (data : Bytes) : Prop where
  method : sw'.method = sw.method
  calls : ∃ made, sw'.writer.calls = sw.writer.calls ++ made ∧
    made.filterMap WriterCall.status? = statuses ∧ made.flatMap WriterCall.data = data

namespace Adds

variable {sw sw' sw'' : StreamWriter} {statuses statuses' : List ℤ} {data data' : Bytes}

theorem of_calls_eq (hmethod : sw'.method = sw.method)
    (hcalls : sw'.writer.calls = sw.writer.calls) : Adds sw sw' [] [] :=
  ⟨hmethod, [], by rw [hcalls, List.append_nil], rfl, rfl⟩

theorem of_header (h : OnlyHeader sw sw') : Adds sw sw' [] [] := of_calls_eq h.method h.calls

theorem trans (h : Adds sw sw' statuses data) (h' : Adds sw' sw'' statuses' data') :
    Adds sw sw'' (statuses ++ statuses') (data ++ data') := by
  obtain ⟨made, hmade, hstatuses, hdata⟩ := h.calls
  obtain ⟨made', hmade', hstatuses', hdata'⟩ := h'.calls
  refine ⟨h'.method.trans h.method, made ++ made', ?_, ?_, ?_⟩
  · rw [hmade', hmade, List.append_assoc]
  · rw [List.filterMap_append, hstatuses, hstatuses']
  · rw [List.flatMap_append, hdata, hdata']

theorem flush (sw : StreamWriter) : Adds sw sw.flush [] [] := by
  refine ⟨rfl, if sw.writer.flusher then [.flush] else [], ?_, ?_, ?_⟩
  · change sw.writer.flush.calls = _
    unfold ResponseWriter.flush
    split_ifs
    · rfl
    · exact (List.append_nil _).symm
  · split_ifs <;> rfl
  · split_ifs <;> rfl

theorem write (sw : StreamWriter) (chunk : Bytes) :
    Adds sw { sw with writer := sw.writer.write chunk } [] chunk :=
  ⟨rfl, [.write chunk], rfl, rfl, List.append_nil chunk⟩

theorem writeHeader (sw : StreamWriter) :
    Adds sw { sw with writer := sw.writer.writeHeader sw.status, started := true } [sw.status] [] :=
  ⟨rfl, [.writeHeader sw.status sw.writer.header], rfl, rfl, rfl⟩

end Adds

/-! ## The invariant -/

/-- The status of the response, if it has one, is one that `WriteHeader` accepts. -/
def ValidStatus (events : List HTTPStreamEvent) : Prop :=
  ∀ status ∈ announced events, invalidStatus status = false

/-- What the events so far have led to, on top of the calls that were there before. -/
structure Handled (before : List WriterCall) (method : String) (events : List HTTPStreamEvent)
    (sw : StreamWriter) : Prop where
  request : sw.method = method
  started : sw.started = events.any known
  closed : sw.closed = events.any final
  status : events.any known = false → sw.status = 200
  valid : ValidStatus events
  calls : ∃ made, sw.writer.calls = before ++ made ∧
    made.filterMap WriterCall.status? = (announced events).toList ∧
    made.flatMap WriterCall.data = streamedBody method events

/-- What a run leads to: a state as its events say, or the panic at a status out of range. -/
def Outcome (before : List WriterCall) (method : String) (events : List HTTPStreamEvent) :
    Except ResponseWriter StreamWriter → Prop
  | .ok sw => Handled before method events sw
  | .error _ => ¬ ValidStatus events

section Step

variable {before : List WriterCall} {method : String} {events : List HTTPStreamEvent}
  {event : HTTPStreamEvent} {sw sw' : StreamWriter}

theorem known_of_final (h : final event = true) : known event = true := by
  unfold known
  rw [of_decide_eq_true h]
  rfl

theorem any_known_of_any_final (h : events.any final = true) : events.any known = true := by
  obtain ⟨last, hmem, hlast⟩ := List.any_eq_true.mp h
  exact List.any_eq_true.mpr ⟨last, hmem, known_of_final hlast⟩

theorem not_validStatus_append (h : ¬ ValidStatus events) (more : List HTTPStreamEvent) :
    ¬ ValidStatus (events ++ more) := by
  refine fun hvalid => h fun status hstatus => hvalid status ?_
  obtain ⟨first, hfirst, rfl⟩ := Option.map_eq_some_iff.mp hstatus
  exact Option.map_eq_some_iff.mpr ⟨first, by rw [List.find?_append, hfirst]; rfl, rfl⟩

/-- The statuses that an event announces after the others. -/
def statusesOf (events : List HTTPStreamEvent) (event : HTTPStreamEvent) : List ℤ :=
  if events.any known then [] else if known event then [startStatus event] else []

theorem announced_append (events : List HTTPStreamEvent) (event : HTTPStreamEvent) :
    (announced (events ++ [event])).toList =
      (announced events).toList ++ statusesOf events event := by
  unfold statusesOf
  by_cases h : events.any known = true
  · rw [announced_append_of_any h, if_pos h, List.append_nil]
  · have h : events.any known = false := Bool.eq_false_iff.mpr h
    have hnone : announced events = none :=
      Option.map_eq_none_iff.mpr (List.find?_eq_none.mpr (List.any_eq_false.mp h))
    rw [announced_append_of_not_any h, hnone, h, if_neg Bool.false_ne_true]
    split_ifs <;> rfl

/-- One event more is handled. -/
theorem Handled.append (h : Handled before method events sw) (hopen : events.any final = false)
    (hstarted : sw'.started = (events.any known || known event))
    (hclosed : sw'.closed = final event)
    (hstatus : known event = false → sw'.status = sw.status)
    (hvalid : ValidStatus (events ++ [event]))
    (hadds : Adds sw sw' (statusesOf events event)
      (if method = "HEAD" then [] else chunkOf event)) :
    Handled before method (events ++ [event]) sw' where
  request := hadds.method.trans h.request
  started := by rw [hstarted, List.any_append, List.any_cons, List.any_nil, Bool.or_false]
  closed := by
    rw [hclosed, List.any_append, hopen, List.any_cons, List.any_nil, Bool.or_false, Bool.false_or]
  status hnone := by
    rw [List.any_append, Bool.or_eq_false_iff, List.any_cons, List.any_nil, Bool.or_false] at hnone
    rw [hstatus hnone.2, h.status hnone.1]
  valid := hvalid
  calls := by
    obtain ⟨made, hmade, hstatuses, hdata⟩ := h.calls
    obtain ⟨more, hmore, hstatuses', hdata'⟩ := hadds.calls
    refine ⟨made ++ more, by rw [hmore, hmade, List.append_assoc], ?_, ?_⟩
    · rw [List.filterMap_append, hstatuses, hstatuses', announced_append]
    · rw [List.flatMap_append, hdata, hdata', streamedBody, streamedBody]
      split_ifs
      · rfl
      · exact (chunksOf_append_of_not_any hopen).symm

theorem validStatus_append_iff (h : events.any known = false) (hknown : known event = true) :
    ValidStatus (events ++ [event]) ↔ invalidStatus (startStatus event) = false := by
  unfold ValidStatus
  rw [announced_append_of_not_any h, if_pos hknown]
  exact ⟨fun hvalid => hvalid _ rfl, fun hvalid status hstatus => by
    rw [← Option.some.inj hstatus]; exact hvalid⟩

theorem Handled.validStatus_append (h : Handled before method events sw)
    (hknown : events.any known = true) (event : HTTPStreamEvent) :
    ValidStatus (events ++ [event]) := by
  unfold ValidStatus
  rw [announced_append_of_any hknown]
  exact h.valid

theorem Handled.append_known (h : Handled before method events sw)
    (hopen : events.any final = false)
    (hknown : known event = true) (hvalid : ValidStatus (events ++ [event]))
    (hstarted : sw'.started = true) (hclosed : sw'.closed = final event)
    (hadds : Adds sw sw' (statusesOf events event)
      (if method = "HEAD" then [] else chunkOf event)) :
    Handled before method (events ++ [event]) sw' := by
  refine h.append hopen ?_ hclosed (fun hunknown => ?_) hvalid hadds
  · rw [hstarted, hknown, Bool.or_true]
  · rw [hknown] at hunknown
    cases hunknown

theorem begin_ok (h : invalidStatus sw.status = false) :
    sw.begin = .ok { sw with writer := sw.writer.writeHeader sw.status, started := true } := by
  unfold StreamWriter.begin
  rw [h]
  rfl

theorem begin_error (h : invalidStatus sw.status = true) :
    sw.begin = .error (sw.writer.writeHeader sw.status) := by
  unfold StreamWriter.begin
  rw [h]
  rfl

theorem Handled.ensureStarted (h : Handled before method events sw) (hknown : known event = true)
    (hstart : startStatus event = 200) :
    ValidStatus (events ++ [event]) ∧ ∃ sw', sw.ensureStarted = .ok sw' ∧ sw'.started = true ∧
      sw'.closed = sw.closed ∧ Adds sw sw' (statusesOf events event) [] := by
  unfold StreamWriter.ensureStarted
  rw [h.started]
  by_cases hbefore : events.any known = true
  · have hstarted := h.started.trans hbefore
    rw [if_pos hbefore, statusesOf, if_pos hbefore]
    exact ⟨h.validStatus_append hbefore event, sw, rfl, hstarted, rfl, .of_calls_eq rfl rfl⟩
  · have hnot : events.any known = false := Bool.eq_false_iff.mpr hbefore
    have hsame := OnlyHeader.declareLatencyTrailer sw
    have hstatus := hsame.status.trans (h.status hnot)
    have hadds := (Adds.of_header hsame).trans (.writeHeader sw.declareLatencyTrailer)
    rw [hstatus] at hadds
    rw [if_neg hbefore, statusesOf, if_neg hbefore, if_pos hknown, hstart,
      validStatus_append_iff hnot hknown, hstart, begin_ok (by rw [hstatus]; rfl), hstatus]
    exact ⟨rfl, _, rfl, rfl, hsame.closed, hadds⟩

/-- A start event is handled. -/
theorem Handled.start (h : Handled before method events sw) (hopen : events.any final = false)
    (htype : event.type = .start) :
    Outcome before method (events ++ [event]) (sw.handleEvent event) := by
  have hknown : known event = true := by rw [known, htype]; rfl
  have hfinal : final event = false := by rw [final, htype]; rfl
  have hchunk : chunkOf event = [] := by rw [chunkOf, htype]; rfl
  unfold StreamWriter.handleEvent
  rw [h.closed, hopen, if_neg Bool.false_ne_true, htype]
  dsimp only
  rw [h.started]
  by_cases hbefore : events.any known = true
  · -- a second start changes nothing
    rw [if_pos hbefore]
    refine h.append_known hopen hknown (h.validStatus_append hbefore event) ?_ ?_ ?_
    · rw [h.started, hbefore]
    · rw [h.closed, hopen, hfinal]
    · rw [statusesOf, if_pos hbefore, hchunk, ite_self]
      exact .of_calls_eq rfl rfl
  · have hnot : events.any known = false := Bool.eq_false_iff.mpr hbefore
    have hsame := OnlyHeader.declareLatencyTrailer sw
    -- the state in which the header is written
    obtain ⟨sw₁, hsw₁, hstatus, hclosed, hadds⟩ : ∃ sw₁,
        (if 0 < event.statusCode then { sw.declareLatencyTrailer with status := event.statusCode }
          else sw.declareLatencyTrailer).setEventHeaders event.headers = sw₁ ∧
        sw₁.status = startStatus event ∧ sw₁.closed = false ∧ Adds sw sw₁ [] [] := by
      have hset := OnlyHeader.setEventHeaders (if 0 < event.statusCode then
        { sw.declareLatencyTrailer with status := event.statusCode }
          else sw.declareLatencyTrailer) event.headers
      refine ⟨_, rfl, ?_, ?_, ?_⟩
      · rw [hset.status, startStatus, htype]
        split_ifs with hpos hzero hzero
        · rfl
        · exact absurd ⟨rfl, hpos⟩ hzero
        · exact absurd hzero.2 hpos
        · exact hsame.status.trans (h.status hnot)
      · rw [hset.closed]
        split_ifs <;> exact hsame.closed.trans (h.closed.trans hopen)
      · refine Adds.of_calls_eq (hset.method.trans ?_) (hset.calls.trans ?_)
        · split_ifs <;> exact hsame.method
        · split_ifs <;> exact hsame.calls
    rw [if_neg hbefore, hsw₁]
    cases hinvalid : invalidStatus (startStatus event) with
    | true =>
      rw [begin_error (hstatus ▸ hinvalid)]
      intro hvalid
      rw [(validStatus_append_iff hnot hknown).mp hvalid] at hinvalid
      cases hinvalid
    | false =>
      rw [begin_ok (hstatus ▸ hinvalid)]
      refine h.append_known hopen hknown ((validStatus_append_iff hnot hknown).mpr hinvalid) rfl
        (hclosed.trans hfinal.symm) ?_
      have hall := (hadds.trans (.writeHeader sw₁)).trans (.flush _)
      rw [hstatus] at hall
      rw [statusesOf, if_neg hbefore, if_pos hknown, hchunk, ite_self]
      rw [hstatus]
      exact hall

/-- A chunk is handled. -/
theorem Handled.chunk (h : Handled before method events sw) (hopen : events.any final = false)
    (htype : event.type = .chunk) :
    Outcome before method (events ++ [event]) (sw.handleEvent event) := by
  have hknown : known event = true := by rw [known, htype]; rfl
  have hfinal : final event = false := by rw [final, htype]; rfl
  have hstart : startStatus event = 200 := by rw [startStatus, htype]; rfl
  have hchunk : chunkOf event = event.chunk := by rw [chunkOf, htype]; rfl
  obtain ⟨hvalid, sw₁, hrun, hstarted, hclosed, hadds⟩ := h.ensureStarted hknown hstart
  unfold StreamWriter.handleEvent
  rw [h.closed, hopen, if_neg Bool.false_ne_true, htype]
  dsimp only
  rw [hrun]
  have hmethod : sw₁.method = method := hadds.method.trans h.request
  -- the chunk is written only if there is something to write
  by_cases hwrite : sw₁.method ≠ "HEAD" ∧ event.chunk ≠ []
  · have hall := (hadds.trans (.write sw₁ event.chunk)).trans (.flush _)
    refine h.append_known hopen hknown hvalid ?_ ?_ ?_
    · rw [if_pos hwrite]
      exact hstarted
    · rw [if_pos hwrite]
      exact hclosed.trans (h.closed.trans (hopen.trans hfinal.symm))
    · rw [if_pos hwrite, if_neg (hmethod ▸ hwrite.1), hchunk]
      simpa only [List.append_nil, List.nil_append] using hall
  · have hall := hadds.trans (.flush sw₁)
    refine h.append_known hopen hknown hvalid ?_ ?_ ?_
    · rw [if_neg hwrite]
      exact hstarted
    · rw [if_neg hwrite]
      exact hclosed.trans (h.closed.trans (hopen.trans hfinal.symm))
    · have hnothing : (if method = "HEAD" then [] else chunkOf event) = [] := by
        rw [not_and_or, not_not, not_not, hmethod] at hwrite
        rw [hchunk]
        split_ifs with hhead
        · rfl
        · exact hwrite.resolve_left hhead
      rw [if_neg hwrite, hnothing]
      simpa only [List.append_nil] using hall

theorem Handled.end (h : Handled before method events sw) (hopen : events.any final = false)
    (htype : event.type = .end) :
    Outcome before method (events ++ [event]) (sw.handleEvent event) := by
  have hknown : known event = true := by rw [known, htype]; rfl
  have hfinal : final event = true := by rw [final, htype]; rfl
  have hstart : startStatus event = 200 := by rw [startStatus, htype]; rfl
  have hchunk : chunkOf event = [] := by rw [chunkOf, htype]; rfl
  obtain ⟨hvalid, sw₁, hrun, hstarted, hclosed, hadds⟩ := h.ensureStarted hknown hstart
  unfold StreamWriter.handleEvent
  rw [h.closed, hopen, if_neg Bool.false_ne_true, htype]
  dsimp only
  rw [hrun]
  refine h.append_known hopen hknown hvalid hstarted hfinal.symm ?_
  have hall := hadds.trans (.flush sw₁)
  rw [List.append_nil] at hall
  rw [hchunk, ite_self]
  exact ⟨hall.method, hall.calls⟩

theorem Handled.unknown (h : Handled before method events sw) (hopen : events.any final = false)
    (htype : event.type = .unknown) :
    Outcome before method (events ++ [event]) (sw.handleEvent event) := by
  have hknown : known event = false := by rw [known, htype]; rfl
  have hfinal : final event = false := by rw [final, htype]; rfl
  have hchunk : chunkOf event = [] := by rw [chunkOf, htype]; rfl
  have hstatuses : statusesOf events event = [] := by
    rw [statusesOf, hknown, if_neg Bool.false_ne_true, ite_self]
  unfold StreamWriter.handleEvent
  rw [h.closed, hopen, if_neg Bool.false_ne_true, htype]
  refine h.append hopen ?_ ?_ (fun _ => rfl) ?_ ?_
  · rw [h.started, hknown, Bool.or_false]
  · rw [h.closed, hopen, hfinal]
  · intro status hstatus
    refine h.valid status ?_
    have hmem := Option.mem_toList.mpr hstatus
    rw [announced_append, hstatuses, List.append_nil] at hmem
    exact Option.mem_toList.mp hmem
  · rw [hstatuses, hchunk, ite_self]
    exact .of_calls_eq rfl rfl

theorem Handled.handleEvent (h : Handled before method events sw) (event : HTTPStreamEvent) :
    Outcome before method (events ++ [event]) (sw.handleEvent event) := by
  by_cases hend : events.any final = true
  · have hknown := any_known_of_any_final hend
    unfold StreamWriter.handleEvent
    rw [h.closed, hend, if_pos rfl]
    refine ⟨h.request, ?_, ?_, ?_, h.validStatus_append hknown event, ?_⟩
    · rw [h.started, List.any_append, hknown, Bool.true_or]
    · rw [h.closed, List.any_append, hend, Bool.true_or]
    · rw [List.any_append, hknown, Bool.true_or]
      exact fun hnot => by cases hnot
    · rw [announced_append_of_any hknown, streamedBody, chunksOf_append_of_any hend]
      exact h.calls
  · have hopen : events.any final = false := Bool.eq_false_iff.mpr hend
    cases htype : event.type with
    | start => exact h.start hopen htype
    | chunk => exact h.chunk hopen htype
    | «end» => exact h.end hopen htype
    | unknown => exact h.unknown hopen htype

theorem Handled.of_header (h : Handled before method events sw) (hsame : OnlyHeader sw sw') :
    Handled before method events sw' where
  request := hsame.method.trans h.request
  started := hsame.started.trans h.started
  closed := hsame.closed.trans h.closed
  status hnot := hsame.status.trans (h.status hnot)
  valid := h.valid
  calls := by
    rw [hsame.calls]
    exact h.calls

theorem Handled.perform (h : Handled before method events sw) (call : StreamCall) :
    Outcome before method (events ++ call.event?.toList) (sw.perform call) := by
  cases call with
  | handleEvent event => exact h.handleEvent event
  | setMeta jobID startMode =>
    change Outcome before method (events ++ []) _
    rw [List.append_nil]
    exact h.of_header (.setMeta sw jobID startMode)
  | setLatency latencyMs =>
    change Outcome before method (events ++ []) _
    rw [List.append_nil]
    exact h.of_header (.setLatency sw latencyMs.toNat)

theorem handled_new (w : ResponseWriter) (method token versionID : String) :
    Handled w.calls method [] (newHTTPDirectStreamWriter w method token versionID) where
  request := rfl
  started := rfl
  closed := rfl
  status _ := rfl
  valid := fun _ h => by cases h
  calls := ⟨[], (List.append_nil _).symm, rfl, by rw [streamedBody]; split_ifs <;> rfl⟩

/-- The events of a whole stream. -/
theorem Handled.run (h : Handled before method [] sw) (calls : List StreamCall) :
    Outcome before method (calls.filterMap StreamCall.event?)
      (calls.foldlM StreamWriter.perform sw) := by
  induction calls using List.reverseRecOn with
  | nil => exact h
  | append_singleton calls call ih =>
    have hevents : (calls ++ [call]).filterMap StreamCall.event? =
        calls.filterMap StreamCall.event? ++ call.event?.toList := by
      rw [List.filterMap_append, List.filterMap_cons]
      cases call.event? <;> rfl
    rw [hevents, List.foldlM_append]
    cases hrun : calls.foldlM StreamWriter.perform sw with
    | error w =>
      rw [hrun] at ih
      exact not_validStatus_append ih _
    | ok sw' =>
      rw [hrun] at ih
      change Outcome before method _ (sw'.perform call >>= pure)
      rw [bind_pure]
      exact ih.perform call

end Step

/-! ## The response after any sequence of calls -/

theorem any_known_of_header {made : List WriterCall} {events : List HTTPStreamEvent}
    (h : made.filterMap WriterCall.status? = (announced events).toList) {call : WriterCall}
    (hcall : call ∈ made) (hheader : call.isHeader = true) : events.any known = true := by
  cases call with
  | write data => cases hheader
  | flush => cases hheader
  | writeHeader status header =>
    have hstatus : status ∈ made.filterMap WriterCall.status? :=
      List.mem_filterMap.mpr ⟨_, hcall, rfl⟩
    rw [h, Option.mem_toList] at hstatus
    obtain ⟨first, hfirst, -⟩ := Option.map_eq_some_iff.mp hstatus
    exact List.any_eq_true.mpr ⟨first, List.mem_of_find?_eq_some hfirst, List.find?_some hfirst⟩

/-- After any calls on a new stream writer: they succeed unless the status of the first event is out
of range; `WriteHeader` was called once if there was an event of a known type and not at all
otherwise, with the status of the first of them; the body is that of the chunks before the end.
After the end no event changes anything, and once the header is written the job does not either. -/
theorem stream_writer_spec (w : ResponseWriter) (method token versionID : String)
    (calls : List StreamCall) :
    let run :=
      calls.foldlM StreamWriter.perform (newHTTPDirectStreamWriter w method token versionID)
    let events := calls.filterMap StreamCall.event?
    ((∃ sw, run = .ok sw) ↔ ∀ status ∈ announced events, invalidStatus status = false) ∧
    ∀ sw, run = .ok sw → ∃ made, sw.writer.calls = w.calls ++ made ∧
      made.filterMap WriterCall.status? = (announced events).toList ∧
      made.flatMap WriterCall.data = streamedBody method events ∧
      (events.any final → ∀ event, sw.handleEvent event = .ok sw) ∧
      ((∃ call ∈ made, call.isHeader) → ∀ jobID startMode, sw.setMeta jobID startMode = sw) := by
  intro run events
  have hrun : Outcome w.calls method events run :=
    (handled_new w method token versionID).run calls
  refine ⟨⟨?_, ?_⟩, ?_⟩
  · rintro ⟨sw, hsw⟩
    rw [hsw] at hrun
    exact hrun.valid
  · intro hvalid
    cases hresult : run with
    | error w =>
      rw [hresult] at hrun
      exact absurd hvalid hrun
    | ok sw => exact ⟨sw, rfl⟩
  · intro sw hsw
    rw [hsw] at hrun
    obtain ⟨made, hmade, hstatuses, hdata⟩ := hrun.calls
    refine ⟨made, hmade, hstatuses, hdata, fun hend event => ?_, ?_⟩
    · unfold StreamWriter.handleEvent
      rw [hrun.closed, if_pos hend]
    · rintro ⟨call, hcall, hheader⟩ jobID startMode
      have hstarted : sw.started = true :=
        hrun.started.trans (any_known_of_header hstatuses hcall hheader)
      unfold StreamWriter.setMeta
      rw [if_pos hstarted]

end Lecrev.Http
