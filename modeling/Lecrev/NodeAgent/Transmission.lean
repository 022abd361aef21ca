import Lecrev.NodeAgent.Outcome

/-!
# Updates that can be sent

An update is sent in a protobuf message, whose strings have to be valid UTF-8, over a gRPC stream
with a limit for the size of a message. The agent ignores the error of the send, so that a terminal
update that cannot be sent is lost. It cuts the logs after a number of bytes, which may lie within a
character, and it does not limit the text of the driver's error.
-/

namespace Lecrev.NodeAgent

/-- The largest message of the connection to the coordinator. -/
def grpcMaxMessageBytes : ℕ := 64 <<< 20

/-- The strings of the update that the driver has a part in are valid, and with the output they are
below the limit. -/
structure Transmittable (u : AssignmentUpdate) : Prop where
  logs : ValidUTF8 u.logs
  errorMessage : ValidUTF8 (textBytes u.errorMessage)
  size : u.logs.length + u.outputJson.length + (textBytes u.errorMessage).length <
    grpcMaxMessageBytes

/-- The limit of the logs cuts no character. -/
def CutsNoCharacter (logs : String) : Prop :=
  logs.utf8ByteSize ≤ maxExecutionLogBytes ∨ String.Pos.Raw.IsValid logs ⟨maxExecutionLogBytes⟩

/-- The bytes of the logs, the output and the error message that are sent for what the driver
returned. -/
def sentBytes (o : Outside) (run : DriverRun) : ℕ :=
  min (combinedLogs o run).utf8ByteSize maxExecutionLogBytes +
    (if (runOutput run).length ≤ maxExecutionOutputBytes then (runOutput run).length else 0) +
    (combineErrorMessages run.err (o.limited run).2.2).utf8ByteSize

section Fields

variable (n : Node) (o : Outside) (msg : Assignment) (run : DriverRun)

theorem logs_finalUpdate :
    (finalUpdate n o msg run).logs =
      (textBytes (combinedLogs o run)).take maxExecutionLogBytes := by
  rw [← limited_logs, finalUpdate]
  split
  · rfl
  · rfl

theorem outputJson_finalUpdate :
    (finalUpdate n o msg run).outputJson =
      if (runOutput run).length ≤ maxExecutionOutputBytes then runOutput run else [] := by
  rw [← limited_output, finalUpdate]
  split
  · rfl
  · rfl

theorem errorMessage_finalUpdate :
    (finalUpdate n o msg run).errorMessage =
      combineErrorMessages run.err (o.limited run).2.2 := by
  unfold finalUpdate
  split
  · rfl
  · -- neither the driver nor the limits have reported an error
    rename_i h
    have haccepted := (rejected_eq_false_iff o run).mp (Bool.eq_false_of_not_eq_true h)
    rw [haccepted.err, (limited_ok_iff o run).mpr ⟨haccepted.logs, haccepted.output⟩]
    rfl

end Fields

theorem validUTF8_cut_iff (logs : String) :
    ValidUTF8 ((textBytes logs).take maxExecutionLogBytes) ↔ CutsNoCharacter logs := by
  unfold CutsNoCharacter
  by_cases hsize : logs.utf8ByteSize ≤ maxExecutionLogBytes
  · rw [List.take_of_length_le (by rwa [length_textBytes])]
    exact iff_of_true (validUTF8_textBytes logs) (.inl hsize)
  · rw [or_iff_right hsize]
    exact validUTF8_take_iff (Nat.le_of_not_le hsize)

theorem size_finalUpdate (n : Node) (o : Outside) (msg : Assignment) (run : DriverRun) :
    (finalUpdate n o msg run).logs.length + (finalUpdate n o msg run).outputJson.length +
      (textBytes (finalUpdate n o msg run).errorMessage).length = sentBytes o run := by
  rw [logs_finalUpdate, outputJson_finalUpdate, errorMessage_finalUpdate, List.length_take,
    length_textBytes, length_textBytes, Nat.min_comm, apply_ite List.length]
  rfl

theorem transmittable_finalUpdate_iff (n : Node) (o : Outside) (msg : Assignment)
    (run : DriverRun) :
    Transmittable (finalUpdate n o msg run) ↔
      CutsNoCharacter (combinedLogs o run) ∧ sentBytes o run < grpcMaxMessageBytes := by
  rw [← validUTF8_cut_iff, ← logs_finalUpdate n o msg run, ← size_finalUpdate n o msg run]
  exact ⟨fun h => ⟨h.logs, h.size⟩, fun h => ⟨h.1, validUTF8_textBytes _, h.2⟩⟩

/-- **When the terminal update can be sent.** For every run of `executeAssignment` that calls the
driver, and whatever it returns: the terminal update has valid strings and stays below the limit of
a message exactly when the limit of the logs does not fall within a character, and the logs, the
output and the text of the error are together below the limit of a message. -/
theorem terminal_update_transmittable_iff (n : Node) (o : Outside) (msg : Assignment)
    {E : Environment AgentCall Agent Err} (hE : ∀ l e, ¬ E.fails l e)
    {log : CallLog AgentCall Agent} {r : Except Err Unit}
    (hexec : (executeAssignment n o msg).Exec E log r) {req : ExecuteRequest}
    (hreq : req ∈ ran log) {u : AssignmentUpdate} (hterminal : u.terminal = true)
    (hsent : AgentCall.sendUpdate u ∈ log.map Prod.fst) :
    Transmittable u ↔ CutsNoCharacter (combinedLogs o (o.execute req)) ∧
      sentBytes o (o.execute req) < grpcMaxMessageBytes := by
  rw [(settledOnce_of_mem_ran hE hexec hreq).eq_of_sent hterminal hsent]
  exact transmittable_finalUpdate_iff n o msg (o.execute req)

/-! ## Updates that cannot be sent -/

/-- The bytes of a text and a repeated character are cut at a character only if the number of bytes
after the text is a multiple of those of the character. -/
theorem dvd_of_isValid_append_replicate {text : String} {k m : ℕ} {c : Char}
    (hvalid : String.Pos.Raw.IsValid (text ++ .ofList (.replicate m c)) ⟨k⟩) :
    c.utf8Size ∣ k - text.utf8ByteSize := by
  obtain ⟨before, after, hsplit, hend⟩ := String.Pos.Raw.isValid_iff_exists_append.mp hvalid
  have hsize : k = before.utf8ByteSize := congrArg String.Pos.Raw.byteIdx hend
  have hchars := congrArg String.toList hsplit
  rw [String.toList_append, String.toList_append, String.toList_ofList] at hchars
  obtain ⟨chars, hbefore, hreplicate⟩ | ⟨chars, htext, -⟩ := List.append_eq_append_iff.mp hchars
  · -- the cut is within the repeated characters
    obtain ⟨-, hchars, -⟩ := List.replicate_eq_append_iff.mp hreplicate
    have hbytes : before.utf8ByteSize = text.utf8ByteSize + chars.length * c.utf8Size := by
      rw [String.utf8ByteSize_eq_sum, hbefore, List.map_append, List.sum_append,
        ← String.utf8ByteSize_eq_sum, hchars, List.map_replicate, List.sum_replicate_nat,
        List.length_replicate]
    rw [hsize, hbytes, Nat.add_sub_cancel_left]
    exact Nat.dvd_mul_left _ _
  · -- the cut is within the text, and so at its end
    have hbytes : before.utf8ByteSize ≤ text.utf8ByteSize := by
      apply String.utf8ByteSize_le_of_sublist
      rw [htext]
      exact List.sublist_append_left _ _
    rw [← hsize] at hbytes
    rw [Nat.sub_eq_zero_of_le hbytes]
    exact Nat.dvd_zero _

theorem trimSpace_ofList_replicate {c : Char} (hc : isSpace c = false) (m : ℕ) :
    trimSpace (.ofList (.replicate m c)) = .ofList (.replicate m c) := by
  have hdrop : (List.replicate m c).dropWhile isSpace = .replicate m c := by
    cases m with
    | zero => rfl
    | succ m => exact List.dropWhile_cons_of_neg (by rw [hc]; exact Bool.false_ne_true)
  rw [trimSpace, String.toList_ofList, hdrop, List.reverse_replicate, hdrop, List.reverse_replicate]

namespace Sample

def returned (logs : String) (err : Option Err) : DriverRun where
  result := some { exitCode := 0, logs, output := [], platformTrace := "" }
  err := err

def returning (run : DriverRun) : Outside := { outside ∅ none with execute := fun _ => run }

def euros (m : ℕ) : String := .ofList (.replicate m '€')

def longError (m : ℕ) : Err := .other (.ofList (.replicate m 'x'))

end Sample

section Examples

open Sample

theorem combinedLogs_euros {m : ℕ} (hm : 0 < m) :
    ∃ trace : String, trace.utf8ByteSize = 130 ∧
      combinedLogs (returning (returned (euros m) none)) (returned (euros m) none) =
        trace ++ euros m := by
  let trace := traceText (outside ∅ none).trace
  have hsize : trace.utf8ByteSize = 129 := by decide +kernel
  have htrace : trimSpace trace = trace := trimSpace_trimSpace _
  have hne : trace ≠ "" := by
    rw [ne_eq, ← String.utf8ByteSize_eq_zero_iff, hsize]
    exact Nat.succ_ne_zero _
  have htrim : trimSpace (euros m) = euros m := trimSpace_ofList_replicate (by decide +kernel) m
  have hlogs : euros m ≠ "" := by
    rw [ne_eq, ← String.utf8ByteSize_eq_zero_iff, euros, String.utf8ByteSize_ofList_replicate]
    exact Nat.mul_ne_zero hm.ne' (by decide)
  have hplatform : combineTrace "" (euros m) = euros m := by
    rw [combineTrace, if_pos (by decide +kernel), htrim]
  refine ⟨trace ++ "\n", ?_, ?_⟩
  · rw [String.utf8ByteSize_append, hsize]
    rfl
  · change combineTrace trace (combineTrace "" (euros m)) = _
    rw [hplatform, combineTrace, htrace, if_neg hne, htrim, if_neg hlogs]

theorem not_cutsNoCharacter_euros {m : ℕ} (hm : maxExecutionLogBytes < 130 + m * 3) :
    ¬ CutsNoCharacter
      (combinedLogs (returning (returned (euros m) none)) (returned (euros m) none)) := by
  have hpos : 0 < m := by
    by_contra h
    rw [Nat.eq_zero_of_not_pos h] at hm
    revert hm
    decide
  obtain ⟨trace, hsize, hlogs⟩ := combinedLogs_euros hpos
  have hchar : '€'.utf8Size = 3 := by decide
  rw [hlogs]
  rintro (hle | hvalid)
  · rw [String.utf8ByteSize_append, hsize, euros, String.utf8ByteSize_ofList_replicate,
      hchar] at hle
    exact Nat.not_lt_of_le hle hm
  · have hdvd := dvd_of_isValid_append_replicate hvalid
    rw [hsize, hchar] at hdvd
    revert hdvd
    decide

theorem le_sentBytes_longError (m : ℕ) :
    m ≤ sentBytes (returning (returned "" (some (longError m))))
      (returned "" (some (longError m))) := by
  have htext : (longError m).text.utf8ByteSize = m := by
    change (String.ofList (.replicate m 'x')).utf8ByteSize = m
    rw [String.utf8ByteSize_ofList_replicate]
    exact Nat.mul_one m
  refine le_trans ?_ (Nat.le_add_left _ _)
  change m ≤ (combineErrorMessages (some (longError m)) _).utf8ByteSize
  cases ((returning (returned "" (some (longError m)))).limited
      (returned "" (some (longError m)))).2.2 with
  | none => exact htext.ge
  | some limitErr =>
    rw [combineErrorMessages, String.utf8ByteSize_append, String.utf8ByteSize_append, htext,
      Nat.add_assoc]
    exact Nat.le_add_right _ _

theorem sent_returning (run : DriverRun) :
    ∃ log r req, (executeAssignment node (returning run) (assignment [("NAME", "value")])).Exec
        (.faultless _ _ _) log r ∧ req ∈ ran log ∧
      AgentCall.sendUpdate (finalUpdate node (returning run) (assignment [("NAME", "value")]) run) ∈
        log.map Prod.fst := by
  have hexec := Prog.exec_trace (E := .faultless _ _ _)
    (executeAssignment node (returning run) (assignment [("NAME", "value")])) (.new node)
    fun _ _ _ => trivial
  have hload (a : Agent) : ∃ bundle, foundBundle (returning run) a
      (trimSpace (assignment [("NAME", "value")]).artifactBundleKey) = .ok bundle := by
    unfold foundBundle
    rw [if_neg (by decide +kernel)]
    split
    · exact ⟨_, rfl⟩
    · exact ⟨_, rfl⟩
  obtain ⟨-, hmerge⟩ | ⟨-, req, -, hran, hsettled⟩ := executed_of_exec (fun _ _ => id) hexec
    (by decide +kernel) (fun a _ => hload a) rfl
  · cases hmerge
  refine ⟨_, _, req, hexec, by rw [hran]; exact List.mem_singleton_self _, ?_⟩
  have hends := hsettled.ending ▸ List.mem_cons_self
  exact (List.mem_filter.mp hends).1

theorem terminal_update_transmittable_sample :
    ∃ log r u, (executeAssignment node
          (returning { result := none, err := some (.other "exit") })
          (assignment [("NAME", "value")])).Exec (.faultless _ _ _) log r ∧
      AgentCall.sendUpdate u ∈ log.map Prod.fst ∧ u.state = .failed ∧ Transmittable u := by
  let run : DriverRun := { result := none, err := some (.other "exit") }
  have hlogs : (combinedLogs (returning run) run).utf8ByteSize ≤ 362 :=
    utf8ByteSize_trace_le (returning run)
  have hmin := Nat.min_le_left (combinedLogs (returning run) run).utf8ByteSize maxExecutionLogBytes
  have hlimits : ((returning run).limited run).2.2 = none :=
    (limited_ok_iff _ _).mpr ⟨hlogs.trans (by decide), Nat.zero_le _⟩
  obtain ⟨log, r, req, hexec, hreq, hsent⟩ := sent_returning run
  refine ⟨log, r, _, hexec, hsent, rfl, (terminal_update_transmittable_iff _ _ _ (fun _ _ => id)
    hexec hreq (terminal_finalUpdate run) hsent).mpr ⟨.inl (hlogs.trans (by decide)), ?_⟩⟩
  change sentBytes (returning run) run < _
  rw [sentBytes, hlimits]
  exact (Nat.add_le_add_right (Nat.add_le_add_right (hmin.trans hlogs) _) _).trans_lt
    (by decide +kernel)

/-- The terminal update need not have valid strings, and need not be below the limit. -/
theorem not_terminal_update_transmittable :
    (¬ ∀ (n : Node) (o : Outside) (msg : Assignment) (E : Environment AgentCall Agent Err)
        (log : CallLog AgentCall Agent) (r : Except Err Unit) (req : ExecuteRequest)
        (u : AssignmentUpdate), (∀ l e, ¬ E.fails l e) → (executeAssignment n o msg).Exec E log r →
        req ∈ ran log → u.terminal = true → AgentCall.sendUpdate u ∈ log.map Prod.fst →
        ValidUTF8 u.logs) ∧
    ¬ ∀ (n : Node) (o : Outside) (msg : Assignment) (E : Environment AgentCall Agent Err)
        (log : CallLog AgentCall Agent) (r : Except Err Unit) (req : ExecuteRequest)
        (u : AssignmentUpdate), (∀ l e, ¬ E.fails l e) → (executeAssignment n o msg).Exec E log r →
        req ∈ ran log → u.terminal = true → AgentCall.sendUpdate u ∈ log.map Prod.fst →
        u.logs.length + u.outputJson.length + (textBytes u.errorMessage).length <
          grpcMaxMessageBytes := by
  constructor
  · intro h
    let run := returned (euros 2800000) none
    obtain ⟨log, r, req, hexec, hreq, hsent⟩ := sent_returning run
    have hvalid := h _ _ _ _ log r req _ (fun _ _ => id) hexec hreq (terminal_finalUpdate run) hsent
    rw [logs_finalUpdate, validUTF8_cut_iff] at hvalid
    exact not_cutsNoCharacter_euros (by decide) hvalid
  · intro h
    let run := returned "" (some (longError grpcMaxMessageBytes))
    obtain ⟨log, r, req, hexec, hreq, hsent⟩ := sent_returning run
    have hsize := h _ _ _ _ log r req _ (fun _ _ => id) hexec hreq (terminal_finalUpdate run) hsent
    rw [size_finalUpdate] at hsize
    exact Nat.not_lt_of_le (le_sentBytes_longError _) hsize

end Examples

end Lecrev.NodeAgent
