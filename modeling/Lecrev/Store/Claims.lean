import Lecrev.Store.Memory

/-!
# Claiming jobs

`ClaimNextExecutionJob` and `RequeueStaleExecutionJobs` of `internal/store/memory` iterate over a Go
map, in an order that is different from run to run. Here the order is an argument of the loops: any
permutation of the stored jobs.
-/

namespace Lecrev

namespace Claims

/-- `ClaimNextExecutionJob`, with the jobs scanned in the given order. -/
def claimIn (order : List ExecutionJob) (fromStates : List JobState) (toState : JobState)
    (now : Time) (s : Store) : Except Err ExecutionJob × Store :=
  match nextClaim fromStates order with
  | none => (.error (.notFound ""), s)
  | some job => (.ok (job.claimed toState now), s.setJob (job.claimed toState now))

/-- A job that `RequeueStaleExecutionJobs` rewrites. -/
def Stale (fromState : JobState) (staleBefore : ℤ) (job : ExecutionJob) : Prop :=
  job.state = fromState ∧ (job.updatedAt : ℤ) ≤ staleBefore

instance (fromState : JobState) (staleBefore : ℤ) : DecidablePred (Stale fromState staleBefore) :=
  fun _ => inferInstanceAs (Decidable (_ ∧ _))

/-- The job as `RequeueStaleExecutionJobs` rewrites it. -/
def requeued (toState : JobState) (now : Time) (errorMessage : String) (job : ExecutionJob) :
    ExecutionJob :=
  { job with
    state := toState
    targetRegion := ""
    error := requeueError errorMessage job
    updatedAt := now }

/-- `RequeueStaleExecutionJobs`, with the jobs visited in the given order. -/
def requeueIn (order : List ExecutionJob) (fromState toState : JobState) (staleBefore : ℤ)
    (now : Time) (errorMessage : String) (s : Store) : ℕ × Store :=
  order.foldl (fun acc job =>
    if job.state ≠ fromState then acc
    else if (job.updatedAt : ℤ) > staleBefore then acc
    else (acc.1 + 1, acc.2.setJob (requeued toState now errorMessage job))) (0, s)

/-! ## The jobs in their order -/

/-- The stored jobs in the wanted states, those to be claimed first in front. -/
def eligible (fromStates : List JobState) (s : Store) : List ExecutionJob :=
  (s.executionJobs.values.filter fun job => fromStates.contains job.state).insertionSort
    fun a b => a.claimKey ≤ b.claimKey

section Order

variable {fromStates : List JobState} {toState : JobState} {now : Time} {s t : Store}
  {order : List ExecutionJob} {job : ExecutionJob}

theorem id_of_claimKey_eq {a b : ExecutionJob} (h : a.claimKey = b.claimKey) : a.id = b.id := by
  simp only [ExecutionJob.claimKey, EmbeddingLike.apply_eq_iff_eq, Prod.mk.injEq] at h
  exact h.2.2

theorem mem_eligible :
    job ∈ eligible fromStates s ↔
      s.executionJobs.get job.id = some job ∧ job.state ∈ fromStates := by
  unfold eligible
  rw [List.mem_insertionSort, mem_filter_state, Table.mem_values]
  rfl

theorem eq_of_mem_eligible {a b : ExecutionJob} (ha : a ∈ eligible fromStates s)
    (hb : b ∈ eligible fromStates s) (h : a.id = b.id) : a = b := by
  have hgeta := (mem_eligible.mp ha).1
  have hgetb := (mem_eligible.mp hb).1
  rw [h, hgetb] at hgeta
  exact (Option.some.inj hgeta).symm

theorem nodup_eligible : (eligible fromStates s).Nodup := by
  unfold eligible
  rw [(List.perm_insertionSort _ _).nodup_iff]
  exact s.executionJobs.values_nodup.filter _

theorem sorted_eligible :
    (eligible fromStates s).Pairwise fun a b => a.claimKey ≤ b.claimKey :=
  List.pairwise_insertionSort _ _

theorem strictly_sorted_eligible :
    (eligible fromStates s).Pairwise fun a b => a.claimKey < b.claimKey := by
  refine (sorted_eligible.and nodup_eligible).imp_of_mem fun ha hb ⟨hle, hne⟩ => ?_
  refine lt_of_le_of_ne hle fun heq => hne ?_
  exact eq_of_mem_eligible ha hb (id_of_claimKey_eq heq)

theorem eq_of_sorted {l : List ExecutionJob}
    (hsorted : l.Pairwise fun a b => a.claimKey ≤ b.claimKey)
    (hnodup : l.Nodup) (hmem : ∀ a, a ∈ l ↔ a ∈ eligible fromStates s) :
    l = eligible fromStates s := by
  refine List.Perm.eq_of_pairwise ?_ hsorted sorted_eligible
    ((List.perm_ext_iff_of_nodup hnodup nodup_eligible).mpr hmem)
  intro a b ha hb hab hba
  exact eq_of_mem_eligible ((hmem a).mp ha) hb (id_of_claimKey_eq (le_antisymm hab hba))

/-- **The scan finds the first eligible job**, in every order of the iteration. -/
theorem nextClaim_eq_head? (horder : order.Perm s.executionJobs.values) :
    nextClaim fromStates order = (eligible fromStates s).head? := by
  have hmem (a : ExecutionJob) :
      a ∈ order.filter (fun job => fromStates.contains job.state) ↔ a ∈ eligible fromStates s := by
    rw [mem_filter_state, horder.mem_iff, mem_eligible, Table.mem_values]
    rfl
  rw [nextClaim_eq_argmin]
  cases hscan : (order.filter fun job => fromStates.contains job.state).argmin
      ExecutionJob.claimKey with
  | none =>
    have hnil := List.argmin_eq_none.mp hscan
    cases heligible : eligible fromStates s with
    | nil => rfl
    | cons a rest =>
      have ha : a ∈ eligible fromStates s := by
        rw [heligible]
        exact List.mem_cons_self
      rw [← hmem, hnil] at ha
      cases ha
  | some m =>
    have hm : m ∈ eligible fromStates s := (hmem m).mp (List.argmin_mem hscan)
    have hleast (a : ExecutionJob) (ha : a ∈ eligible fromStates s) : m.claimKey ≤ a.claimKey :=
      List.le_of_mem_argmin ((hmem a).mpr ha) hscan
    -- the head is at most `m`, and `m` is least
    cases heligible : eligible fromStates s with
    | nil =>
      rw [heligible] at hm
      cases hm
    | cons a rest =>
      have ha : a ∈ eligible fromStates s := by
        rw [heligible]
        exact List.mem_cons_self
      have hsorted : (eligible fromStates s).Pairwise fun a b => a.claimKey ≤ b.claimKey :=
        sorted_eligible
      rw [heligible] at hsorted hm
      have hle : a.claimKey ≤ m.claimKey := by
        obtain rfl | hrest := List.mem_cons.mp hm
        · exact le_rfl
        · exact (List.pairwise_cons.mp hsorted).1 m hrest
      rw [← heligible] at hm
      rw [eq_of_mem_eligible hm ha (id_of_claimKey_eq (le_antisymm (hleast a ha) hle))]
      rfl

theorem claimIn_of_nil (horder : order.Perm s.executionJobs.values)
    (h : eligible fromStates s = []) :
    claimIn order fromStates toState now s = (.error (.notFound ""), s) := by
  unfold claimIn
  rw [nextClaim_eq_head? horder, h]
  rfl

theorem claimIn_of_cons {rest : List ExecutionJob} (horder : order.Perm s.executionJobs.values)
    (h : eligible fromStates s = job :: rest) :
    claimIn order fromStates toState now s =
      (.ok (job.claimed toState now), s.setJob (job.claimed toState now)) := by
  unfold claimIn
  rw [nextClaim_eq_head? horder, h]
  rfl

/-- A claim takes the first eligible job off the list. -/
theorem eligible_setJob {rest : List ExecutionJob} (hto : toState ∉ fromStates)
    (h : eligible fromStates s = job :: rest) :
    eligible fromStates (s.setJob (job.claimed toState now)) = rest := by
  have hsorted : (eligible fromStates s).Pairwise fun a b => a.claimKey ≤ b.claimKey :=
    sorted_eligible
  have hnodup : (eligible fromStates s).Nodup := nodup_eligible
  rw [h] at hsorted hnodup
  refine (eq_of_sorted (List.pairwise_cons.mp hsorted).2 (List.nodup_cons.mp hnodup).2
    fun a => ?_).symm
  have hmem : job ∈ eligible fromStates s := by
    rw [h]
    exact List.mem_cons_self
  have hjob : s.executionJobs.get job.id = some job := (mem_eligible.mp hmem).1
  have hrest : a ∈ rest ↔ a ∈ eligible fromStates s ∧ a ≠ job := by
    rw [h, List.mem_cons]
    constructor
    · intro ha
      refine ⟨.inr ha, ?_⟩
      rintro rfl
      exact (List.nodup_cons.mp hnodup).1 ha
    · rintro ⟨rfl | ha, hne⟩
      · exact absurd rfl hne
      · exact ha
  rw [hrest, mem_eligible, mem_eligible, Store.getJob_setJob]
  by_cases hid : a.id = job.id
  · -- under this identifier there are `job` before and the claimed job after
    have hclaimed : a.id = (job.claimed toState now).id := hid
    rw [if_pos hclaimed, hid, hjob]
    constructor
    · rintro ⟨⟨heq, -⟩, hne⟩
      exact absurd (Option.some.inj heq).symm hne
    · rintro ⟨heq, hstate⟩
      rw [← Option.some.inj heq] at hstate
      exact absurd hstate hto
  · have hclaimed : a.id ≠ (job.claimed toState now).id := hid
    rw [if_neg hclaimed, and_iff_left]
    rintro rfl
    exact hid rfl

end Order

/-! ## One claim -/

/-- What a claim is to return and to leave. -/
structure ClaimsLeast (fromStates : List JobState) (toState : JobState) (now : Time) (s : Store)
    (out : Except Err ExecutionJob × Store) : Prop where
  /-- Nothing is found exactly when no job is in a wanted state. -/
  empty : (∃ e, out.1 = .error e) ↔ ∀ job ∈ s.executionJobs.values, job.state ∉ fromStates
  /-- The error is `ErrNotFound`, and nothing is written with it. -/
  notFound : ∀ e, out.1 = .error e → e = .notFound "" ∧ out.2 = s
  /-- Otherwise the least job in a wanted state is returned, with its new state and time, and it is
  the only one that is written. -/
  least : ∀ claimed, out.1 = .ok claimed → ∃ job ∈ s.executionJobs.values,
    job.state ∈ fromStates ∧
    (∀ other ∈ s.executionJobs.values, other.state ∈ fromStates → other ≠ job →
      job.claimKey < other.claimKey) ∧
    claimed = { job with state := toState, updatedAt := now } ∧
    out.2 = { s with executionJobs := out.2.executionJobs } ∧
    ∀ k, out.2.executionJobs.get k = if k = job.id then some claimed else s.executionJobs.get k

/-- Every walk claims the least job. -/
theorem claimsLeast_claimIn (fromStates : List JobState) (toState : JobState) (now : Time)
    {s : Store} {order : List ExecutionJob} (horder : order.Perm s.executionJobs.values) :
    ClaimsLeast fromStates toState now s (claimIn order fromStates toState now s) := by
  have hstored (job : ExecutionJob) : job ∈ s.executionJobs.values ∧ job.state ∈ fromStates ↔
      job ∈ eligible fromStates s := by
    rw [mem_eligible, Table.mem_values]
    rfl
  have hsorted : (eligible fromStates s).Pairwise fun a b => a.claimKey < b.claimKey :=
    strictly_sorted_eligible
  cases heligible : eligible fromStates s with
  | nil =>
    rw [claimIn_of_nil horder heligible]
    refine ⟨⟨fun _ job hjob hstate => ?_, fun _ => ⟨_, rfl⟩⟩, ?_, ?_⟩
    · have := (hstored job).mp ⟨hjob, hstate⟩
      rw [heligible] at this
      cases this
    · rintro e ⟨⟩
      exact ⟨rfl, rfl⟩
    · rintro claimed ⟨⟩
  | cons job rest =>
    have hmem : job ∈ eligible fromStates s := by
      rw [heligible]
      exact List.mem_cons_self
    obtain ⟨hjob, hstate⟩ := (hstored job).mpr hmem
    rw [claimIn_of_cons horder heligible]
    refine ⟨⟨?_, fun hnone => absurd hstate (hnone job hjob)⟩, ?_, ?_⟩
    · rintro ⟨e, ⟨⟩⟩
    · rintro e ⟨⟩
    · rintro claimed ⟨⟩
      refine ⟨job, hjob, hstate, fun other hother hwanted hne => ?_, rfl, rfl, fun k => ?_⟩
      · have hlater := (hstored other).mp ⟨hother, hwanted⟩
        rw [heligible] at hlater hsorted
        obtain rfl | hlater := List.mem_cons.mp hlater
        · exact absurd rfl hne
        · exact (List.pairwise_cons.mp hsorted).1 other hlater
      · exact Store.getJob_setJob s (job.claimed toState now) k

/-! ## Claims one after the other -/

/-- Claims at the given instants, each with an order of iteration of its own, without other writes
in between. -/
inductive ClaimRun (fromStates : List JobState) (toState : JobState) :
    Store → List Time → List (Except Err ExecutionJob) → Prop
  | done (s : Store) : ClaimRun fromStates toState s [] []
  | claim {s : Store} {now : Time} {nows : List Time} {results : List (Except Err ExecutionJob)}
      (order : List ExecutionJob) (horder : order.Perm s.executionJobs.values)
      (rest : ClaimRun fromStates toState (claimIn order fromStates toState now s).2 nows results) :
      ClaimRun fromStates toState s (now :: nows)
        ((claimIn order fromStates toState now s).1 :: results)

/-- What claims one after the other are to return: the `i`-th claim returns the `i`-th eligible job,
and nothing when there are no more; no job is returned twice. -/
structure ReturnsInOrder (fromStates : List JobState) (toState : JobState) (s : Store)
    (nows : List Time) (results : List (Except Err ExecutionJob)) : Prop where
  inOrder : ∀ i : ℕ, results[i]? = nows[i]?.map fun now =>
    (eligible fromStates s)[i]?.elim (.error (.notFound ""))
      fun job => .ok (job.claimed toState now)
  distinct : ∀ (i j : ℕ) (a b : ExecutionJob), i < j → results[i]? = some (.ok a) →
    results[j]? = some (.ok b) → a.id ≠ b.id

section Run

variable {fromStates : List JobState} {toState : JobState} {s : Store} {nows : List Time}
  {results : List (Except Err ExecutionJob)}

theorem getElem?_results (hto : toState ∉ fromStates)
    (h : ClaimRun fromStates toState s nows results) (i : ℕ) :
    results[i]? = nows[i]?.map fun now => (eligible fromStates s)[i]?.elim (.error (.notFound ""))
      fun job => .ok (job.claimed toState now) := by
  induction h generalizing i with
  | done s => rfl
  | @claim s now nows results order horder rest ih =>
    cases heligible : eligible fromStates s with
    | nil =>
      rw [claimIn_of_nil horder heligible] at ih ⊢
      rw [heligible] at ih
      cases i with
      | zero => rfl
      | succ i => exact ih i
    | cons job jobs =>
      rw [claimIn_of_cons horder heligible] at ih ⊢
      rw [eligible_setJob hto heligible] at ih
      cases i with
      | zero => rfl
      | succ i => exact ih i

theorem id_ne_of_lt (hto : toState ∉ fromStates) (h : ClaimRun fromStates toState s nows results)
    {i j : ℕ} (hij : i < j) {a b : ExecutionJob} (ha : results[i]? = some (.ok a))
    (hb : results[j]? = some (.ok b)) : a.id ≠ b.id := by
  -- the results are the eligible jobs at these positions, up to their states and times
  have hresult (k : ℕ) (c : ExecutionJob) (hc : results[k]? = some (.ok c)) :
      ∃ job, (eligible fromStates s)[k]? = some job ∧ job.id = c.id := by
    rw [getElem?_results hto h] at hc
    obtain ⟨now, -, hnow⟩ := Option.map_eq_some_iff.mp hc
    cases hjob : (eligible fromStates s)[k]? with
    | none =>
      rw [hjob] at hnow
      cases hnow
    | some job =>
      rw [hjob] at hnow
      cases hnow
      exact ⟨job, rfl, rfl⟩
  obtain ⟨job, hjob, hjobid⟩ := hresult i a ha
  obtain ⟨other, hother, hotherid⟩ := hresult j b hb
  intro hid
  have hsame : job = other := eq_of_mem_eligible (List.mem_of_getElem? hjob)
    (List.mem_of_getElem? hother) (hjobid.trans (hid.trans hotherid.symm))
  obtain ⟨hi, rfl⟩ := List.getElem?_eq_some_iff.mp hjob
  obtain ⟨hj, rfl⟩ := List.getElem?_eq_some_iff.mp hother
  exact absurd ((nodup_eligible.getElem_inj_iff).mp hsame) hij.ne

end Run

/-! ## Requeueing -/

section Requeue

variable (fromState toState : JobState) (staleBefore : ℤ) (now : Time) (errorMessage : String)

/-- What requeueing stale jobs is to return and to leave. -/
structure RequeuesStale (s : Store) (out : ℕ × Store) : Prop where
  /-- The number of the stale jobs is returned. -/
  count : out.1 = s.executionJobs.values.countP (Stale fromState staleBefore)
  /-- The stale jobs are rewritten. -/
  stale : ∀ k job, s.executionJobs.get k = some job → Stale fromState staleBefore job →
    out.2.executionJobs.get k = some (requeued toState now errorMessage job)
  /-- Nothing else is. -/
  others : ∀ k, (∀ job, s.executionJobs.get k = some job → ¬ Stale fromState staleBefore job) →
    out.2.executionJobs.get k = s.executionJobs.get k
  rest : out.2 = { s with executionJobs := out.2.executionJobs }

/-- The rewritten jobs, in the order in which they are visited. -/
def rewritten (order : List ExecutionJob) : List ExecutionJob :=
  (order.filter (Stale fromState staleBefore)).map (requeued toState now errorMessage)

theorem rewritten_cons_of_stale {job : ExecutionJob} (order : List ExecutionJob)
    (h : Stale fromState staleBefore job) :
    rewritten fromState toState staleBefore now errorMessage (job :: order) =
      requeued toState now errorMessage job ::
        rewritten fromState toState staleBefore now errorMessage order := by
  unfold rewritten
  rw [List.filter_cons_of_pos (by simpa using h), List.map_cons]

theorem rewritten_cons_of_not_stale {job : ExecutionJob} (order : List ExecutionJob)
    (h : ¬ Stale fromState staleBefore job) :
    rewritten fromState toState staleBefore now errorMessage (job :: order) =
      rewritten fromState toState staleBefore now errorMessage order := by
  unfold rewritten
  rw [List.filter_cons_of_neg (by simpa using h)]

theorem foldl_requeue (order : List ExecutionJob) (n : ℕ) (s : Store) :
    order.foldl (fun acc job =>
        if job.state ≠ fromState then acc
        else if (job.updatedAt : ℤ) > staleBefore then acc
        else (acc.1 + 1, acc.2.setJob (requeued toState now errorMessage job))) (n, s) =
      (n + order.countP (Stale fromState staleBefore),
        { s with executionJobs := (rewritten fromState toState staleBefore now errorMessage
          order).foldl Table.put s.executionJobs }) := by
  induction order generalizing n s with
  | nil => rfl
  | cons job order ih =>
    rw [List.foldl_cons]
    by_cases hstale : Stale fromState staleBefore job
    · rw [if_neg (not_not.mpr hstale.1), if_neg (not_lt.mpr hstale.2), ih,
        List.countP_cons_of_pos (by simpa using hstale)]
      refine Prod.ext ?_ ?_
      · simp only
        omega
      · rw [rewritten_cons_of_stale _ _ _ _ _ _ hstale]
        rfl
    · have hskip : (if job.state ≠ fromState then (n, s)
          else if (job.updatedAt : ℤ) > staleBefore then (n, s)
          else (n + 1, s.setJob (requeued toState now errorMessage job))) = (n, s) := by
        split_ifs with hstate htime
        · rfl
        · rfl
        · exact absurd ⟨not_not.mp hstate, not_lt.mp htime⟩ hstale
      rw [hskip, ih, List.countP_cons_of_neg (by simpa using hstale),
        rewritten_cons_of_not_stale _ _ _ _ _ _ hstale]

/-- Every walk requeues the stale jobs. -/
theorem requeuesStale_requeueIn {s : Store} {order : List ExecutionJob}
    (horder : order.Perm s.executionJobs.values) :
    RequeuesStale fromState toState staleBefore now errorMessage s
      (requeueIn order fromState toState staleBefore now errorMessage s) := by
  unfold requeueIn
  rw [foldl_requeue]
  have hnodup : ((rewritten fromState toState staleBefore now errorMessage order).map
      Keyed.key).Nodup := by
    have hkeys : (rewritten fromState toState staleBefore now errorMessage order).map Keyed.key =
        (order.filter (Stale fromState staleBefore)).map Keyed.key := by
      rw [rewritten, List.map_map]
      rfl
    have horderKeys : (order.map Keyed.key).Nodup :=
      (horder.map _).nodup_iff.mpr s.executionJobs.map_key_values_nodup
    rw [hkeys]
    exact horderKeys.sublist (List.filter_sublist.map _)
  constructor
  · rw [Nat.zero_add, horder.countP_eq]
  · intro k job hjob hstale
    have hkey : Keyed.key job = k := Table.key_of_get hjob
    refine (Table.get_foldl_put_eq_some hnodup _).mpr (.inl ⟨?_, hkey⟩)
    refine List.mem_map.mpr ⟨job, List.mem_filter.mpr ⟨?_, decide_eq_true hstale⟩, rfl⟩
    exact horder.mem_iff.mpr (Table.mem_values_of_get hjob)
  · intro k hk
    refine Table.get_foldl_put_of_ne (fun v hv => ?_) _
    obtain ⟨job, hjob, rfl⟩ := List.mem_map.mp hv
    obtain ⟨hmem, hstale⟩ := List.mem_filter.mp hjob
    rintro rfl
    exact hk job ((Table.mem_values _ _).mp (horder.mem_iff.mp hmem)) (of_decide_eq_true hstale)
  · rfl

end Requeue

/-! ## The result -/

/-- **Claiming is exact and fair**, and requeueing is exact. In every order of the iteration, a
claim returns the least job in a wanted state and writes nothing else. Claims one after the other
return the jobs that were eligible at first in their order, no job twice, and then nothing.
Requeueing rewrites the stale jobs only, and returns their number. -/
theorem claims_exact_and_fair (s : Store) {fromStates : List JobState} {toState : JobState}
    (hto : toState ∉ fromStates) :
    (∀ order now, order.Perm s.executionJobs.values →
      ClaimsLeast fromStates toState now s (claimIn order fromStates toState now s)) ∧
    (∀ nows results, ClaimRun fromStates toState s nows results →
      ReturnsInOrder fromStates toState s nows results) ∧
    ∀ order fromState toState staleBefore now errorMessage, order.Perm s.executionJobs.values →
      RequeuesStale fromState toState staleBefore now errorMessage s
        (requeueIn order fromState toState staleBefore now errorMessage s) := by
  refine ⟨fun order now => claimsLeast_claimIn fromStates toState now, fun nows results hrun => ?_,
    fun order fromState toState staleBefore now errorMessage =>
      requeuesStale_requeueIn fromState toState staleBefore now errorMessage⟩
  exact ⟨getElem?_results hto hrun, fun i j a b hij => id_ne_of_lt hto hrun hij⟩

/-- A store with two jobs that wait since the same instant. -/
def twoJobs : Store :=
  let job (id : String) : ExecutionJob :=
    { id, functionVersionID := "v", projectID := "p", state := .queued, payload := [],
      maxRetries := 0, createdAt := 1, updatedAt := 1 }
  (Store.new.setJob (job "b")).setJob (job "a")

theorem claimsLeast_twoJobs : JobState.scheduling ∉ [JobState.queued, JobState.retrying] ∧
    ClaimsLeast [.queued, .retrying] .scheduling 2 twoJobs
      (claimIn twoJobs.executionJobs.values [.queued, .retrying] .scheduling 2 twoJobs) ∧
    (claimIn twoJobs.executionJobs.values [.queued, .retrying] .scheduling 2
      twoJobs).1.toOption.map (·.id) = some "a" := by
  have hto : JobState.scheduling ∉ [JobState.queued, JobState.retrying] := by decide
  exact ⟨hto, (claims_exact_and_fair twoJobs hto).1 _ 2 (.refl _), by decide +kernel⟩

end Claims

end Lecrev
