import Mathlib.Data.List.Sort
import Mathlib.Data.Prod.Lex
import Mathlib.Data.String.Basic
import Lecrev.Scheduler.Service

/-!
# Ranking the regions

`rankDispatchers` looks every region of a version up and sorts what it has learned. The order it
sorts by is the lexicographic order of `Candidate.rank`, a linear order; the comparison of the
source decides it (`Candidate.before_eq_true_iff`). As a candidate is determined by its region
(`Scheduler.candidateOf`), the result depends on the set of the regions alone.
-/

namespace Lecrev

open OrderDual (toDual)

/-- What candidates are ordered by, most important first: healthy, artifact local, smaller backlog,
more function-warm, more blank-warm, more available hosts, later heartbeat, name of the region. -/
def Candidate.rank (c : Candidate) :
    Bool ×ₗ Bool ×ₗ ℕ ×ₗ ℤᵒᵈ ×ₗ ℤᵒᵈ ×ₗ ℤᵒᵈ ×ₗ Timeᵒᵈ ×ₗ String :=
  toLex (!c.healthy, toLex (!c.artifactLocal, toLex (c.backlog,
    toLex (toDual c.stats.functionWarm, toLex (toDual c.stats.blankWarm,
      toLex (toDual c.stats.availableHosts, toLex (toDual c.lastHeartbeat, c.region)))))))

theorem lt_or_eq_and_iff {α : Type} [LinearOrder α] {a b : α} {p : Prop} :
    (a < b ∨ a = b ∧ p) ↔ if a ≠ b then a < b else p := by
  split_ifs with h
  · simp [h]
  · rw [not_not] at h
    simp [h]

theorem not_lt_not_iff {a b : Bool} (h : a ≠ b) : ((!a) < !b) ↔ a = true := by
  revert a b
  decide

theorem Candidate.before_eq_true_iff (a b : Candidate) : a.before b = true ↔ a.rank < b.rank := by
  simp only [rank, Prod.Lex.toLex_lt_toLex, lt_or_eq_and_iff, OrderDual.toDual_lt_toDual, ne_eq,
    Bool.not_inj_iff, EmbeddingLike.apply_eq_iff_eq]
  unfold before
  split_ifs <;> simp_all [not_lt_not_iff]

theorem Candidate.before_eq_false_iff (a b : Candidate) : b.before a = false ↔ a.rank ≤ b.rank := by
  rw [← not_lt, ← before_eq_true_iff, Bool.not_eq_true]

theorem Candidate.region_of_rank_eq {a b : Candidate} (h : a.rank = b.rank) :
    a.region = b.region := by
  simp only [rank, EmbeddingLike.apply_eq_iff_eq, Prod.mk.injEq] at h
  exact h.2.2.2.2.2.2.2

/-! ## What ranking learns -/

section Learn

/-- The keys of a candidate are read off the store, and where the store has no record of the region
off its dispatcher. `isLocal` says that the version's artifact is in the region. -/
structure Candidate.ReadsOff (c : Candidate) (sch : Scheduler) (now : Time) (s : Store)
    (isLocal : Prop) : Prop where
  dispatcher : sch.dispatchers c.region = some c.dispatcher
  artifactLocal : c.artifactLocal = true ↔ isLocal
  backlog : c.backlog = (s.executionJobs.values.filter fun job =>
    job.targetRegion = c.region ∧ job.state ≠ .succeeded ∧ job.state ≠ .failed).length
  stored : ∀ region, s.regions.get c.region = some region →
    c.stats.functionWarm = region.stats.functionWarm ∧ c.stats.blankWarm = region.stats.blankWarm ∧
      c.stats.availableHosts = region.stats.availableHosts ∧
      c.lastHeartbeat = region.lastHeartbeatAt ∧
      (c.healthy = true ↔ region.state = "active" ∧ (sch.healthyWithin = 0 ∨
        region.lastHeartbeatAt = 0 ∨ (now : ℤ) - region.lastHeartbeatAt ≤ sch.healthyWithin))
  unknown : s.regions.get c.region = none →
    c.stats = c.dispatcher.stats ∧ c.lastHeartbeat = 0 ∧ c.healthy = true

theorem regionHealthy_eq_true_iff (region : Region) (now maxHeartbeatAge : Time) :
    regionHealthy region now maxHeartbeatAge = true ↔
      region.state = "active" ∧ (maxHeartbeatAge = 0 ∨ region.lastHeartbeatAt = 0 ∨
        (now : ℤ) - region.lastHeartbeatAt ≤ maxHeartbeatAge) := by
  unfold regionHealthy
  split_ifs with hstate hage
  · simp [hstate]
  · simp [not_not.mp hstate, ← or_assoc, hage]
  · simp [not_not.mp hstate, ← or_assoc, hage]

/-- What is learned about a region leaves the store alone and is read off it. -/
theorem run_rankRegion {sch : Scheduler} {region : String} {dispatcher : RegionDispatcher}
    (hdispatcher : sch.dispatchers region = some dispatcher) (now : Time)
    (artifactRegions : List String) (s : Store) :
    ∃ candidate, (rankRegion sch now artifactRegions region dispatcher).run s = (.ok candidate, s) ∧
      candidate.region = region ∧ candidate.ReadsOff sch now s (region ∈ artifactRegions) := by
  have hbacklog : s.executionJobs.values.countP (fun job =>
      job.targetRegion == region && job.state != .succeeded && job.state != .failed) =
      (s.executionJobs.values.filter fun job =>
        job.targetRegion = region ∧ job.state ≠ .succeeded ∧ job.state ≠ .failed).length := by
    rw [List.countP_eq_length_filter]
    congr 2
    funext job
    rw [Bool.eq_iff_iff]
    simp [and_assoc]
  simp only [rankRegion, countActiveExecutionJobsByRegion, getRegion, Prog.run_bind, Prog.run_query,
    Prog.run_result, find]
  cases hregion : s.regions.get region with
  | none =>
    exact ⟨_, rfl, rfl, hdispatcher, List.contains_iff_mem, hbacklog,
      fun _ h => absurd (hregion.symm.trans h) (Option.some_ne_none _).symm,
      fun _ => ⟨rfl, rfl, rfl⟩⟩
  | some snapshot =>
    refine ⟨_, rfl, rfl, hdispatcher, List.contains_iff_mem, hbacklog, fun _ h => ?_,
      fun h => absurd (hregion.symm.trans h) (Option.some_ne_none _)⟩
    obtain rfl := Option.some.inj (hregion.symm.trans h)
    exact ⟨rfl, rfl, rfl, rfl, regionHealthy_eq_true_iff _ _ _⟩

/-- The regions in which the artifact of a version is available. -/
theorem run_artifactRegionIndex (digest : String) (s : Store) :
    ∃ artifactRegions, (artifactRegionIndex digest).run s = (.ok artifactRegions, s) ∧
      ∀ region, region ∈ artifactRegions ↔ digest ≠ "" ∧ ∃ artifact,
        s.artifacts.get digest = some artifact ∧ region ∈ artifact.regions.map Prod.fst := by
  unfold artifactRegionIndex
  split_ifs with hdigest
  · exact ⟨[], rfl, by simp [hdigest]⟩
  · simp only [getArtifact, Prog.run_bind, Prog.run_result, Prog.run_query, find]
    cases s.artifacts.get digest with
    | none => exact ⟨_, rfl, by simp⟩
    | some artifact => exact ⟨_, rfl, by simp [hdigest]⟩

variable (sch : Scheduler) (now : String → Time) (s : Store) (artifactRegions : List String)

/-- The candidate for a region, if it has a dispatcher. -/
def Scheduler.candidateOf (region : String) : Option Candidate :=
  (sch.dispatchers region).bind fun dispatcher =>
    ((rankRegion sch (now region) artifactRegions region dispatcher).run s).1.toOption

theorem Scheduler.isSome_candidateOf (region : String) :
    (sch.candidateOf now s artifactRegions region).isSome = (sch.dispatchers region).isSome := by
  unfold candidateOf
  cases hdispatcher : sch.dispatchers region with
  | none => rfl
  | some dispatcher =>
    obtain ⟨candidate, hrun, -⟩ := run_rankRegion hdispatcher (now region) artifactRegions s
    simp [hrun, Except.toOption]

variable {sch now s artifactRegions} in
theorem Scheduler.candidateOf_eq_some {region : String} {c : Candidate}
    (h : sch.candidateOf now s artifactRegions region = some c) :
    c.region = region ∧ c.ReadsOff sch (now region) s (region ∈ artifactRegions) := by
  obtain ⟨dispatcher, hdispatcher, hlearned⟩ := Option.bind_eq_some_iff.mp h
  obtain ⟨candidate, hrun, hreads⟩ := run_rankRegion hdispatcher (now region) artifactRegions s
  rw [hrun] at hlearned
  obtain rfl := Option.some.inj hlearned
  exact hreads

theorem run_rankRegions (regions : List String) :
    (rankRegions sch now artifactRegions regions).run s =
      (.ok (regions.filterMap (sch.candidateOf now s artifactRegions)), s) := by
  induction regions with
  | nil => rfl
  | cons region regions ih =>
    unfold rankRegions
    cases hdispatcher : sch.dispatchers region with
    | none =>
      have hnone : sch.candidateOf now s artifactRegions region = none := by
        simp [Scheduler.candidateOf, hdispatcher]
      rw [List.filterMap_cons_none hnone]
      exact ih
    | some dispatcher =>
      obtain ⟨candidate, hrun, -⟩ := run_rankRegion hdispatcher (now region) artifactRegions s
      have hsome : sch.candidateOf now s artifactRegions region = some candidate := by
        simp [Scheduler.candidateOf, hdispatcher, hrun, Except.toOption]
      rw [List.filterMap_cons_some hsome]
      simp only [Prog.run_bind, hrun, ih, Prog.run_pure]

end Learn

/-! ## The ranked candidates -/

section Rank

variable (sch : Scheduler) (now : String → Time) (version : FunctionVersion) (s : Store)

/-- The candidates of a version as the loop finds them. -/
def Scheduler.candidatesOf : List Candidate :=
  version.regions.filterMap (sch.candidateOf now s
    (((artifactRegionIndex version.artifactDigest).run s).1.toOption.getD []))

/-- What `rankDispatchers` computes. -/
theorem run_rankDispatchers :
    (rankDispatchers sch now version).run s =
      (if sch.candidatesOf now version s = [] then
        .error (.other ("no dispatcher available for [" ++ " ".intercalate version.regions ++ "]"))
      else
        .ok ((sch.candidatesOf now version s).insertionSort fun a b => b.before a = false), s) := by
  obtain ⟨artifactRegions, hindex, -⟩ := run_artifactRegionIndex version.artifactDigest s
  have hof : sch.candidatesOf now version s =
      version.regions.filterMap (sch.candidateOf now s artifactRegions) := by
    simp [Scheduler.candidatesOf, hindex, Except.toOption]
  simp only [rankDispatchers, Prog.run_bind, hindex, run_rankRegions, hof, List.isEmpty_iff]
  split_ifs <;> rfl

theorem run_rankDispatchers_snd : ((rankDispatchers sch now version).run s).2 = s := by
  rw [run_rankDispatchers]

variable {sch now version s} {candidates : List Candidate}

theorem rankDispatchers_eq_ok_iff :
    ((rankDispatchers sch now version).run s).1 = .ok candidates ↔
      sch.candidatesOf now version s ≠ [] ∧
        (sch.candidatesOf now version s).insertionSort (fun a b => b.before a = false) =
          candidates := by
  rw [run_rankDispatchers]
  split_ifs with h
  · simp [h]
  · simp [h]

variable (sch now version s) in
theorem map_region_candidatesOf :
    (sch.candidatesOf now version s).map (·.region) =
      version.regions.filter fun region => (sch.dispatchers region).isSome := by
  unfold Scheduler.candidatesOf
  generalize ((artifactRegionIndex version.artifactDigest).run s).1.toOption.getD [] =
    artifactRegions
  induction version.regions with
  | nil => rfl
  | cons region regions ih =>
    have hsome := sch.isSome_candidateOf now s artifactRegions region
    cases hof : sch.candidateOf now s artifactRegions region with
    | none =>
      rw [hof] at hsome
      rw [List.filterMap_cons_none hof, List.filter_cons_of_neg (by simp [← hsome]), ih]
    | some candidate =>
      rw [hof] at hsome
      rw [List.filterMap_cons_some hof, List.filter_cons_of_pos (by simp [← hsome]),
        List.map_cons, ih,
        (Scheduler.candidateOf_eq_some hof).1]

/-- The artifact of the version is stored and available in the region. -/
def FunctionVersion.LocalIn (version : FunctionVersion) (s : Store) (region : String) : Prop :=
  version.artifactDigest ≠ "" ∧ ∃ artifact, s.artifacts.get version.artifactDigest = some artifact ∧
    region ∈ artifact.regions.map Prod.fst

theorem readsOff_of_mem {c : Candidate} (h : c ∈ sch.candidatesOf now version s) :
    c.region ∈ version.regions ∧
      c.ReadsOff sch (now c.region) s (version.LocalIn s c.region) := by
  obtain ⟨artifactRegions, hindex, hlocal⟩ := run_artifactRegionIndex version.artifactDigest s
  simp only [Scheduler.candidatesOf, hindex, Except.toOption, Option.getD_some] at h
  obtain ⟨region, hmem, hof⟩ := List.mem_filterMap.mp h
  obtain ⟨rfl, hreads⟩ := Scheduler.candidateOf_eq_some hof
  exact ⟨hmem, by rwa [FunctionVersion.LocalIn, ← hlocal c.region]⟩

theorem mem_candidatesOf {c : Candidate} (h : c ∈ sch.candidatesOf now version s) :
    c.region ∈ version.regions ∧ sch.dispatchers c.region = some c.dispatcher :=
  ⟨(readsOff_of_mem h).1, (readsOff_of_mem h).2.dispatcher⟩

theorem mem_candidatesOf_of_ranked {c : Candidate} (hc : c ∈ candidates)
    (h : ((rankDispatchers sch now version).run s).1 = .ok candidates) :
    c ∈ sch.candidatesOf now version s := by
  rw [← (rankDispatchers_eq_ok_iff.mp h).2] at hc
  exact (List.mem_insertionSort _).mp hc

theorem eq_of_region_eq {a b : Candidate} (ha : a ∈ sch.candidatesOf now version s)
    (hb : b ∈ sch.candidatesOf now version s) (h : a.region = b.region) : a = b := by
  obtain ⟨region, -, hofa⟩ := List.mem_filterMap.mp ha
  obtain ⟨region', -, hofb⟩ := List.mem_filterMap.mp hb
  obtain rfl := (Scheduler.candidateOf_eq_some hofa).1
  obtain rfl := (Scheduler.candidateOf_eq_some hofb).1
  rw [← h, hofa] at hofb
  exact Option.some.inj hofb

theorem pairwise_insertionSort_before (l : List Candidate) :
    (l.insertionSort fun a b => b.before a = false).Pairwise fun a b => a.rank ≤ b.rank := by
  have htotal : Std.Total fun a b : Candidate => b.before a = false :=
    ⟨fun a b => by simpa only [Candidate.before_eq_false_iff] using le_total a.rank b.rank⟩
  have htrans : IsTrans Candidate fun a b => b.before a = false :=
    ⟨fun a b c => by simpa only [Candidate.before_eq_false_iff] using le_trans⟩
  refine (List.pairwise_insertionSort _ l).imp fun hab => ?_
  exact (Candidate.before_eq_false_iff _ _).mp hab

/-- The comparison is a strict total order on the candidates. -/
structure ComparesStrictly (candidates : List Candidate) : Prop where
  irrefl : ∀ a ∈ candidates, a.before a = false
  trans : ∀ a ∈ candidates, ∀ b ∈ candidates, ∀ c ∈ candidates,
    a.before b = true → b.before c = true → a.before c = true
  total : ∀ a ∈ candidates, ∀ b ∈ candidates, a.before b = true ∨ a = b ∨ b.before a = true

theorem comparesStrictly_of_mem
    (h : ∀ c ∈ candidates, c ∈ sch.candidatesOf now version s) : ComparesStrictly candidates := by
  constructor
  · intro a _
    rw [Candidate.before_eq_false_iff]
  · intro a _ b _ c _ hab hbc
    rw [Candidate.before_eq_true_iff] at hab hbc ⊢
    exact hab.trans hbc
  · intro a ha b hb
    rw [Candidate.before_eq_true_iff, Candidate.before_eq_true_iff]
    refine (lt_trichotomy a.rank b.rank).imp_right (Or.imp_left fun heq => ?_)
    exact eq_of_region_eq (h a ha) (h b hb) (Candidate.region_of_rank_eq heq)

theorem insertionSort_candidatesOf {regions : List String} (h : regions.Perm version.regions) :
    (sch.candidatesOf now { version with regions := regions } s).insertionSort
        (fun a b => b.before a = false) =
      (sch.candidatesOf now version s).insertionSort (fun a b => b.before a = false) := by
  have hperm : (sch.candidatesOf now { version with regions := regions } s).Perm
      (sch.candidatesOf now version s) := h.filterMap _
  refine List.Perm.eq_of_pairwise ?_ (pairwise_insertionSort_before _)
    (pairwise_insertionSort_before _)
    ((List.perm_insertionSort _ _).trans (hperm.trans (List.perm_insertionSort _ _).symm))
  intro a b ha hb hab hba
  -- two candidates of one rank have one region, and hence are one candidate
  rw [List.mem_insertionSort] at ha hb
  exact eq_of_region_eq (hperm.mem_iff.mp ha) hb
    (Candidate.region_of_rank_eq (le_antisymm hab hba))

variable (sch now version s) in
/-- **The ranking is a function of the set of regions.** It lists the regions that have a
dispatcher, each with that dispatcher and with its health, locality, backlog, warm counts, hosts and
heartbeat as the store has them, so that no candidate has a smaller rank than one before it. The
comparison is a strict total order on the list, and the list is the same for every order of the
version's regions. There is a list if and only if some region has a dispatcher. -/
theorem ranking_determined_by_regions :
    (∀ candidates, ((rankDispatchers sch now version).run s).1 = .ok candidates →
      (candidates.map (·.region)).Perm
          (version.regions.filter fun region => (sch.dispatchers region).isSome) ∧
        (∀ c ∈ candidates, c.ReadsOff sch (now c.region) s (version.LocalIn s c.region)) ∧
        candidates.Pairwise (fun a b => ¬ b.rank < a.rank) ∧ ComparesStrictly candidates) ∧
    ((∃ candidates, ((rankDispatchers sch now version).run s).1 = .ok candidates) ↔
      ∃ region ∈ version.regions, (sch.dispatchers region).isSome = true) ∧
    ∀ regions : List String, regions.Perm version.regions → ∀ candidates,
      ((rankDispatchers sch now { version with regions := regions }).run s).1 = .ok candidates ↔
        ((rankDispatchers sch now version).run s).1 = .ok candidates := by
  refine ⟨fun candidates h => ?_, ?_, fun regions hperm candidates => ?_⟩
  · obtain ⟨-, rfl⟩ := rankDispatchers_eq_ok_iff.mp h
    have hmem (c : Candidate) : c ∈ (sch.candidatesOf now version s).insertionSort
        (fun a b => b.before a = false) → c ∈ sch.candidatesOf now version s :=
      (List.mem_insertionSort _).mp
    refine ⟨?_, fun c hc => (readsOff_of_mem (hmem c hc)).2, ?_, comparesStrictly_of_mem hmem⟩
    · rw [← map_region_candidatesOf sch now version s]
      exact (List.perm_insertionSort _ _).map _
    · exact (pairwise_insertionSort_before _).imp not_lt.mpr
  · simp only [rankDispatchers_eq_ok_iff, exists_and_left, exists_eq', and_true]
    rw [ne_eq, ← List.map_eq_nil_iff (f := (·.region)), map_region_candidatesOf,
      List.filter_eq_nil_iff]
    push Not
    rfl
  · rw [rankDispatchers_eq_ok_iff, rankDispatchers_eq_ok_iff, insertionSort_candidatesOf hperm]
    refine and_congr_left fun _ => not_congr ?_
    have hlength := (hperm.filterMap (sch.candidateOf now s
      (((artifactRegionIndex version.artifactDigest).run s).1.toOption.getD []))).length_eq
    rw [← List.length_eq_zero_iff, ← List.length_eq_zero_iff]
    exact Eq.congr hlength rfl

end Rank

end Lecrev
