import Lecrev.NodeAgent.Updates

/-!
# Secrets and function snapshots

After an execution that succeeded the agent asks the driver for a snapshot of the function, with the
request of the execution. The environment of that request holds the resolved secrets, which so get
into the memory of the guest that is written to disk. Two runs that differ in the values of the
secrets only therefore ask for the same snapshots exactly when they ask for none.
-/

namespace Lecrev

/-- The outside, with the given secrets as the answer to `ResolveExecution`. -/
def Outside.withSecrets (o : Outside) (secrets : Env) : Outside :=
  { o with resolveExecution := fun _ => .ok secrets }

namespace NodeAgent

theorem eq_of_mergeSecrets {msg : Assignment} {secrets₁ secrets₂ env : Env}
    (hkeys : secrets₁.keys = secrets₂.keys) (h₁ : mergeSecrets msg secrets₁ = some env)
    (h₂ : mergeSecrets msg secrets₂ = some env) : secrets₁ = secrets₂ := by
  unfold mergeSecrets at h₁ h₂
  by_cases hvars : msg.envVars = []
  · rw [if_pos hvars] at h₁ h₂
    split_ifs at h₁ h₂ with hempty₁ hempty₂
    rw [hempty₁, hempty₂]
  · rw [if_neg hvars] at h₁ h₂
    have hunion : secrets₁ ∪ Env.ofList msg.envVars = secrets₂ ∪ Env.ofList msg.envVars :=
      Option.some.inj (h₁.trans h₂.symm)
    refine Finmap.ext_lookup fun name => ?_
    by_cases hmem : name ∈ secrets₁
    · have hmem' : name ∈ secrets₂ := by
        rw [← Finmap.mem_keys] at hmem ⊢
        rw [← hkeys]
        exact hmem
      -- a secret replaces the variable of the same name
      rw [← Finmap.lookup_union_left hmem, hunion, Finmap.lookup_union_left hmem']
    · have hmem' : name ∉ secrets₂ := by
        rw [← Finmap.mem_keys] at hmem ⊢
        rw [← hkeys]
        exact hmem
      rw [Finmap.lookup_eq_none.mpr hmem, Finmap.lookup_eq_none.mpr hmem']

section

variable {n : Node} {o : Outside} {msg : Assignment} {a : Agent} {secrets : Env}

/-- `executeAssignment`, started on the agent `a`, executes the request with these secrets, and the
execution succeeds. -/
structure Succeeds (n : Node) (o : Outside) (msg : Assignment) (a : Agent) (secrets : Env)
    (req : ExecuteRequest) : Prop where
  bundle : ∃ bundle, foundBundle o a (trimSpace msg.artifactBundleKey) = .ok bundle ∧
    ∃ env, mergeSecrets msg secrets = some env ∧ req = newExecuteRequest n msg bundle env
  driver : (o.execute req).err = none
  limits : (o.limited (o.execute req)).2.2 = none

theorem Succeeds.mergeSecrets {req : ExecuteRequest} (h : Succeeds n o msg a secrets req) :
    mergeSecrets msg secrets = some req.env := by
  obtain ⟨bundle, -, env, henv, rfl⟩ := h.bundle
  exact henv

theorem foundBundle_withSecrets (key : String) :
    foundBundle (o.withSecrets secrets) a key = foundBundle o a key := by
  unfold foundBundle
  rfl

theorem warmRequests_withSecrets :
    warmRequests n (o.withSecrets secrets) msg a =
      match foundBundle o a (trimSpace msg.artifactBundleKey) with
      | .error _ => []
      | .ok bundle =>
        match mergeSecrets msg secrets with
        | none => []
        | some env =>
          warmed n o (newExecuteRequest n msg bundle env)
            (o.execute (newExecuteRequest n msg bundle env)) := by
  unfold warmRequests
  split_ifs with hkey
  · rw [foundBundle, trimSpace_trimSpace, if_pos hkey]
  · rw [foundBundle_withSecrets]
    cases foundBundle o a (trimSpace msg.artifactBundleKey) with
    | error e => rfl
    | ok bundle =>
      dsimp only [resolvedRequests, Outside.withSecrets]
      cases mergeSecrets msg secrets with
      | none => rfl
      | some env => rfl

/-- A driver that prepares snapshots gets the request of an execution that succeeded. -/
theorem mem_warmRequests_iff {req : ExecuteRequest} :
    req ∈ warmRequests n (o.withSecrets secrets) msg a ↔
      n.warmer = true ∧ Succeeds n o msg a secrets req := by
  rw [warmRequests_withSecrets]
  cases hfound : foundBundle o a (trimSpace msg.artifactBundleKey) with
  | error e =>
    refine iff_of_false List.not_mem_nil ?_
    rintro ⟨-, ⟨bundle, hfound', -⟩, -⟩
    exact nomatch hfound.symm.trans hfound'
  | ok bundle =>
    dsimp only
    cases hmerge : mergeSecrets msg secrets with
    | none =>
      refine iff_of_false List.not_mem_nil ?_
      rintro ⟨-, ⟨_, -, env, hmerge', -⟩, -⟩
      exact nomatch hmerge.symm.trans hmerge'
    | some env =>
      dsimp only [warmed]
      constructor
      · intro h
        split_ifs at h with hwarm
        · obtain rfl := List.mem_singleton.mp h
          simp only [Bool.and_eq_true, Bool.not_eq_true', Bool.or_eq_false_iff,
            Option.isSome_eq_false_iff, Option.isNone_iff_eq_none] at hwarm
          exact ⟨hwarm.1, ⟨bundle, hfound, env, hmerge, rfl⟩, hwarm.2.1, hwarm.2.2⟩
        · cases h
      · rintro ⟨hwarmer, ⟨bundle', hfound', env', hmerge', rfl⟩, hdriver, hlimits⟩
        obtain rfl := Except.ok.inj (hfound.symm.trans hfound')
        obtain rfl := Option.some.inj (hmerge.symm.trans hmerge')
        rw [hwarmer, hdriver, hlimits]
        exact List.mem_singleton.mpr rfl

theorem prepared_of_ret {turns : List Select} {schedule : List Goroutine} {r : Except Err Unit}
    (ha : Idle a) (hret : (run n o msg turns a schedule).progs .assignment = .ret r) :
    (run n o msg turns a schedule).state.prepared = a.prepared ++ warmRequests n o msg a := by
  obtain ⟨-, -, hended⟩ | ⟨-, -, hopen, hnone⟩ :=
    executed_of_ret (proceeds_run False ha schedule nofun) hret
  · exact hended.2
  · rw [hnone, List.append_nil]
    exact hopen.2

end

/-- The driver prepares no snapshots, or no execution with these secrets succeeds: the bundle is not
found, the secrets cannot be written to the environment, the driver fails, or a limit is exceeded.
-/
def NoSnapshot (n : Node) (o : Outside) (msg : Assignment) (a : Agent) (secrets : Env) : Prop :=
  n.warmer = false ∨ ∀ req, ¬ Succeeds n o msg a secrets req

theorem warmRequests_eq_nil_iff {n : Node} {o : Outside} {msg : Assignment} {a : Agent}
    {secrets : Env} :
    warmRequests n (o.withSecrets secrets) msg a = [] ↔ NoSnapshot n o msg a secrets := by
  rw [List.eq_nil_iff_forall_not_mem, NoSnapshot]
  cases hwarmer : n.warmer <;> simp [mem_warmRequests_iff, hwarmer]

theorem warmRequests_eq_iff {n : Node} {o : Outside} {msg : Assignment} {a : Agent}
    {secrets₁ secrets₂ : Env} (hkeys : secrets₁.keys = secrets₂.keys) :
    warmRequests n (o.withSecrets secrets₁) msg a = warmRequests n (o.withSecrets secrets₂) msg a ↔
      secrets₁ = secrets₂ ∨ (NoSnapshot n o msg a secrets₁ ∧ NoSnapshot n o msg a secrets₂) := by
  rw [← warmRequests_eq_nil_iff, ← warmRequests_eq_nil_iff]
  constructor
  · intro heq
    cases hreqs : warmRequests n (o.withSecrets secrets₁) msg a with
    | nil => exact .inr ⟨rfl, by rw [← heq, hreqs]⟩
    | cons req reqs =>
      have hmem₁ : req ∈ warmRequests n (o.withSecrets secrets₁) msg a := by simp [hreqs]
      have hmem₂ : req ∈ warmRequests n (o.withSecrets secrets₂) msg a := heq ▸ hmem₁
      exact .inl (eq_of_mergeSecrets hkeys (mem_warmRequests_iff.mp hmem₁).2.mergeSecrets
        (mem_warmRequests_iff.mp hmem₂).2.mergeSecrets)
  · rintro (rfl | ⟨h₁, h₂⟩)
    · rfl
    · rw [h₁, h₂]

/-- **Secrets flow into snapshots.** Take two runs of `executeAssignment`, in any schedules, with
the same assignment, agent, object store and driver, in which the resolver returns secrets with the
same names. They hand the same requests to `PrepareFunctionWarm` exactly when the values of the
secrets are the same too, or neither run gives rise to a snapshot. -/
theorem snapshot_requests_eq_iff (n : Node) (o : Outside) (msg : Assignment)
    {secrets₁ secrets₂ : Env} (hkeys : secrets₁.keys = secrets₂.keys) {a : Agent} (ha : Idle a)
    {turns₁ turns₂ : List Select} {schedule₁ schedule₂ : List Goroutine}
    {r₁ r₂ : Except Err Unit}
    (hret₁ : (run n (o.withSecrets secrets₁) msg turns₁ a schedule₁).progs .assignment = .ret r₁)
    (hret₂ : (run n (o.withSecrets secrets₂) msg turns₂ a schedule₂).progs .assignment = .ret r₂) :
    (run n (o.withSecrets secrets₁) msg turns₁ a schedule₁).state.prepared =
        (run n (o.withSecrets secrets₂) msg turns₂ a schedule₂).state.prepared ↔
      secrets₁ = secrets₂ ∨ (NoSnapshot n o msg a secrets₁ ∧ NoSnapshot n o msg a secrets₂) := by
  rw [prepared_of_ret ha hret₁, prepared_of_ret ha hret₂, List.append_cancel_left_eq]
  exact warmRequests_eq_iff hkeys

section Examples

open Sample

def Sample.secret (value : String) : Env := .ofList [("SECRET", value)]

theorem snapshot_requests_eq_iff_sample :
    (secret "a").keys = (secret "b").keys ∧
    ∃ schedule₁ schedule₂,
      (run node ((outside ∅ (some (.other "exit"))).withSecrets (secret "a"))
        (assignment [("NAME", "value")]) [] (.new node) schedule₁).state.prepared =
      (run node ((outside ∅ (some (.other "exit"))).withSecrets (secret "b"))
        (assignment [("NAME", "value")]) [] (.new node) schedule₂).state.prepared := by
  have hkeys : (secret "a").keys = (secret "b").keys := by decide
  obtain ⟨k₁, r₁, hret₁⟩ := Pool.exists_ret (.start (.new node)
    (goroutine node ((outside ∅ (some (.other "exit"))).withSecrets (secret "a"))
      (assignment [("NAME", "value")]) [])) .assignment
  obtain ⟨k₂, r₂, hret₂⟩ := Pool.exists_ret (.start (.new node)
    (goroutine node ((outside ∅ (some (.other "exit"))).withSecrets (secret "b"))
      (assignment [("NAME", "value")]) [])) .assignment
  rw [← List.map_replicate] at hret₁ hret₂
  refine ⟨hkeys, .replicate k₁ .assignment, .replicate k₂ .assignment, ?_⟩
  rw [snapshot_requests_eq_iff _ _ _ hkeys (idle_new node) hret₁ hret₂]
  -- the driver fails
  exact .inr ⟨.inr fun _ h => (nomatch h.driver), .inr fun _ h => (nomatch h.driver)⟩

/-- The value of a secret reaches `PrepareFunctionWarm`. -/
theorem not_snapshot_requests_eq :
    ¬ ∀ (n : Node) (o : Outside) (msg : Assignment) (secrets₁ secrets₂ : Env) (a : Agent)
        (turns₁ turns₂ : List Select) (schedule₁ schedule₂ : List Goroutine)
        (r₁ r₂ : Except Err Unit), secrets₁.keys = secrets₂.keys → Idle a →
        (run n (o.withSecrets secrets₁) msg turns₁ a schedule₁).progs .assignment = .ret r₁ →
        (run n (o.withSecrets secrets₂) msg turns₂ a schedule₂).progs .assignment = .ret r₂ →
        (run n (o.withSecrets secrets₁) msg turns₁ a schedule₁).state.prepared =
          (run n (o.withSecrets secrets₂) msg turns₂ a schedule₂).state.prepared := by
  intro h
  have hkeys : (secret "a").keys = (secret "b").keys := by decide
  obtain ⟨k₁, r₁, hret₁⟩ := Pool.exists_ret (.start (.new node)
    (goroutine node ((outside ∅ none).withSecrets (secret "a"))
      (assignment [("NAME", "value")]) [])) .assignment
  obtain ⟨k₂, r₂, hret₂⟩ := Pool.exists_ret (.start (.new node)
    (goroutine node ((outside ∅ none).withSecrets (secret "b"))
      (assignment [("NAME", "value")]) [])) .assignment
  rw [← List.map_replicate] at hret₁ hret₂
  have heq := h _ _ _ _ _ _ _ _ _ _ _ _ hkeys (idle_new node) hret₁ hret₂
  rw [prepared_of_ret (idle_new node) hret₁, prepared_of_ret (idle_new node) hret₂,
    List.append_cancel_left_eq, warmRequests_eq_iff hkeys] at heq
  -- the values differ, and the first run asks for a snapshot
  obtain hsame | ⟨hnone, -⟩ := heq
  · revert hsame
    decide
  · rw [← warmRequests_eq_nil_iff] at hnone
    revert hnone
    decide +kernel

end Examples

end NodeAgent

end Lecrev
