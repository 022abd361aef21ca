import Lecrev.Heap.Maps
import Lecrev.NodeAgent.Outcome
import Lecrev.NodeAgent.Snapshots

/-!
# The environment of an execution

`executeAssignment` copies the variables of the assignment into a new map and writes the resolved
secrets over them. The copy of an empty map is nil (`internal/nodeagent/maps.go`), so that secrets
without variables are written to nil, which panics.

The model of the assignment has the result of this as `mergeSecrets`. Here it is computed on
references, as the source does, so that it can be told whether the map of the assignment changes.
-/

namespace Lecrev.NodeAgent

/-! ## On references -/

/-- `cloneStringMap`; the loop over `src` visits the given entries. -/
def cloneStringMap (entries : List (String × String)) (src : MapRef)
    (h : MapHeap String String) : Option (MapRef × MapHeap String String) :=
  if h.read src = ∅ then some (none, h)
  else (MapHeap.writeAll h.make.1 entries h.make.2).map fun h' => (h.make.1, h')

/-- The variables of the assignment are copied, and the secrets are written over them; the loops
visit the given entries. -/
def buildEnv (varEntries secretEntries : List (String × String)) (vars : MapRef)
    (h : MapHeap String String) : Option (MapRef × MapHeap String String) :=
  (cloneStringMap varEntries vars h).bind fun cloned =>
    (MapHeap.writeAll cloned.1 secretEntries cloned.2).map fun h' => (cloned.1, h')

section Build

variable {h : MapHeap String String} {vars : MapRef} {secrets : Env}
  {varEntries secretEntries : List (String × String)}

theorem buildEnv_of_ne_empty (hvars : h.read vars ≠ ∅)
    (hvarEntries : Enumerates varEntries (h.read vars))
    (hsecretEntries : Enumerates secretEntries secrets) :
    buildEnv varEntries secretEntries vars h =
      some (some h.length, h ++ [secrets ∪ h.read vars]) := by
  have hmade : h.length < (h ++ [(∅ : Env)]).length := by simp
  have hnew (m : Env) : MapHeap.read (h ++ [m]) (some h.length) = m := by
    simp [MapHeap.read]
  have hclone : cloneStringMap varEntries vars h = some (some h.length, h ++ [h.read vars]) := by
    rw [cloneStringMap, if_neg hvars]
    dsimp only [MapHeap.make]
    rw [MapHeap.writeAll_some hmade, foldl_insert_eq_union hvarEntries, hnew, Finmap.union_empty]
    simp
  rw [buildEnv, hclone, Option.bind_some, MapHeap.writeAll_some (by simp),
    foldl_insert_eq_union hsecretEntries, hnew]
  simp

theorem buildEnv_of_empty (hvars : h.read vars = ∅)
    (hsecretEntries : Enumerates secretEntries secrets) :
    buildEnv varEntries secretEntries vars h = if secrets = ∅ then some (none, h) else none := by
  rw [buildEnv, cloneStringMap, if_pos hvars, Option.bind_some, MapHeap.writeAll_none]
  by_cases hsecrets : secrets = ∅
  · rw [if_pos hsecrets, if_pos (hsecretEntries.isEmpty_iff.mpr hsecrets)]
    rfl
  · rw [if_neg hsecrets, if_neg fun h => hsecrets (hsecretEntries.isEmpty_iff.mp h)]
    rfl

theorem ofList_eq_empty_iff (entries : List (String × String)) :
    Env.ofList entries = ∅ ↔ entries = [] := by
  constructor
  · intro hempty
    cases entries with
    | nil => rfl
    | cons entry entries =>
      have hmem : entry.1 ∈ Env.ofList (entry :: entries) := by
        rw [Env.ofList, Finmap.mem_list_toFinmap]
        exact ⟨entry.2, List.mem_cons_self⟩
      rw [hempty] at hmem
      exact absurd hmem (Finmap.notMem_empty)
  · rintro rfl
    rfl

/-- **The environment on references.** It is built exactly when the secrets can be merged, then it
holds what `mergeSecrets` says, and no map that was there before has changed. -/
theorem buildEnv_spec {msg : Assignment} (hcontent : h.read vars = Env.ofList msg.envVars)
    (hvarEntries : Enumerates varEntries (h.read vars))
    (hsecretEntries : Enumerates secretEntries secrets) :
    (buildEnv varEntries secretEntries vars h).map (fun built => built.2.read built.1) =
        mergeSecrets msg secrets ∧
      ∀ built ∈ buildEnv varEntries secretEntries vars h, ∀ ref, h.Allocated ref →
        built.2.read ref = h.read ref := by
  by_cases hvars : h.read vars = ∅
  · have hnil : msg.envVars = [] := (ofList_eq_empty_iff _).mp (hcontent.symm.trans hvars)
    rw [buildEnv_of_empty hvars hsecretEntries, mergeSecrets, if_pos hnil]
    split
    · refine ⟨rfl, fun built hbuilt ref _ => ?_⟩
      cases hbuilt
      rfl
    · refine ⟨rfl, fun built hbuilt => ?_⟩
      cases hbuilt
  · have hne : msg.envVars ≠ [] := fun hnil => hvars (hcontent.trans (by rw [hnil]; rfl))
    rw [buildEnv_of_ne_empty hvars hvarEntries hsecretEntries, mergeSecrets, if_neg hne, hcontent]
    refine ⟨by simp [MapHeap.read], fun built hbuilt ref href => ?_⟩
    cases hbuilt
    exact MapHeap.read_append href _

end Build

/-! ## In a run -/

/-- The run calls the driver, once, with the variables of the assignment and the secrets, of which a
secret replaces the variable of the same name; and building this environment leaves the map of the
assignment as it was. -/
structure BuiltSafely (msg : Assignment) (secrets : Env)
    (varEntries secretEntries : List (String × String)) (vars : MapRef) (h : MapHeap String String)
    (log : CallLog AgentCall Agent) (r : Except Err Unit) : Prop where
  returns : r = .ok ()
  request : ∃ req, ran log = [req] ∧ (∀ name, req.env.lookup name =
    (secrets.lookup name).or ((Env.ofList msg.envVars).lookup name)) ∧
      ∃ env h', buildEnv varEntries secretEntries vars h = some (env, h') ∧
        h'.read env = req.env ∧ h'.read vars = h.read vars

theorem lookup_union (m₁ m₂ : Env) (name : String) :
    (m₁ ∪ m₂).lookup name = (m₁.lookup name).or (m₂.lookup name) := by
  cases hlookup : m₁.lookup name with
  | none =>
    rw [Finmap.lookup_union_right (Finmap.lookup_eq_none.mp hlookup), Option.none_or]
  | some value =>
    rw [Finmap.lookup_union_left (Finmap.mem_of_lookup_eq_some hlookup), hlookup, Option.some_or]

theorem lookup_of_mergeSecrets {msg : Assignment} {secrets env : Env}
    (h : mergeSecrets msg secrets = some env) (name : String) :
    env.lookup name = (secrets.lookup name).or ((Env.ofList msg.envVars).lookup name) := by
  rw [← lookup_union]
  unfold mergeSecrets at h
  split_ifs at h with hvars hsecrets
  · cases h
    rw [hsecrets, hvars]
    rfl
  · cases h
    rfl

/-- **When the environment is built safely.** Take an assignment whose bundle can be loaded in every
state that the call meets, secrets that were resolved without an error, any maps in memory with the
variables of the assignment behind a reference, and any orders of the loops. Then
`executeAssignment` does not panic, calls the driver with the variables and the secrets, of which
the secrets win, and leaves the map of the assignment as it was, exactly when the assignment has a
variable or there is no secret. Otherwise it panics. -/
theorem environment_built_iff (n : Node) (o : Outside) (msg : Assignment)
    {E : Environment AgentCall Agent Err} (hE : ∀ l e, ¬ E.fails l e)
    (hkey : trimSpace msg.artifactBundleKey ≠ "")
    (hload : ∀ a, E.meets .bundleCache a →
      ∃ bundle, foundBundle o a (trimSpace msg.artifactBundleKey) = .ok bundle)
    {secrets : Env} (hresolve : o.resolveExecution (secretsRequest n msg) = .ok secrets)
    {h : MapHeap String String} {vars : MapRef} (hallocated : h.Allocated vars)
    (hcontent : h.read vars = Env.ofList msg.envVars)
    {varEntries secretEntries : List (String × String)}
    (hvarEntries : Enumerates varEntries (h.read vars))
    (hsecretEntries : Enumerates secretEntries secrets)
    {log : CallLog AgentCall Agent} {r : Except Err Unit}
    (hexec : (executeAssignment n o msg).Exec E log r) :
    (BuiltSafely msg secrets varEntries secretEntries vars h log r ↔
      (msg.envVars ≠ [] ∨ secrets = ∅)) ∧
    (¬ (msg.envVars ≠ [] ∨ secrets = ∅) → r = .error assignmentToNilMap) := by
  obtain ⟨hread, hkept⟩ := buildEnv_spec hcontent hvarEntries hsecretEntries
  obtain ⟨rfl, hnone⟩ | ⟨rfl, req, hmerge, hran, -⟩ :=
    executed_of_exec hE hexec hkey hload hresolve
  · obtain ⟨hvars, hsecrets⟩ := mergeSecrets_eq_none_iff.mp hnone
    have hcond : ¬ (msg.envVars ≠ [] ∨ secrets = ∅) := by simp [hvars, hsecrets]
    exact ⟨iff_of_false (fun h => by cases h.returns) hcond, fun _ => rfl⟩
  · have hcond : msg.envVars ≠ [] ∨ secrets = ∅ := by
      by_contra hcond
      rw [not_or, not_not] at hcond
      rw [mergeSecrets_eq_none_iff.mpr hcond] at hmerge
      cases hmerge
    refine ⟨iff_of_true ⟨rfl, req, hran, lookup_of_mergeSecrets hmerge, ?_⟩ hcond,
      fun h => absurd hcond h⟩
    rw [hmerge, Option.map_eq_some_iff] at hread
    obtain ⟨⟨env, h'⟩, hbuilt, henv⟩ := hread
    exact ⟨env, h', hbuilt, henv, hkept _ hbuilt vars hallocated⟩

theorem enumerates_ofList {entries : List (String × String)}
    (hnodup : (entries.map Prod.fst).Nodup) : Enumerates entries (Env.ofList entries) := by
  refine ⟨hnodup, fun key value => ?_⟩
  have hkeys :
      (entries.map fun entry => (⟨entry.1, entry.2⟩ : (_ : String) × String)).NodupKeys := by
    rwa [List.NodupKeys, List.keys, List.map_map]
  rw [Env.ofList, Finmap.dlookup_list_toFinmap, ← Option.mem_def, List.mem_dlookup_iff hkeys,
    List.mem_map]
  constructor
  · exact fun hmem => ⟨_, hmem, rfl⟩
  · rintro ⟨entry, hmem, heq⟩
    cases heq
    exact hmem

section Examples

open Sample

theorem foundBundle_outside (secrets : Env) (envVars : List (String × String)) (a : Agent) :
    ∃ bundle, foundBundle (outside secrets none) a
      (trimSpace (assignment envVars).artifactBundleKey) = .ok bundle := by
  unfold foundBundle
  rw [if_neg (by change trimSpace (trimSpace "key") ≠ ""; decide +kernel)]
  split
  · exact ⟨_, rfl⟩
  · exact ⟨_, rfl⟩

theorem environment_built_sample :
    ∃ log r, BuiltSafely (assignment [("NAME", "value")]) (secret "s")
      [("NAME", "value")] [("SECRET", "s")] (some 0) [Env.ofList [("NAME", "value")]] log r := by
  have hexec := Prog.exec_trace (E := .faultless _ _ _) (executeAssignment node
    (outside (secret "s") none) (assignment [("NAME", "value")])) (.new node) fun _ _ _ => trivial
  refine ⟨_, _, (environment_built_iff node (outside (secret "s") none)
    (assignment [("NAME", "value")]) (fun _ _ => id) (by decide +kernel)
    (fun a _ => foundBundle_outside _ _ a) rfl ?_ rfl (enumerates_ofList (by simp))
    (enumerates_ofList (by simp)) hexec).1.mpr (.inl (List.cons_ne_nil _ _))⟩
  rintro addr ⟨⟩
  exact Nat.zero_lt_one

/-- A secret without variables is written to a nil map. -/
theorem not_environment_built :
    ¬ ∀ (n : Node) (o : Outside) (msg : Assignment) (E : Environment AgentCall Agent Err)
        (secrets : Env) (h : MapHeap String String) (vars : MapRef)
        (varEntries secretEntries : List (String × String)) (log : CallLog AgentCall Agent)
        (r : Except Err Unit), (∀ l e, ¬ E.fails l e) → trimSpace msg.artifactBundleKey ≠ "" →
        (∀ a, E.meets .bundleCache a →
          ∃ bundle, foundBundle o a (trimSpace msg.artifactBundleKey) = .ok bundle) →
        o.resolveExecution (secretsRequest n msg) = .ok secrets → h.Allocated vars →
        h.read vars = Env.ofList msg.envVars → Enumerates varEntries (h.read vars) →
        Enumerates secretEntries secrets → (executeAssignment n o msg).Exec E log r →
        BuiltSafely msg secrets varEntries secretEntries vars h log r := by
  intro h
  have hexec := Prog.exec_trace (E := .faultless _ _ _) (executeAssignment node
    (outside (secret "s") none) (assignment [])) (.new node) fun _ _ _ => trivial
  have hbuilt := h node (outside (secret "s") none) (assignment []) _ (secret "s") [] none []
    [("SECRET", "s")] _ _ (fun _ _ => id) (by decide +kernel)
    (fun a _ => foundBundle_outside _ _ a) rfl (fun addr haddr => by cases haddr) rfl
    (enumerates_ofList (by simp)) (enumerates_ofList (by simp)) hexec
  have hpanic : ((executeAssignment node (outside (secret "s") none) (assignment [])).run
      (.new node)).1 = .error assignmentToNilMap := by
    decide +kernel
  have hreturns := hbuilt.returns
  rw [hpanic] at hreturns
  cases hreturns

end Examples

end Lecrev.NodeAgent
