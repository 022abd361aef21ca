import Lecrev.Concurrency.Sequential

/-!
# Two runs in lockstep

Two programs run alone, each from its own state, and make the same calls: as long as neither has
returned, the next calls have the same label, and they succeed or fail together. `Prog.Lockstep V`
says that all such pairs of runs end together, with results and states in `V`.

`Prog.Lockstep.runWith`: two runs with the same failures.
-/

namespace Prog

variable {ℓ σ ε α α' β β' : Type}

/-- The two programs make the same calls from the two states, and end in `V`. -/
def Lockstep (V : Except ε α → σ → Except ε α' → σ → Prop) :
    Prog ℓ σ ε α → σ → Prog ℓ σ ε α' → σ → Prop
  | ret r, s, ret r', s' => V r s r' s'
  | call l eff next fail, s, call l' eff' next' fail', s' =>
    l = l' ∧ (next s).Lockstep V (eff s) (next' s') (eff' s') ∧
      ∀ e, (fail e).Lockstep V s (fail' e) s'
  | ret _, _, call _ _ _ _, _ => False
  | call _ _ _ _, _, ret _, _ => False

section Rules

variable {V : Except ε α → σ → Except ε α' → σ → Prop} {s s' : σ}

theorem lockstep_ret {r : Except ε α} {r' : Except ε α'} :
    (ret r : Prog ℓ σ ε α).Lockstep V s (ret r') s' ↔ V r s r' s' := Iff.rfl

theorem lockstep_pure {a : α} {a' : α'} :
    (pure a : Prog ℓ σ ε α).Lockstep V s (pure a') s' ↔ V (.ok a) s (.ok a') s' := Iff.rfl

theorem lockstep_throw {e e' : ε} :
    (throw e : Prog ℓ σ ε α).Lockstep V s (throw e') s' ↔ V (.error e) s (.error e') s' := Iff.rfl

theorem lockstep_query {l : ℓ} {f : σ → Except ε α} {f' : σ → Except ε α'} :
    (query l f).Lockstep V s (query l f') s' ↔
      V (f s) s (f' s') s' ∧ ∀ e, V (.error e) s (.error e) s' :=
  ⟨fun h => h.2, fun h => ⟨rfl, h⟩⟩

theorem lockstep_action {l : ℓ} {f : σ → Except ε α × σ} {f' : σ → Except ε α' × σ} :
    (action l f).Lockstep V s (action l f') s' ↔
      V (f s).1 (f s).2 (f' s').1 (f' s').2 ∧ ∀ e, V (.error e) s (.error e) s' :=
  ⟨fun h => h.2, fun h => ⟨rfl, h⟩⟩

theorem Lockstep.mono {V' : Except ε α → σ → Except ε α' → σ → Prop} {p : Prog ℓ σ ε α}
    {p' : Prog ℓ σ ε α'} (h : p.Lockstep V s p' s')
    (hV : ∀ r s r' s', V r s r' s' → V' r s r' s') : p.Lockstep V' s p' s' := by
  induction p generalizing s p' s' with
  | ret r =>
    cases p' with
    | ret r' => exact hV r s r' s' h
    | call l' eff' next' fail' => exact h
  | call l eff next fail ihnext ihfail =>
    cases p' with
    | ret r' => exact h
    | call l' eff' next' fail' => exact ⟨h.1, ihnext s h.2.1, fun e => ihfail e (h.2.2 e)⟩

/-- What follows a program that has returned. -/
def andThen (f : α → Prog ℓ σ ε β) : Except ε α → Prog ℓ σ ε β
  | .ok a => f a
  | .error e => ret (.error e)

theorem Lockstep.bind {V : Except ε β → σ → Except ε β' → σ → Prop} {p : Prog ℓ σ ε α}
    {p' : Prog ℓ σ ε α'} {f : α → Prog ℓ σ ε β} {f' : α' → Prog ℓ σ ε β'}
    (h : p.Lockstep (fun r t r' t' => (andThen f r).Lockstep V t (andThen f' r') t') s p' s') :
    (p >>= f).Lockstep V s (p' >>= f') s' := by
  change (p.bind f).Lockstep V s (p'.bind f') s'
  induction p generalizing s p' s' with
  | ret r =>
    cases p' with
    | ret r' => cases r <;> cases r' <;> exact h
    | call l' eff' next' fail' => exact h.elim
  | call l eff next fail ihnext ihfail =>
    cases p' with
    | ret r' => exact h.elim
    | call l' eff' next' fail' => exact ⟨h.1, ihnext s h.2.1, fun e => ihfail e (h.2.2 e)⟩

theorem Lockstep.result {V : Except ε (Except ε α) → σ → Except ε (Except ε α') → σ → Prop}
    {p : Prog ℓ σ ε α} {p' : Prog ℓ σ ε α'}
    (h : p.Lockstep (fun r t r' t' => V (.ok r) t (.ok r') t') s p' s') :
    p.result.Lockstep V s p'.result s' := by
  induction p generalizing s p' s' with
  | ret r =>
    cases p' with
    | ret r' => exact h
    | call l' eff' next' fail' => exact h.elim
  | call l eff next fail ihnext ihfail =>
    cases p' with
    | ret r' => exact h.elim
    | call l' eff' next' fail' => exact ⟨h.1, ihnext s h.2.1, fun e => ihfail e (h.2.2 e)⟩

theorem Lockstep.runWith {p : Prog ℓ σ ε α} {p' : Prog ℓ σ ε α'} (h : p.Lockstep V s p' s')
    (faults : ℕ → Option ε) :
    V (p.runWith faults s).result (p.runWith faults s).state (p'.runWith faults s').result
      (p'.runWith faults s').state := by
  induction p generalizing s p' s' faults with
  | ret r =>
    cases p' with
    | ret r' => exact h
    | call l' eff' next' fail' => exact h.elim
  | call l eff next fail ihnext ihfail =>
    cases p' with
    | ret r' => exact h.elim
    | call l' eff' next' fail' =>
      cases hfault : faults 0 with
      | none =>
        rw [runWith_call_of_none hfault, runWith_call_of_none hfault]
        exact ihnext s h.2.1 _
      | some e =>
        rw [runWith_call_of_some hfault, runWith_call_of_some hfault]
        exact ihfail e (h.2.2 e) _

end Rules

-- The rules above are all that is used of `Lockstep`; unfolding it would execute the programs.
attribute [irreducible] Lockstep

end Prog
