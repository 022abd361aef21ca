import Lecrev.Concurrency.RelyGuarantee

/-!
# Calls whose answer is lost

A call that fails may have taken effect all the same: the answer of a store can get lost on its way
back. `Pool.Fault` adds such a move to those of `Pool.Move`; the thread goes on as after a failure,
but the state has changed.

A thread that is safe although the others do what it guarantees itself is also safe when its own
call took effect without its knowledge. So `Pool.faulty_exec_safe` is the rely-guarantee rule with
the one difference that a thread relies on its own guarantee as well. -/

namespace Pool

/-- The next call of a thread is made, fails without an effect, or takes effect and fails. -/
inductive Fault (ι ε : Type)
  | run (i : ι)
  | fail (i : ι) (e : ε)
  | lost (i : ι) (e : ε)

variable {ι ℓ σ γ ε α : Type} [DecidableEq ι]

/-- Make a move; a thread that has returned stays as it is. -/
def faultStep (c : Pool ι ℓ σ ε α) : Fault ι ε → Pool ι ℓ σ ε α
  | .run i => c.step (.run i)
  | .fail i e => c.step (.fail i e)
  | .lost i e =>
    match c.progs i with
    | .ret _ => c
    | .call l eff _ fail =>
      { state := eff c.state
        progs := Function.update c.progs i (fail e)
        log := (i, l) :: c.log }

/-- The pool with calls whose answer may get lost. -/
def faulty : Transition.System (Pool ι ℓ σ ε α) (Fault ι ε) where
  step := faultStep
  enabled _ _ := True

theorem progs_faulty_exec_run {c : Pool ι ℓ σ ε α} {i j : ι} (hij : j ≠ i) (k : ℕ) :
    (faulty.exec c (.replicate k (.run i))).progs j = c.progs j := by
  induction k generalizing c with
  | zero => rfl
  | succ k ih =>
    refine (ih (c := c.step (.run i))).trans ?_
    cases hprog : c.progs i with
    | ret r => rw [step_run_of_ret hprog]
    | call l eff next fail =>
      rw [step_run hprog]
      exact Function.update_of_ne hij _ _

/-- What one thread guarantees all threads may rely on, itself included. -/
def Tolerant (P : ι → Protocol ℓ σ γ) : Prop :=
  ∀ i j l g s g' s', (P i).guar l g s g' s' → (P j).rely g s g' s'

variable {P : ι → Protocol ℓ σ γ} {Q : ι → Except ε α → γ → σ → Prop}
  {I : γ → σ → List (ι × ℓ) → Prop}

theorem AllSafe.lost (hP : Tolerant P) (hI : Keeping P I) (hmeets : ∀ i l s, (P i).meets l s)
    (hfallible : ∀ i l, (P i).fallible l) {c : Pool ι ℓ σ ε α} (hc : AllSafe P Q I c) (i : ι)
    (e : ε) : AllSafe P Q I (c.faultStep (.lost i e)) := by
  obtain ⟨g, hinv, hsafe⟩ := hc
  cases hprog : c.progs i with
  | ret r =>
    rw [faultStep, hprog]
    exact ⟨g, hinv, hsafe⟩
  | call l eff next fail =>
    have hi := hsafe i
    rw [hprog] at hi
    obtain ⟨hmade, hfailed⟩ := hi g c.state ((P i).rely_refl g c.state)
    obtain ⟨g', hguar, -⟩ := hmade (hmeets i l c.state)
    rw [faultStep, hprog]
    refine ⟨g', hI i l _ _ _ _ _ hguar hinv, fun k => ?_⟩
    by_cases hk : k = i
    · subst hk
      simp only [Function.update_self]
      exact (hfailed (hfallible k l) e).of_rely (hP k k l _ _ _ _ hguar)
    · simp only [Function.update_of_ne hk]
      exact (hsafe k).of_rely (hP i k l _ _ _ _ hguar)

/-- **The rely-guarantee rule with lost answers.** Threads that are safe stay so in every run, and
the invariant that their guarantees keep holds throughout. -/
theorem faulty_exec_safe (hP : Tolerant P) (hI : Keeping P I) (hmeets : ∀ i l s, (P i).meets l s)
    (hfallible : ∀ i l, (P i).fallible l) {c : Pool ι ℓ σ ε α} (hc : AllSafe P Q I c)
    (ms : List (Fault ι ε)) : AllSafe P Q I (faulty.exec c ms) := by
  have hcompatible : Compatible P := fun i j _ => hP i j
  refine faulty.exec_invariant ms hc fun c m hc => ?_
  cases m with
  | run i =>
    exact hc.step (m := .run i) hcompatible hI fun l _ _ _ _ => hmeets i l c.state
  | fail i e =>
    exact hc.step (m := .fail i e) hcompatible hI fun l _ _ _ _ => hfallible i l
  | lost i e => exact hc.lost hP hI hmeets hfallible i e

/-- An invariant that every call of every program keeps holds throughout, although answers get
lost. -/
theorem faulty_exec_keeps {J : σ → Prop} {G : ℓ → σ → σ → Prop} {s : σ} {progs : ι → Prog ℓ σ ε α}
    (hprogs : ∀ i, (progs i).Keeps J G) (hs : J s) (ms : List (Fault ι ε)) :
    J (faulty.exec (start s progs) ms).state := by
  have hguarded : Guarded J (fun _ => G) (faulty.exec (start s progs) ms) := by
    refine faulty.exec_invariant ms ⟨hs, hprogs⟩ fun c m hc => ?_
    cases m with
    | run i => exact (hc.step_cases (.run i)).1
    | fail i e => exact (hc.step_cases (.fail i e)).1
    | lost i e =>
      simp only [faulty, faultStep]
      split
      · exact hc
      · next hprog =>
        have hi := hc.keeps i
        rw [hprog] at hi
        exact ⟨(hi.1 _ hc.inv).1, hc.update (hi.2 e)⟩
  exact hguarded.inv

end Pool
