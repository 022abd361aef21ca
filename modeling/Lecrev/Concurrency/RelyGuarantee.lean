import Lecrev.Concurrency.Pool

/-!
# Rely-guarantee reasoning about interleavings

A thread that knows something about the shared state keeps that knowledge only as long as the other
threads respect it. A `Protocol` says what a thread relies on the others to do and what it
guarantees to them. `Prog.Safe` says that a program, started in a given state, keeps its side of a
protocol as long as the others keep theirs; it is checked call by call for each thread alone.
`Pool.exec_safe` puts the threads together.

A protocol may speak about ghost state, which no program reads and which a call may change as the
proof sees fit; who owns a resource is a typical use. It also names the calls that may fail, and the
states in which a call is made: a run is only considered if its moves respect both.
-/

/-- The rules a thread and its environment follow on a shared state `σ` and a ghost state `γ`. -/
structure Protocol (ℓ σ γ : Type) where
  /-- What the other threads may do. -/
  rely : γ → σ → γ → σ → Prop
  /-- What a call of the thread may do. -/
  guar : ℓ → γ → σ → γ → σ → Prop
  /-- The states in which the thread makes a call. -/
  meets : ℓ → σ → Prop
  /-- The calls that may fail. -/
  fallible : ℓ → Prop
  rely_refl : ∀ g s, rely g s g s
  rely_trans : ∀ {g s g' s' g'' s''},
    rely g s g' s' → rely g' s' g'' s'' → rely g s g'' s''

namespace Prog

variable {ℓ σ γ ε α β : Type} {P : Protocol ℓ σ γ}

/-- Started from the given ghost state and state, the program guarantees what the protocol asks of
each of its calls, and ends in `Q`, as long as the environment does what the protocol relies on. -/
def Safe (P : Protocol ℓ σ γ) (Q : Except ε α → γ → σ → Prop) : Prog ℓ σ ε α → γ → σ → Prop
  | ret r, g, s => ∀ g' s', P.rely g s g' s' → Q r g' s'
  | call l eff next fail, g, s => ∀ g' s', P.rely g s g' s' →
    (P.meets l s' → ∃ g'', P.guar l g' s' g'' (eff s') ∧ (next s').Safe P Q g'' (eff s')) ∧
      (P.fallible l → ∀ e, (fail e).Safe P Q g' s')

variable {Q : Except ε α → γ → σ → Prop} {p : Prog ℓ σ ε α} {J : γ → σ → Prop}
  {Q' : Except ε β → γ → σ → Prop} {g : γ} {s : σ}

theorem Safe.of_rely {g' : γ} {s' : σ} (h : p.Safe P Q g s) (hrely : P.rely g s g' s') :
    p.Safe P Q g' s' := by
  cases p with
  | ret r => exact fun g'' s'' h' => h g'' s'' (P.rely_trans hrely h')
  | call l eff next fail => exact fun g'' s'' h' => h g'' s'' (P.rely_trans hrely h')

theorem Safe.ret_post {r : Except ε α} (h : (ret r : Prog ℓ σ ε α).Safe P Q g s) : Q r g s :=
  h g s (P.rely_refl g s)

theorem Safe.mono {Q' : Except ε α → γ → σ → Prop} (h : p.Safe P Q g s)
    (hQ : ∀ r g s, Q r g s → Q' r g s) : p.Safe P Q' g s := by
  induction p generalizing g s with
  | ret r => exact fun g' s' hrely => hQ r g' s' (h g' s' hrely)
  | call l eff next fail ihnext ihfail =>
    intro g' s' hrely
    refine ⟨fun hmeets => ?_, fun hfallible e => ihfail e ((h g' s' hrely).2 hfallible e)⟩
    obtain ⟨g'', hguar, hnext⟩ := (h g' s' hrely).1 hmeets
    exact ⟨g'', hguar, ihnext s' hnext⟩

theorem Safe.bind {f : α → Prog ℓ σ ε β} (hp : p.Safe P Q g s)
    (hf : ∀ a g s, Q (.ok a) g s → (f a).Safe P Q' g s)
    (herror : ∀ e g s, Q (.error e) g s → Q' (.error e) g s) : (p >>= f).Safe P Q' g s := by
  change (p.bind f).Safe P Q' g s
  induction p generalizing g s with
  | ret r =>
    cases r with
    | ok a => exact hf a g s hp.ret_post
    | error e => exact fun g' s' hrely => herror e g' s' (hp g' s' hrely)
  | call l eff next fail ihnext ihfail =>
    intro g' s' hrely
    refine ⟨fun hmeets => ?_, fun hfallible e => ihfail e ((hp g' s' hrely).2 hfallible e)⟩
    obtain ⟨g'', hguar, hnext⟩ := (hp g' s' hrely).1 hmeets
    exact ⟨g'', hguar, ihnext s' hnext⟩

/-- A specification: started where `J` holds, the program is safe and ends in `Q`. -/
structure Meets (P : Protocol ℓ σ γ) (J : γ → σ → Prop) (Q : Except ε α → γ → σ → Prop)
    (p : Prog ℓ σ ε α) : Prop where
  safe : ∀ {g s}, J g s → p.Safe P Q g s

theorem Meets.of_imp {J' : γ → σ → Prop} (h : p.Meets P J Q) (hJ : ∀ g s, J' g s → J g s) :
    p.Meets P J' Q :=
  ⟨fun hs => h.safe (hJ _ _ hs)⟩

theorem Meets.of_pure {φ : Prop} (h : φ → p.Meets P J Q) : p.Meets P (fun g s => φ ∧ J g s) Q :=
  ⟨fun hs => (h hs.1).safe hs.2⟩

theorem Meets.then {K : γ → σ → Prop} {Q : Except ε β → γ → σ → Prop} {f : α → Prog ℓ σ ε β}
    (hp : p.Meets P J fun r g s => (∃ a, r = .ok a) ∧ K g s) (hf : ∀ a, (f a).Meets P K Q) :
    (p >>= f).Meets P J Q := by
  refine ⟨fun hs => (hp.safe hs).bind (fun a _ _ h => (hf a).safe h.2) fun e _ _ h => ?_⟩
  obtain ⟨⟨a, ha⟩, -⟩ := h
  cases ha

theorem Safe.bind_meets {f : α → Prog ℓ σ ε β} (hp : p.Safe P Q g s)
    (hf : ∀ a, (f a).Meets P (Q (.ok a)) Q')
    (herror : ∀ e g s, Q (.error e) g s → Q' (.error e) g s) : (p >>= f).Safe P Q' g s :=
  hp.bind (fun a _ _ h => (hf a).safe h) herror

theorem Safe.result {Q : Except ε (Except ε α) → γ → σ → Prop}
    (hp : p.Safe P (fun r => Q (.ok r)) g s) : p.result.Safe P Q g s := by
  induction p generalizing g s with
  | ret r => exact hp
  | call l eff next fail ihnext ihfail =>
    intro g' s' hrely
    refine ⟨fun hmeets => ?_, fun hfallible e => ihfail e ((hp g' s' hrely).2 hfallible e)⟩
    obtain ⟨g'', hguar, hnext⟩ := (hp g' s' hrely).1 hmeets
    exact ⟨g'', hguar, ihnext s' hnext⟩

theorem Safe.result_bind {f : Except ε α → Prog ℓ σ ε β} (hp : p.Safe P Q g s)
    (hf : ∀ r g s, Q r g s → (f r).Safe P Q' g s) : (p.result >>= f).Safe P Q' g s := by
  have hresult : p.result.Safe P (fun r g s => ∃ r', r = .ok r' ∧ Q r' g s) g s :=
    Safe.result (hp.mono fun r g s hr => ⟨r, rfl, hr⟩)
  refine hresult.bind (fun r g s hr => ?_) fun e g s hr => ?_
  · obtain ⟨r', hr', hQ⟩ := hr
    cases hr'
    exact hf r g s hQ
  · obtain ⟨r', hr', -⟩ := hr
    cases hr'

theorem Meets.result_bind {f : Except ε α → Prog ℓ σ ε β} (hp : p.Meets P J Q)
    (hf : ∀ r, (f r).Meets P (Q r) Q') : (p.result >>= f).Meets P J Q' :=
  ⟨fun hs => (hp.safe hs).result_bind fun r _ _ h => (hf r).safe h⟩

theorem Safe.and_returns {R : α → Prop} (h : p.Safe P Q g s) (hr : p.Returns R) :
    p.Safe P (fun r g s => Q r g s ∧ ∀ a, r = .ok a → R a) g s := by
  induction p generalizing g s with
  | ret r =>
    intro g' s' hrely
    refine ⟨h g' s' hrely, ?_⟩
    rintro a rfl
    exact hr
  | call l eff next fail ihnext ihfail =>
    intro g' s' hrely
    refine ⟨fun hmeets => ?_, fun hfallible e =>
      ihfail e ((h g' s' hrely).2 hfallible e) (hr.2 e)⟩
    obtain ⟨g'', hguar, hnext⟩ := (h g' s' hrely).1 hmeets
    exact ⟨g'', hguar, ihnext s' hnext (hr.1 s')⟩

theorem safe_query {l : ℓ} {f : σ → Except ε α} (hs : J g s)
    (hstable : ∀ {g s g' s'}, P.rely g s g' s' → J g s → J g' s')
    (hguar : ∀ {g s}, J g s → P.guar l g s g s) :
    (query l f).Safe P (fun r g s => J g s ∧
      ∀ a, r = .ok a → ∃ g₀ s₀, J g₀ s₀ ∧ f s₀ = .ok a ∧ P.rely g₀ s₀ g s) g s := by
  intro g' s' hrely
  have hs' := hstable hrely hs
  refine ⟨fun _ => ⟨g', hguar hs', fun g'' s'' hrely' => ?_⟩, fun _ e g'' s'' hrely' => ?_⟩
  · exact ⟨hstable hrely' hs', fun a ha => ⟨g', s', hs', ha, hrely'⟩⟩
  · exact ⟨hstable hrely' hs', nofun⟩

theorem safe_modify {K : γ → σ → Prop} {l : ℓ} {f : σ → σ} (hs : J g s)
    (hstable : ∀ {g s g' s'}, P.rely g s g' s' → J g s → J g' s')
    (hstable' : ∀ {g s g' s'}, P.rely g s g' s' → K g s → K g' s')
    (hguar : ∀ {g s}, J g s → ∃ g', P.guar l g s g' (f s) ∧ K g' (f s)) :
    (modify l f : Prog ℓ σ ε Unit).Safe P
      (fun r g s => (r = .ok () → K g s) ∧ ∀ e, r = .error e → J g s) g s := by
  intro g' s' hrely
  have hs' := hstable hrely hs
  obtain ⟨g'', hcall, hpost⟩ := hguar hs'
  refine ⟨fun _ => ⟨g'', hcall, fun g₃ s₃ hrely' => ?_⟩, fun _ e g₃ s₃ hrely' => ?_⟩
  · exact ⟨fun _ => hstable' hrely' hpost, nofun⟩
  · exact ⟨nofun, fun _ _ => hstable hrely' hs'⟩

/-- A program whose calls keep an invariant is safe when its calls keep to the guarantee without a
change of the ghost state, and leaves what its calls and the environment keep. -/
theorem Keeps.safe {I : σ → Prop} {G : ℓ → σ → σ → Prop} (hp : p.Keeps I G) (hs : J g s)
    (hJ : ∀ {g s}, J g s → I s) (hstable : ∀ {g s g' s'}, P.rely g s g' s' → J g s → J g' s')
    (hguar : ∀ {l g s s'}, J g s → I s' → G l s s' → P.guar l g s g s' ∧ J g s') :
    p.Safe P (fun _ => J) g s := by
  induction p generalizing g s with
  | ret r => exact fun g' s' hrely => hstable hrely hs
  | call l eff next fail ihnext ihfail =>
    intro g' s' hrely
    have hs' := hstable hrely hs
    obtain ⟨heff, hcall, hnext⟩ := hp.1 s' (hJ hs')
    obtain ⟨hg, hJ'⟩ := hguar hs' heff hcall
    exact ⟨fun _ => ⟨g', hg, ihnext s' hnext hJ'⟩, fun _ e => ihfail e (hp.2 e) hs'⟩

theorem Safe.of_succeeds (h : p.Safe P Q g s) (hp : p.Succeeds) (hfallible : ∀ l, ¬ P.fallible l) :
    p.Safe P (fun r g s => (∃ a, r = .ok a) ∧ Q r g s) g s := by
  induction p generalizing g s with
  | ret r => exact fun g' s' hrely => ⟨hp, h g' s' hrely⟩
  | call l eff next fail ihnext ihfail =>
    intro g' s' hrely
    refine ⟨fun hmeets => ?_, fun h => absurd h (hfallible l)⟩
    obtain ⟨g'', hguar, hnext⟩ := (h g' s' hrely).1 hmeets
    exact ⟨g'', hguar, ihnext s' hnext (hp s')⟩

end Prog

namespace Pool

variable {ι ℓ σ γ ε α : Type} [DecidableEq ι]

/-- What one thread guarantees the others may rely on. -/
def Compatible (P : ι → Protocol ℓ σ γ) : Prop :=
  ∀ i j, i ≠ j → ∀ l g s g' s', (P i).guar l g s g' s' → (P j).rely g s g' s'

/-- A move respects the protocol of its thread: a call is made in a state in which it may be made,
and only calls that may fail do. -/
def Admits (P : ι → Protocol ℓ σ γ) (c : Pool ι ℓ σ ε α) : Move ι ε → Prop
  | .run i => ∀ l eff next fail, c.progs i = .call l eff next fail → (P i).meets l c.state
  | .fail i _ => ∀ l eff next fail, c.progs i = .call l eff next fail → (P i).fallible l

/-- Every thread is safe from a common ghost state, of which, with the state and the calls made so
far, the invariant holds. -/
def AllSafe (P : ι → Protocol ℓ σ γ) (Q : ι → Except ε α → γ → σ → Prop)
    (I : γ → σ → List (ι × ℓ) → Prop) (c : Pool ι ℓ σ ε α) : Prop :=
  ∃ g, I g c.state c.log ∧ ∀ i, (c.progs i).Safe (P i) (Q i) g c.state

/-- The invariant survives every call that keeps to its thread's guarantee. -/
def Keeping (P : ι → Protocol ℓ σ γ) (I : γ → σ → List (ι × ℓ) → Prop) : Prop :=
  ∀ i l g s g' s' log, (P i).guar l g s g' s' → I g s log → I g' s' ((i, l) :: log)

variable {P : ι → Protocol ℓ σ γ} {Q : ι → Except ε α → γ → σ → Prop}
  {I : γ → σ → List (ι × ℓ) → Prop}

/-- **What a move does** in a pool of safe threads: the state stays as it is, or the thread that
moves made a call that keeps to its guarantee. All threads are safe again: the thread itself by its
program, the others because they rely on what it guarantees. -/
theorem AllSafe.step_cases (hP : Compatible P) (hI : Keeping P I) {c : Pool ι ℓ σ ε α}
    {m : Move ι ε} (hm : Admits P c m) (hc : AllSafe P Q I c) :
    ((c.step m).state = c.state ∧ AllSafe P Q I (c.step m)) ∨
      ∃ i l g g', m = .run i ∧ I g c.state c.log ∧ (P i).guar l g c.state g' (c.step m).state ∧
        I g' (c.step m).state (c.step m).log ∧
        ∀ k, ((c.step m).progs k).Safe (P k) (Q k) g' (c.step m).state := by
  obtain ⟨g, hinv, hsafe⟩ := hc
  cases m with
  | run i =>
    cases hprog : c.progs i with
    | ret r =>
      rw [step_run_of_ret hprog]
      exact .inl ⟨rfl, g, hinv, hsafe⟩
    | call l eff next fail =>
      rw [step_run hprog]
      have hi := hsafe i
      rw [hprog] at hi
      obtain ⟨g', hguar, hnext⟩ :=
        (hi g c.state ((P i).rely_refl g c.state)).1 (hm l eff next fail hprog)
      refine .inr ⟨i, l, g, g', rfl, hinv, hguar, hI i l _ _ _ _ _ hguar hinv, fun k => ?_⟩
      by_cases hk : k = i
      · subst hk
        simpa only [Function.update_self] using hnext
      · simp only [Function.update_of_ne hk]
        exact (hsafe k).of_rely (hP i k (Ne.symm hk) l _ _ _ _ hguar)
  | fail i e =>
    cases hprog : c.progs i with
    | ret r =>
      rw [step_fail_of_ret hprog]
      exact .inl ⟨rfl, g, hinv, hsafe⟩
    | call l eff next fail =>
      rw [step_fail hprog]
      have hi := hsafe i
      rw [hprog] at hi
      refine .inl ⟨rfl, g, hinv, fun k => ?_⟩
      by_cases hk : k = i
      · subst hk
        simp only [Function.update_self]
        exact (hi g c.state ((P k).rely_refl g c.state)).2 (hm l eff next fail hprog) e
      · simp only [Function.update_of_ne hk]
        exact hsafe k

/-- An admitted step keeps the pool safe. -/
theorem AllSafe.step (hP : Compatible P) (hI : Keeping P I) {c : Pool ι ℓ σ ε α} {m : Move ι ε}
    (hm : Admits P c m) (hc : AllSafe P Q I c) : AllSafe P Q I (c.step m) := by
  obtain ⟨-, hsafe⟩ | ⟨i, l, g, g', -, -, -, hinv, hsafe⟩ := hc.step_cases hP hI hm
  · exact hsafe
  · exact ⟨g', hinv, hsafe⟩

/-- **The rely-guarantee rule.** Threads that are safe under compatible protocols stay so in every
run that respects the protocols, and the invariant that their guarantees keep holds throughout. -/
theorem exec_safe (hP : Compatible P) (hI : Keeping P I) {c : Pool ι ℓ σ ε α} (hc : AllSafe P Q I c)
    {ms : List (Move ι ε)} (hms : system.EveryStep (Admits P) c ms) :
    AllSafe P Q I (system.exec c ms) :=
  hms.invariant hc fun _ _ hm h => h.step hP hI hm

theorem exec_safe_of_total (hP : Compatible P) (hI : Keeping P I)
    (hmeets : ∀ i l s, (P i).meets l s) (hfallible : ∀ i l, (P i).fallible l) {c : Pool ι ℓ σ ε α}
    (hc : AllSafe P Q I c) (ms : List (Move ι ε)) :
    AllSafe P Q I (system.exec c ms) := by
  refine exec_safe hP hI hc (system.everyStep_of_forall (fun c m => ?_) c ms)
  cases m with
  | run i => exact fun l _ _ _ _ => hmeets i l c.state
  | fail i e => exact fun l _ _ _ _ => hfallible i l

end Pool
