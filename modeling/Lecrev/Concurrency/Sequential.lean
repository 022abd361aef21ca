import Lecrev.Concurrency.Program

/-!
# Programs that run alone, with calls that may fail

`Prog.run` executes a program without interruption and without failures. Here the program still
runs alone, but every call with a label in `F` may also fail, with any error and without an effect.
`Prog.Ends F Q s` says that every such run from `s` ends in `Q`; the failures are the only choice
that is left, so it is the weakest precondition of `Q`.
-/

namespace Prog

variable {ℓ σ ε α β : Type} {F : ℓ → Prop}

/-- Every run of the program alone from the given state, in which the calls with a label in `F` may
fail, ends with a result and a state in `Q`. -/
def Ends (F : ℓ → Prop) (Q : Except ε α → σ → Prop) : Prog ℓ σ ε α → σ → Prop
  | ret r, s => Q r s
  | call l eff next fail, s =>
    (next s).Ends F Q (eff s) ∧ (F l → ∀ e, (fail e).Ends F Q s)

variable {Q : Except ε α → σ → Prop} {s : σ} {l : ℓ} {f : α → Prog ℓ σ ε β}

@[simp]
theorem ends_ret {r : Except ε α} :
    (ret r : Prog ℓ σ ε α).Ends F Q s ↔ Q r s := Iff.rfl

@[simp]
theorem ends_pure {a : α} :
    (pure a : Prog ℓ σ ε α).Ends F Q s ↔ Q (.ok a) s := Iff.rfl

@[simp]
theorem ends_throw {e : ε} :
    (throw e : Prog ℓ σ ε α).Ends F Q s ↔ Q (.error e) s := Iff.rfl

@[simp]
theorem ends_query {f : σ → Except ε α} :
    (query l f).Ends F Q s ↔ Q (f s) s ∧ (F l → ∀ e, Q (.error e) s) := Iff.rfl

@[simp]
theorem ends_modify {Q : Except ε Unit → σ → Prop} {f : σ → σ} :
    (modify l f).Ends F Q s ↔ Q (.ok ()) (f s) ∧ (F l → ∀ e, Q (.error e) s) := Iff.rfl

@[simp]
theorem ends_action {f : σ → Except ε α × σ} :
    (action l f).Ends F Q s ↔ Q (f s).1 (f s).2 ∧ (F l → ∀ e, Q (.error e) s) := Iff.rfl

variable {p : Prog ℓ σ ε α}

theorem Ends.mono {Q' : Except ε α → σ → Prop} (h : p.Ends F Q s) (hQ : ∀ r s, Q r s → Q' r s) :
    p.Ends F Q' s := by
  induction p generalizing s with
  | ret r => exact hQ r s h
  | call l eff next fail ihnext ihfail =>
    exact ⟨ihnext s h.1, fun hl e => ihfail e (h.2 hl e)⟩

theorem Ends.anti {F' : ℓ → Prop} (h : p.Ends F Q s) (hF : ∀ l, F' l → F l) : p.Ends F' Q s := by
  induction p generalizing s with
  | ret r => exact h
  | call l eff next fail ihnext ihfail =>
    exact ⟨ihnext s h.1, fun hl e => ihfail e (h.2 (hF l hl) e)⟩

theorem Ends.and {Q' : Except ε α → σ → Prop} (h : p.Ends F Q s) (h' : p.Ends F Q' s) :
    p.Ends F (fun r s => Q r s ∧ Q' r s) s := by
  induction p generalizing s with
  | ret r => exact ⟨h, h'⟩
  | call l eff next fail ihnext ihfail =>
    exact ⟨ihnext s h.1 h'.1, fun hl e => ihfail e (h.2 hl e) (h'.2 hl e)⟩

theorem ends_true (p : Prog ℓ σ ε α) (s : σ) : p.Ends F (fun _ _ => True) s := by
  induction p generalizing s with
  | ret r => trivial
  | call l eff next fail ihnext ihfail => exact ⟨ihnext s (eff s), fun _ e => ihfail e s⟩

theorem ends_of_imp {φ : Prop} (h : φ → p.Ends F Q s) : p.Ends F (fun r s => φ → Q r s) s := by
  by_cases hφ : φ
  · exact (h hφ).mono fun _ _ hQ _ => hQ
  · exact (ends_true p s).mono fun _ _ _ h => absurd h hφ

/-- What a sequence does after its first part has returned. -/
def After (F : ℓ → Prop) (Q : Except ε β → σ → Prop) (f : α → Prog ℓ σ ε β) :
    Except ε α → σ → Prop
  | .ok a, s => (f a).Ends F Q s
  | .error e, s => Q (.error e) s

@[simp]
theorem after_ok {Q : Except ε β → σ → Prop} {a : α} :
    After F Q f (.ok a) s ↔ (f a).Ends F Q s := Iff.rfl

@[simp]
theorem after_error {Q : Except ε β → σ → Prop} {e : ε} :
    After F Q f (.error e) s ↔ Q (.error e) s := Iff.rfl

@[simp]
theorem ends_bind {Q : Except ε β → σ → Prop} :
    (p >>= f).Ends F Q s ↔ p.Ends F (After F Q f) s := by
  change (p.bind f).Ends F Q s ↔ _
  induction p generalizing s with
  | ret r => cases r <;> rfl
  | call l eff next fail ihnext ihfail =>
    exact and_congr (ihnext s) (forall_congr' fun _ => forall_congr' fun e => ihfail e)

@[simp]
theorem ends_result {Q : Except ε (Except ε α) → σ → Prop} :
    p.result.Ends F Q s ↔ p.Ends F (fun r => Q (.ok r)) s := by
  induction p generalizing s with
  | ret r => rfl
  | call l eff next fail ihnext ihfail =>
    exact and_congr (ihnext s) (forall_congr' fun _ => forall_congr' fun e => ihfail e)

theorem ends_zoom {τ ℓ' : Type} {part : Part τ σ} {label : ℓ → ℓ'} {F : ℓ' → Prop}
    {Q : Except ε α → τ → Prop} {t : τ} :
    (p.zoom part label).Ends F Q t ↔
      p.Ends (fun l => F (label l)) (fun r s => Q r (part.set t s)) (part.get t) := by
  induction p generalizing t with
  | ret r =>
    rw [zoom, ends_ret, ends_ret, part.set_get]
  | call l eff next fail ihnext ihfail =>
    rw [zoom]
    refine and_congr ?_ (forall_congr' fun _ => forall_congr' fun e => ihfail e)
    rw [ihnext, part.get_set]
    simp only [part.set_set]

theorem Ends.run (h : p.Ends F Q s) :
    Q (p.run s).1 (p.run s).2 := by
  induction p generalizing s with
  | ret r => exact h
  | call l eff next fail ihnext ihfail => exact ihnext s h.1

theorem Returns.ends {R : α → Prop} (hp : p.Returns R) (s : σ) :
    p.Ends F (fun r _ => ∀ a, r = .ok a → R a) s := by
  induction p generalizing s with
  | ret r =>
    rintro a rfl
    exact hp
  | call l eff next fail ihnext ihfail =>
    exact ⟨ihnext s (hp.1 s) (eff s), fun _ e => ihfail e (hp.2 e) s⟩

theorem Keeps.ends_rel {I : σ → Prop} {R : σ → σ → Prop} (hrefl : ∀ s, R s s)
    (htrans : ∀ {s t u}, R s t → R t u → R s u) (hp : p.Keeps I fun _ => R) (hs : I s) :
    p.Ends F (fun _ => R s) s := by
  induction p generalizing s with
  | ret r => exact hrefl s
  | call l eff next fail ihnext ihfail =>
    obtain ⟨heff, hcall, hnext⟩ := hp.1 s hs
    refine ⟨(ihnext s hnext heff).mono fun _ _ h => htrans hcall h, fun _ e => ?_⟩
    exact ihfail e (hp.2 e) hs

theorem Keeps.ends {I : σ → Prop} {G : ℓ → σ → σ → Prop} (hp : p.Keeps I G) (hs : I s) :
    p.Ends F (fun _ => I) s := by
  induction p generalizing s with
  | ret r => exact hs
  | call l eff next fail ihnext ihfail =>
    obtain ⟨heff, -, hnext⟩ := hp.1 s hs
    exact ⟨ihnext s hnext heff, fun _ e => ihfail e (hp.2 e) hs⟩

/-! ## Runs with given failures -/

/-- What a run leaves behind: the result, the state, and the calls with the errors they failed
with. -/
structure Outcome (ℓ σ ε α : Type) where
  result : Except ε α
  state : σ
  calls : List (ℓ × Option ε)

/-- The run of a program alone in which the `n`-th call fails if `faults n` is an error. -/
def runWith : Prog ℓ σ ε α → (ℕ → Option ε) → σ → Outcome ℓ σ ε α
  | ret r, _, s => ⟨r, s, []⟩
  | call l eff next fail, faults, s =>
    match faults 0 with
    | none =>
      let rest := (next s).runWith (fun n => faults (n + 1)) (eff s)
      { rest with calls := (l, none) :: rest.calls }
    | some e =>
      let rest := (fail e).runWith (fun n => faults (n + 1)) s
      { rest with calls := (l, some e) :: rest.calls }

section RunWith

variable {faults : ℕ → Option ε}

theorem runWith_call_of_none {eff : σ → σ} {next : σ → Prog ℓ σ ε α} {fail : ε → Prog ℓ σ ε α}
    (h : faults 0 = none) :
    (call l eff next fail).runWith faults s =
      { (next s).runWith (fun n => faults (n + 1)) (eff s) with
        calls := (l, none) :: ((next s).runWith (fun n => faults (n + 1)) (eff s)).calls } := by
  rw [runWith, h]

theorem runWith_call_of_some {eff : σ → σ} {next : σ → Prog ℓ σ ε α} {fail : ε → Prog ℓ σ ε α}
    {e : ε} (h : faults 0 = some e) :
    (call l eff next fail).runWith faults s =
      { (fail e).runWith (fun n => faults (n + 1)) s with
        calls := (l, some e) :: ((fail e).runWith (fun n => faults (n + 1)) s).calls } := by
  rw [runWith, h]

theorem runWith_bind (p : Prog ℓ σ ε α) (f : α → Prog ℓ σ ε β) (faults : ℕ → Option ε) (s : σ) :
    (p >>= f).runWith faults s =
      match p.runWith faults s with
      | ⟨.ok a, s', calls⟩ =>
        let rest := (f a).runWith (fun n => faults (n + calls.length)) s'
        { rest with calls := calls ++ rest.calls }
      | ⟨.error e, s', calls⟩ => ⟨.error e, s', calls⟩ := by
  change (p.bind f).runWith faults s = _
  induction p generalizing faults s with
  | ret r => cases r <;> rfl
  | call l eff next fail ihnext ihfail =>
    cases hfault : faults 0 with
    | none =>
      rw [bind, runWith_call_of_none hfault, runWith_call_of_none hfault, ihnext]
      rcases (next s).runWith (fun n => faults (n + 1)) (eff s) with ⟨r, s', calls⟩
      cases r <;> rfl
    | some e =>
      rw [bind, runWith_call_of_some hfault, runWith_call_of_some hfault, ihfail]
      rcases (fail e).runWith (fun n => faults (n + 1)) s with ⟨r, s', calls⟩
      cases r <;> rfl

theorem mem_calls_runWith_bind {c : ℓ × Option ε} (h : c ∈ (p.runWith faults s).calls) :
    c ∈ ((p >>= f).runWith faults s).calls := by
  rw [runWith_bind]
  revert h
  rcases p.runWith faults s with ⟨r, s', calls⟩
  intro h
  cases r with
  | ok a => exact List.mem_append_left _ h
  | error e => exact h

theorem runWith_modify_bind_of_none {f : σ → σ} {g : Unit → Prog ℓ σ ε β} (h : faults 0 = none) :
    (modify l f >>= g).runWith faults s =
      { (g ()).runWith (fun n => faults (n + 1)) (f s) with
        calls := (l, none) :: ((g ()).runWith (fun n => faults (n + 1)) (f s)).calls } :=
  runWith_call_of_none h

theorem runWith_modify_bind_of_some {f : σ → σ} {g : Unit → Prog ℓ σ ε β} {e : ε}
    (h : faults 0 = some e) : (modify l f >>= g).runWith faults s = ⟨.error e, s, [(l, some e)]⟩ :=
  runWith_call_of_some h

theorem Ends.runWith (h : p.Ends F Q s)
    (hfaults : ∀ l e, (l, some e) ∈ (p.runWith faults s).calls → F l) :
    Q (p.runWith faults s).result (p.runWith faults s).state := by
  induction p generalizing faults s with
  | ret r => exact h
  | call l eff next fail ihnext ihfail =>
    cases hfault : faults 0 with
    | none =>
      rw [runWith_call_of_none hfault] at hfaults ⊢
      exact ihnext s h.1 fun l' e' h' => hfaults l' e' (List.mem_cons_of_mem _ h')
    | some e =>
      rw [runWith_call_of_some hfault] at hfaults ⊢
      have hl : F l := hfaults l e List.mem_cons_self
      exact ihfail e (h.2 hl e) fun l' e' h' => hfaults l' e' (List.mem_cons_of_mem _ h')

theorem runWith_none (p : Prog ℓ σ ε α) (s : σ) :
    (p.runWith (fun _ => none) s).result = (p.run s).1 ∧
      (p.runWith (fun _ => none) s).state = (p.run s).2 := by
  induction p generalizing s with
  | ret r => exact ⟨rfl, rfl⟩
  | call l eff next fail ihnext ihfail => exact ihnext s (eff s)

theorem not_mem_calls_runWith_none (p : Prog ℓ σ ε α) (s : σ) (l : ℓ) (e : ε) :
    (l, some e) ∉ (p.runWith (fun _ => none) s).calls := by
  induction p generalizing s with
  | ret r => exact List.not_mem_nil
  | call l' eff next fail ihnext ihfail =>
    intro h
    obtain h | h := List.mem_cons.mp h
    · cases h
    · exact ihnext s (eff s) h

end RunWith

-- The rules above are all that is used of `Ends`; unfolding it would execute the program.
attribute [irreducible] Ends

/-- Run alone from `s`, the program leaves the state as it is, and what it returns is in `R`. -/
structure Reads (F : ℓ → Prop) (R : α → Prop) (p : Prog ℓ σ ε α) (s : σ) : Prop where
  ends : p.Ends F (fun r s' => s' = s ∧ ∀ a, r = .ok a → R a) s

section Reads

variable {R : α → Prop} {R' : β → Prop}

theorem reads_ret {r : Except ε α} (h : ∀ a, r = .ok a → R a) :
    (ret r : Prog ℓ σ ε α).Reads F R s :=
  ⟨ends_ret.mpr ⟨rfl, h⟩⟩

theorem reads_pure {a : α} (h : R a) : (pure a : Prog ℓ σ ε α).Reads F R s :=
  reads_ret fun _ ha => Except.ok.inj ha ▸ h

theorem reads_throw (e : ε) : (throw e : Prog ℓ σ ε α).Reads F R s :=
  reads_ret fun _ h => by cases h

theorem reads_query {f : σ → Except ε α} (h : ∀ a, f s = .ok a → R a) :
    (query l f).Reads F R s :=
  ⟨ends_query.mpr ⟨⟨rfl, h⟩, fun _ _ => ⟨rfl, fun _ ha => by cases ha⟩⟩⟩

theorem Reads.bind (hp : p.Reads F R s) (hf : ∀ a, R a → (f a).Reads F R' s) :
    (p >>= f).Reads F R' s := by
  refine ⟨ends_bind.mpr (hp.ends.mono fun r s' hr => ?_)⟩
  obtain ⟨rfl, hr⟩ := hr
  cases r with
  | ok a => exact (hf a (hr a rfl)).ends
  | error e => exact ⟨rfl, fun _ h => by cases h⟩

theorem Reads.result_bind {f : Except ε α → Prog ℓ σ ε β} (hp : p.Reads F R s)
    (hf : ∀ r, (∀ a, r = .ok a → R a) → (f r).Reads F R' s) : (p.result >>= f).Reads F R' s := by
  refine ⟨ends_bind.mpr (ends_result.mpr (hp.ends.mono fun r s' hr => ?_))⟩
  obtain ⟨rfl, hr⟩ := hr
  exact (hf r hr).ends

theorem Reads.mono {R₁ : α → Prop} (hp : p.Reads F R s) (h : ∀ a, R a → R₁ a) : p.Reads F R₁ s :=
  ⟨hp.ends.mono fun _ _ hr => ⟨hr.1, fun a ha => h a (hr.2 a ha)⟩⟩

end Reads

/-! ## Runs that stop on the way -/

/-- Every state in which a run of the program alone can be stopped satisfies `I`, whichever of its
calls fail. -/
def Throughout (I : σ → Prop) : Prog ℓ σ ε α → σ → Prop
  | ret _, s => I s
  | call _ eff next fail, s =>
    I s ∧ (next s).Throughout I (eff s) ∧ ∀ e, (fail e).Throughout I s

section Throughout

variable {I : σ → Prop}

theorem Throughout.start (h : p.Throughout I s) : I s := by
  cases p with
  | ret r => exact h
  | call l eff next fail => exact h.1

theorem throughout_query_bind {f : σ → Except ε α} {g : α → Prog ℓ σ ε β} {a : α}
    (h : f s = .ok a) : (query l f >>= g).Throughout I s ↔ (g a).Throughout I s := by
  have hnext : (query l f >>= g).Throughout I s ↔ I s ∧ (g a).Throughout I s ∧ ∀ _ : ε, I s := by
    change I s ∧ ((ret (f s)).bind g).Throughout I s ∧ _ ↔ _
    rw [h]
    exact Iff.rfl
  rw [hnext]
  exact ⟨fun h => h.2.1, fun h => ⟨h.start, h, fun _ => h.start⟩⟩

theorem throughout_modify_bind {f : σ → σ} {g : Unit → Prog ℓ σ ε β} :
    (modify l f >>= g).Throughout I s ↔ I s ∧ (g ()).Throughout I (f s) :=
  ⟨fun h => ⟨h.1, h.2.1⟩, fun h => ⟨h.1, h.2, fun _ => h.1⟩⟩

theorem Keeps.throughout {G : ℓ → σ → σ → Prop} (hp : p.Keeps I G) (hs : I s) :
    p.Throughout I s := by
  induction p generalizing s with
  | ret r => exact hs
  | call l eff next fail ihnext ihfail =>
    obtain ⟨heff, -, hnext⟩ := hp.1 s hs
    exact ⟨hs, ihnext s hnext heff, fun e => ihfail e (hp.2 e) hs⟩

theorem Throughout.mono {J : σ → Prop} (hp : p.Throughout I s) (h : ∀ s, I s → J s) :
    p.Throughout J s := by
  induction p generalizing s with
  | ret r => exact h s hp
  | call l eff next fail ihnext ihfail =>
    exact ⟨h s hp.1, ihnext s hp.2.1, fun e => ihfail e (hp.2.2 e)⟩

end Throughout

attribute [irreducible] Throughout

/-- Every state in which the run of the program alone can be stopped satisfies `I`: the calls before
the stop had their effect, the call at which it stops and those after it have none. -/
def StopsIn (I : σ → Prop) : Prog ℓ σ ε α → σ → Prop
  | ret _, s => I s
  | call _ eff next _, s => I s ∧ (next s).StopsIn I (eff s)

section StopsIn

variable {I : σ → Prop}

theorem StopsIn.start (h : p.StopsIn I s) : I s := by
  cases p with
  | ret r => exact h
  | call l eff next fail => exact h.1

theorem StopsIn.run (h : p.StopsIn I s) : I (p.run s).2 := by
  induction p generalizing s with
  | ret r => exact h
  | call l eff next fail ihnext ihfail => exact ihnext s h.2

theorem StopsIn.mono {J : σ → Prop} (hp : p.StopsIn I s) (h : ∀ s, I s → J s) : p.StopsIn J s := by
  induction p generalizing s with
  | ret r => exact h s hp
  | call l eff next fail ihnext ihfail => exact ⟨h s hp.1, ihnext s hp.2⟩

@[simp]
theorem stopsIn_pure {a : α} : (pure a : Prog ℓ σ ε α).StopsIn I s ↔ I s := Iff.rfl

@[simp]
theorem stopsIn_throw {e : ε} : (throw e : Prog ℓ σ ε α).StopsIn I s ↔ I s := Iff.rfl

@[simp]
theorem stopsIn_query {f : σ → Except ε α} : (query l f).StopsIn I s ↔ I s :=
  and_self_iff

@[simp]
theorem stopsIn_modify {f : σ → σ} :
    (modify l f : Prog ℓ σ ε Unit).StopsIn I s ↔ I s ∧ I (f s) := Iff.rfl

@[simp]
theorem stopsIn_action {f : σ → Except ε α × σ} :
    (action l f).StopsIn I s ↔ I s ∧ I (f s).2 := Iff.rfl

@[simp]
theorem stopsIn_result : p.result.StopsIn I s ↔ p.StopsIn I s := by
  induction p generalizing s with
  | ret r => rfl
  | call l eff next fail ihnext ihfail => exact and_congr Iff.rfl (ihnext s)

theorem stopsIn_bind :
    (p >>= f).StopsIn I s ↔
      p.StopsIn I s ∧ ∀ a, (p.run s).1 = .ok a → (f a).StopsIn I (p.run s).2 := by
  change (p.bind f).StopsIn I s ↔ _
  induction p generalizing s with
  | ret r =>
    cases r with
    | ok a =>
      refine ⟨fun h => ⟨h.start, fun a' ha' => ?_⟩, fun h => h.2 a rfl⟩
      obtain rfl := Except.ok.inj ha'
      exact h
    | error e => exact ⟨fun h => ⟨h, fun _ ha => by cases ha⟩, fun h => h.1⟩
  | call l eff next fail ihnext ihfail =>
    exact (and_congr Iff.rfl (ihnext s)).trans and_assoc.symm

theorem stopsIn_query_bind {f : σ → Except ε α} {g : α → Prog ℓ σ ε β} :
    (query l f >>= g).StopsIn I s ↔ I s ∧ ∀ a, f s = .ok a → (g a).StopsIn I s := by
  rw [stopsIn_bind, stopsIn_query]
  exact Iff.rfl

theorem stopsIn_modify_bind {f : σ → σ} {g : Unit → Prog ℓ σ ε β} :
    (modify l f >>= g).StopsIn I s ↔ I s ∧ (g ()).StopsIn I (f s) := Iff.rfl

theorem stopsIn_result_bind {f : Except ε α → Prog ℓ σ ε β} {r : Except ε α} {t : σ}
    (hrun : p.run s = (r, t)) :
    (p.result >>= f).StopsIn I s ↔ p.StopsIn I s ∧ (f r).StopsIn I t := by
  rw [stopsIn_bind, stopsIn_result, run_result, hrun]
  refine and_congr Iff.rfl ⟨fun h => h r rfl, fun h r' hr' => ?_⟩
  obtain rfl := Except.ok.inj hr'
  exact h

theorem Keeps.stopsIn {G : ℓ → σ → σ → Prop} (hp : p.Keeps I G) (hs : I s) :
    p.StopsIn I s := by
  induction p generalizing s with
  | ret r => exact hs
  | call l eff next fail ihnext ihfail =>
    obtain ⟨heff, -, hnext⟩ := hp.1 s hs
    exact ⟨hs, ihnext s hnext heff⟩

end StopsIn

attribute [irreducible] StopsIn

end Prog
