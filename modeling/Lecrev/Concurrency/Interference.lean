import Lecrev.Concurrency.Sequential

/-!
# Runs under interference

A program that shares its state with others finds, at each of its calls, whatever state the others
have left. `Prog.Exec` is the relation between a program, the log of such a run (every call with the
state it met, or without one when the call failed) and its result. An `Environment` restricts the
states that a call may meet and the errors it may fail with.
-/

/-- The calls of a run in their order, each with the state it met, or with none if it failed. -/
abbrev CallLog (ℓ σ : Type) := List (ℓ × Option σ)

/-- What the calls of a program may meet. -/
structure Environment (ℓ σ ε : Type) where
  /-- The states that a call may meet. -/
  meets : ℓ → σ → Prop
  /-- The errors that a call may fail with. -/
  fails : ℓ → ε → Prop

/-- The environment that may leave any state behind, in which no call fails. -/
def Environment.faultless (ℓ σ ε : Type) : Environment ℓ σ ε := ⟨fun _ _ => True, fun _ _ => False⟩

namespace Prog

variable {ℓ σ ε α β : Type} {E : Environment ℓ σ ε}

/-- A run of a program in an environment, with its log and its result. -/
inductive Exec (E : Environment ℓ σ ε) : Prog ℓ σ ε α → CallLog ℓ σ → Except ε α → Prop
  | ret (r : Except ε α) : Exec E (.ret r) [] r
  | next {l : ℓ} {eff : σ → σ} {next : σ → Prog ℓ σ ε α} {fail : ε → Prog ℓ σ ε α} {s : σ}
      {log : CallLog ℓ σ} {r : Except ε α} (hs : E.meets l s) (h : Exec E (next s) log r) :
      Exec E (.call l eff next fail) ((l, some s) :: log) r
  | fail {l : ℓ} {eff : σ → σ} {next : σ → Prog ℓ σ ε α} {fail : ε → Prog ℓ σ ε α} {e : ε}
      {log : CallLog ℓ σ} {r : Except ε α} (he : E.fails l e) (h : Exec E (fail e) log r) :
      Exec E (.call l eff next fail) ((l, none) :: log) r

/-- After the calls of `log`, every further call of the program is allowed by `P`, and every result
by `Q`. -/
def Obeys (E : Environment ℓ σ ε) (P : CallLog ℓ σ → ℓ → Prop)
    (Q : CallLog ℓ σ → Except ε α → Prop) : Prog ℓ σ ε α → CallLog ℓ σ → Prop
  | .ret r, log => Q log r
  | .call l _ next fail, log => P log l ∧
    (∀ s, E.meets l s → (next s).Obeys E P Q (log ++ [(l, some s)])) ∧
      ∀ e, E.fails l e → (fail e).Obeys E P Q (log ++ [(l, none)])

private theorem allowed_cons {P : CallLog ℓ σ → ℓ → Prop} {before log : CallLog ℓ σ}
    {first : ℓ × Option σ} (hfirst : P before first.1)
    (hrest : ∀ earlier entry later, log = earlier ++ entry :: later →
      P (before ++ [first] ++ earlier) entry.1)
    (earlier : CallLog ℓ σ) (entry : ℓ × Option σ) (later : CallLog ℓ σ)
    (hlog : first :: log = earlier ++ entry :: later) : P (before ++ earlier) entry.1 := by
  cases earlier with
  | nil =>
    obtain ⟨rfl, -⟩ := List.cons.inj hlog
    rwa [List.append_nil]
  | cons first' earlier =>
    obtain ⟨rfl, hrestlog⟩ := List.cons.inj hlog
    have := hrest earlier entry later hrestlog
    rwa [List.append_assoc] at this

variable {Q : CallLog ℓ σ → Except ε α → Prop} {p : Prog ℓ σ ε α}

theorem Obeys.exec {P : CallLog ℓ σ → ℓ → Prop} {before log : CallLog ℓ σ} {r : Except ε α}
    (h : p.Obeys E P Q before) (hexec : p.Exec E log r) :
    Q (before ++ log) r ∧ ∀ earlier entry later, log = earlier ++ entry :: later →
      P (before ++ earlier) entry.1 := by
  induction hexec generalizing before with
  | ret r =>
    refine ⟨by rwa [List.append_nil], fun earlier entry later hlog => ?_⟩
    cases earlier <;> cases hlog
  | next hs _ ih =>
    obtain ⟨hallowed, hnext, -⟩ := h
    obtain ⟨hresult, hcalls⟩ := ih (hnext _ hs)
    rw [List.append_assoc] at hresult
    exact ⟨hresult, allowed_cons hallowed hcalls⟩
  | fail he _ ih =>
    obtain ⟨hallowed, -, hfail⟩ := h
    obtain ⟨hresult, hcalls⟩ := ih (hfail _ he)
    rw [List.append_assoc] at hresult
    exact ⟨hresult, allowed_cons hallowed hcalls⟩

variable {P : CallLog ℓ σ → ℓ → Prop} {log : CallLog ℓ σ}

theorem obeys_ret {r : Except ε α} :
    (ret r : Prog ℓ σ ε α).Obeys E P Q log ↔ Q log r := Iff.rfl

theorem obeys_pure {a : α} :
    (pure a : Prog ℓ σ ε α).Obeys E P Q log ↔ Q log (.ok a) := Iff.rfl

theorem obeys_throw {e : ε} :
    (throw e : Prog ℓ σ ε α).Obeys E P Q log ↔ Q log (.error e) := Iff.rfl

theorem obeys_query {l : ℓ} {f : σ → Except ε α} :
    (query l f).Obeys E P Q log ↔ P log l ∧
      (∀ s, E.meets l s → Q (log ++ [(l, some s)]) (f s)) ∧
        ∀ e, E.fails l e → Q (log ++ [(l, none)]) (.error e) := Iff.rfl

theorem obeys_modify {Q : CallLog ℓ σ → Except ε Unit → Prop} {l : ℓ} {f : σ → σ} :
    (modify l f : Prog ℓ σ ε Unit).Obeys E P Q log ↔ P log l ∧
      (∀ s, E.meets l s → Q (log ++ [(l, some s)]) (.ok ())) ∧
        ∀ e, E.fails l e → Q (log ++ [(l, none)]) (.error e) := Iff.rfl

theorem obeys_action {l : ℓ} {f : σ → Except ε α × σ} :
    (action l f).Obeys E P Q log ↔ P log l ∧
      (∀ s, E.meets l s → Q (log ++ [(l, some s)]) (f s).1) ∧
        ∀ e, E.fails l e → Q (log ++ [(l, none)]) (.error e) := Iff.rfl

theorem Obeys.mono {Q' : CallLog ℓ σ → Except ε α → Prop} (h : p.Obeys E P Q log)
    (hQ : ∀ log r, Q log r → Q' log r) : p.Obeys E P Q' log := by
  induction p generalizing log with
  | ret r => exact hQ log r h
  | call l eff next fail ihnext ihfail =>
    exact ⟨h.1, fun s hs => ihnext s (h.2.1 s hs), fun e he => ihfail e (h.2.2 e he)⟩

theorem Obeys.bind {Q' : CallLog ℓ σ → Except ε β → Prop} {f : α → Prog ℓ σ ε β}
    (hp : p.Obeys E P Q log) (hf : ∀ log a, Q log (.ok a) → (f a).Obeys E P Q' log)
    (herror : ∀ log e, Q log (.error e) → Q' log (.error e)) : (p >>= f).Obeys E P Q' log := by
  change (p.bind f).Obeys E P Q' log
  induction p generalizing log with
  | ret r =>
    cases r with
    | ok a => exact hf log a hp
    | error e => exact herror log e hp
  | call l eff next fail ihnext ihfail =>
    exact ⟨hp.1, fun s hs => ihnext s (hp.2.1 s hs), fun e he => ihfail e (hp.2.2 e he)⟩

variable {f : Except ε α → Prog ℓ σ ε β}

theorem obeys_result_bind {Q : CallLog ℓ σ → Except ε β → Prop} :
    (p.result >>= f).Obeys E P Q log ↔
      p.Obeys E P (fun log r => (f r).Obeys E P Q log) log := by
  change (p.result.bind f).Obeys E P Q log ↔ _
  induction p generalizing log with
  | ret r => exact Iff.rfl
  | call l eff next fail ihnext ihfail =>
    refine and_congr_right fun _ => and_congr ?_ ?_
    · exact forall_congr' fun s => imp_congr_right fun _ => ihnext s
    · exact forall_congr' fun e => imp_congr_right fun _ => ihfail e

theorem Obeys.result_bind {Q' : CallLog ℓ σ → Except ε β → Prop} (hp : p.Obeys E P Q log)
    (hf : ∀ log r, Q log r → (f r).Obeys E P Q' log) :
    (p.result >>= f).Obeys E P Q' log :=
  obeys_result_bind.mpr (hp.mono hf)

theorem obeys_of_lasting {K : CallLog ℓ σ → Prop} (p : Prog ℓ σ ε α) (hlog : K log)
    (hlasts : ∀ log entry, K log → K (log ++ [entry])) (hP : ∀ log l, K log → P log l) :
    p.Obeys E P (fun _ _ => True) log := by
  induction p generalizing log with
  | ret r => trivial
  | call l eff next fail ihnext ihfail =>
    exact ⟨hP log l hlog, fun s _ => ihnext s (hlasts log _ hlog),
      fun e _ => ihfail e (hlasts log _ hlog)⟩

section Zoom

variable {τ ℓ' : Type}

theorem obeys_zoom_query {E : Environment ℓ' τ ε} {P : CallLog ℓ' τ → ℓ' → Prop}
    {Q : CallLog ℓ' τ → Except ε α → Prop} {log : CallLog ℓ' τ} {part : Part τ σ} {label : ℓ → ℓ'}
    {l : ℓ} {f : σ → Except ε α} :
    ((query l f).zoom part label).Obeys E P Q log ↔ P log (label l) ∧
      (∀ t, E.meets (label l) t → Q (log ++ [(label l, some t)]) (f (part.get t))) ∧
        ∀ e, E.fails (label l) e → Q (log ++ [(label l, none)]) (.error e) := Iff.rfl

end Zoom

/-- The log of an uninterrupted run in which no call fails. -/
def trace : Prog ℓ σ ε α → σ → CallLog ℓ σ
  | .ret _, _ => []
  | .call l eff next _, s => (l, some s) :: (next s).trace (eff s)

theorem exec_trace (p : Prog ℓ σ ε α) (s : σ)
    (hmeets : ∀ l t, (l, some t) ∈ p.trace s → E.meets l t) :
    p.Exec E (p.trace s) (p.run s).1 := by
  induction p generalizing s with
  | ret r => exact .ret r
  | call l eff next fail ihnext ihfail =>
    refine .next (hmeets l s List.mem_cons_self) (ihnext s (eff s) fun l' t h => ?_)
    exact hmeets l' t (List.mem_cons_of_mem _ h)

section Reaches

variable {P : ℓ → σ → Prop} {s : σ}

end Reaches

section Shown

variable {keep : ℓ → Bool} {Q : List ℓ → Except ε α → Prop}

/-- The calls of a log that are of the kind looked at, in their order. -/
def shown (keep : ℓ → Bool) (log : CallLog ℓ σ) : List ℓ := (log.map Prod.fst).filter keep

theorem shown_append (log log' : CallLog ℓ σ) :
    shown keep (log ++ log') = shown keep log ++ shown keep log' := by
  simp [shown]

theorem shown_of_imp {keep' : ℓ → Bool} (h : ∀ l, keep' l = true → keep l = true)
    (log : CallLog ℓ σ) : shown keep' log = (shown keep log).filter keep' := by
  rw [shown, shown, List.filter_filter]
  refine List.filter_congr fun l _ => ?_
  cases hl : keep' l with
  | false => rfl
  | true => rw [h l hl, Bool.and_true]

/-- In every run, the calls of the kind looked at and the result are as required. -/
def Shows (E : Environment ℓ σ ε) (keep : ℓ → Bool) (Q : List ℓ → Except ε α → Prop)
    (p : Prog ℓ σ ε α) : Prop :=
  ∀ log, p.Obeys E (fun _ _ => True)
    (fun log' r => ∃ calls, shown keep log' = shown keep log ++ calls ∧ Q calls r) log

theorem Shows.exec {r : Except ε α} (h : p.Shows E keep Q) (hexec : p.Exec E log r) :
    Q (shown keep log) r := by
  obtain ⟨calls, hcalls, hQ⟩ := ((h []).exec hexec).1
  have hlog : shown keep log = calls := hcalls
  rwa [hlog]

theorem Shows.mono {Q' : List ℓ → Except ε α → Prop} (h : p.Shows E keep Q)
    (hQ : ∀ calls r, Q calls r → Q' calls r) : p.Shows E keep Q' := by
  intro log
  refine (h log).mono fun log' r hr => ?_
  obtain ⟨calls, hcalls, hr⟩ := hr
  exact ⟨calls, hcalls, hQ calls r hr⟩

theorem shows_ret {r : Except ε α} (h : Q [] r) : (ret r : Prog ℓ σ ε α).Shows E keep Q :=
  fun _ => obeys_ret.mpr ⟨[], (List.append_nil _).symm, h⟩

theorem shows_pure {a : α} (h : Q [] (.ok a)) : (pure a : Prog ℓ σ ε α).Shows E keep Q :=
  shows_ret h

theorem shows_throw {e : ε} (h : Q [] (.error e)) : (throw e : Prog ℓ σ ε α).Shows E keep Q :=
  shows_ret h

private theorem shown_call (log : CallLog ℓ σ) (l : ℓ) (s : Option σ) :
    shown keep (log ++ [(l, s)]) = shown keep log ++ [l].filter keep := by
  rw [shown_append]
  rfl

theorem shows_query {l : ℓ} {f : σ → Except ε α} (h : ∀ s, E.meets l s → Q ([l].filter keep) (f s))
    (hfail : ∀ e, E.fails l e → Q ([l].filter keep) (.error e)) :
    (query l f).Shows E keep Q := by
  intro log
  refine obeys_query.mpr ⟨trivial, fun s hs => ?_, fun e he => ?_⟩
  · exact ⟨_, shown_call log l (some s), h s hs⟩
  · exact ⟨_, shown_call log l none, hfail e he⟩

theorem shows_modify {Q : List ℓ → Except ε Unit → Prop} {l : ℓ} {f : σ → σ}
    (h : Q ([l].filter keep) (.ok ())) (hfail : ∀ e, E.fails l e → Q ([l].filter keep) (.error e)) :
    (modify l f : Prog ℓ σ ε Unit).Shows E keep Q := by
  intro log
  refine obeys_modify.mpr ⟨trivial, fun s _ => ?_, fun e he => ?_⟩
  · exact ⟨_, shown_call log l (some s), h⟩
  · exact ⟨_, shown_call log l none, hfail e he⟩

theorem shows_action {l : ℓ} {f : σ → Except ε α × σ}
    (h : ∀ s, E.meets l s → Q ([l].filter keep) (f s).1)
    (hfail : ∀ e, E.fails l e → Q ([l].filter keep) (.error e)) :
    (action l f).Shows E keep Q := by
  intro log
  refine obeys_action.mpr ⟨trivial, fun s hs => ?_, fun e he => ?_⟩
  · exact ⟨_, shown_call log l (some s), h s hs⟩
  · exact ⟨_, shown_call log l none, hfail e he⟩

theorem Shows.bind {Q' : List ℓ → Except ε β → Prop} {f : α → Prog ℓ σ ε β}
    (hp : p.Shows E keep Q)
    (hf : ∀ calls a, Q calls (.ok a) → (f a).Shows E keep fun calls' r => Q' (calls ++ calls') r)
    (herror : ∀ calls e, Q calls (.error e) → Q' calls (.error e)) :
    (p >>= f).Shows E keep Q' := by
  intro log
  refine (hp log).bind (fun log' a ha => ?_) fun log' e he => ?_
  · obtain ⟨calls, hcalls, hQ⟩ := ha
    refine (hf calls a hQ log').mono fun log'' r hr => ?_
    obtain ⟨calls', hcalls', hQ'⟩ := hr
    exact ⟨calls ++ calls', by rw [hcalls', hcalls, List.append_assoc], hQ'⟩
  · obtain ⟨calls, hcalls, hQ⟩ := he
    exact ⟨calls, hcalls, herror calls e hQ⟩

theorem Shows.then {Q' : List ℓ → Except ε β → Prop} {f : α → Prog ℓ σ ε β} {calls : List ℓ} {a : α}
    (hp : p.Shows E keep fun calls' r => calls' = calls ∧ r = .ok a)
    (hf : (f a).Shows E keep fun calls' r => Q' (calls ++ calls') r) :
    (p >>= f).Shows E keep Q' := by
  refine hp.bind (fun calls' a' h => ?_) fun calls' e h => ?_
  · obtain ⟨rfl, ha⟩ := h
    cases ha
    exact hf
  · cases h.2

theorem Shows.result_bind {Q' : List ℓ → Except ε β → Prop} (hp : p.Shows E keep Q)
    (hf : ∀ calls r, Q calls r → (f r).Shows E keep fun calls' r => Q' (calls ++ calls') r) :
    (p.result >>= f).Shows E keep Q' := by
  intro log
  refine (hp log).result_bind fun log' r hr => ?_
  obtain ⟨calls, hcalls, hQ⟩ := hr
  refine (hf calls r hQ log').mono fun log'' r' hr' => ?_
  obtain ⟨calls', hcalls', hQ'⟩ := hr'
  exact ⟨calls ++ calls', by rw [hcalls', hcalls, List.append_assoc], hQ'⟩

end Shown

-- The rules above are all that is used of `Obeys`; unfolding it would execute the program.
attribute [irreducible] Obeys

end Prog
