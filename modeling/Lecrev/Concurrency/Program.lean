import Mathlib.Data.List.Basic

/-!
# Programs of atomic calls on a shared state

A `Prog ℓ σ ε α` is a terminating program that reaches a shared state `σ` only through atomic
calls. Every call carries a label, an effect on the state, a continuation that depends on the
state the call found, and a continuation for the case that the call fails with an error and has
no effect. `Prog.run` executes a program without interruption and without failures; the
interleaving of several programs is in `Lecrev.Concurrency.Pool`.
-/

/-- A program of atomic calls on a shared state `σ` with errors in `ε` and labels in `ℓ`. -/
inductive Prog (ℓ σ ε α : Type) : Type
  /-- The program has returned. -/
  | ret (r : Except ε α)
  /-- An atomic call: its label, its effect, what the program does next given the state the call
  found, and what it does when the call fails. -/
  | call (label : ℓ) (eff : σ → σ) (next : σ → Prog ℓ σ ε α) (fail : ε → Prog ℓ σ ε α)

namespace Prog

variable {ℓ σ ε α β : Type}

/-- Sequencing; an error ends the program. -/
def bind : Prog ℓ σ ε α → (α → Prog ℓ σ ε β) → Prog ℓ σ ε β
  | ret (.ok a), f => f a
  | ret (.error e), _ => ret (.error e)
  | call l eff next fail, f => call l eff (fun s => (next s).bind f) (fun e => (fail e).bind f)

instance : Monad (Prog ℓ σ ε) where
  pure a := ret (.ok a)
  bind := bind

/-- Return the error `e`. -/
def throw (e : ε) : Prog ℓ σ ε α := ret (.error e)

/-- Run a program and hand its result, error included, to the rest of the program. -/
def result : Prog ℓ σ ε α → Prog ℓ σ ε (Except ε α)
  | ret r => ret (.ok r)
  | call l eff next fail => call l eff (fun s => (next s).result) (fun e => (fail e).result)

/-- A call that reads the state. -/
def query (l : ℓ) (f : σ → Except ε α) : Prog ℓ σ ε α :=
  call l id (fun s => ret (f s)) throw

/-- A call that writes the state and returns nothing. -/
def modify (l : ℓ) (f : σ → σ) : Prog ℓ σ ε Unit :=
  call l f (fun _ => ret (.ok ())) throw

/-- A call that reads and writes the state in one atomic step. -/
def action (l : ℓ) (f : σ → Except ε α × σ) : Prog ℓ σ ε α :=
  call l (fun s => (f s).2) (fun s => ret (f s).1) throw

/-- The result and the final state of an uninterrupted run in which no call fails. -/
def run : Prog ℓ σ ε α → σ → Except ε α × σ
  | ret r, s => (r, s)
  | call _ eff next _, s => (next s).run (eff s)

@[simp]
theorem run_ret (r : Except ε α) (s : σ) : (ret r : Prog ℓ σ ε α).run s = (r, s) := rfl

@[simp]
theorem run_pure (a : α) (s : σ) : (pure a : Prog ℓ σ ε α).run s = (.ok a, s) := rfl

@[simp]
theorem run_throw (e : ε) (s : σ) : (throw e : Prog ℓ σ ε α).run s = (.error e, s) := rfl

@[simp]
theorem run_query (l : ℓ) (f : σ → Except ε α) (s : σ) :
    (query l f).run s = (f s, s) := rfl

@[simp]
theorem run_modify (l : ℓ) (f : σ → σ) (s : σ) :
    (modify l f : Prog ℓ σ ε Unit).run s = (.ok (), f s) := rfl

@[simp]
theorem run_action (l : ℓ) (f : σ → Except ε α × σ) (s : σ) :
    (action l f).run s = f s := rfl

@[simp]
theorem run_bind (p : Prog ℓ σ ε α) (f : α → Prog ℓ σ ε β) (s : σ) :
    (p >>= f).run s =
      match p.run s with
      | (.ok a, s') => (f a).run s'
      | (.error e, s') => (.error e, s') := by
  change (p.bind f).run s = _
  induction p generalizing s with
  | ret r => cases r <;> rfl
  | call l eff next fail ihnext ihfail => exact ihnext s (eff s)

@[simp]
theorem run_result (p : Prog ℓ σ ε α) (s : σ) :
    p.result.run s = (.ok (p.run s).1, (p.run s).2) := by
  induction p generalizing s with
  | ret r => rfl
  | call l eff next fail ihnext ihfail => exact ihnext s (eff s)

/-- The result of a program that has returned. -/
def result? : Prog ℓ σ ε α → Option (Except ε α)
  | ret r => some r
  | call _ _ _ _ => none

variable {p : Prog ℓ σ ε α} {f : α → Prog ℓ σ ε β}

theorem eq_ret_of_result? {r : Except ε α} (h : p.result? = some r) :
    p = ret r := by
  cases p with
  | ret r' => rw [Option.some.inj h]
  | call l eff next fail => cases h

/-! ## What a program returns -/

/-- Whatever states the calls meet, a normal return of the program is a value in `Q`. -/
def Returns (Q : α → Prop) : Prog ℓ σ ε α → Prop
  | ret (.ok a) => Q a
  | ret (.error _) => True
  | call _ _ next fail => (∀ s, (next s).Returns Q) ∧ ∀ e, (fail e).Returns Q

theorem returns_true (p : Prog ℓ σ ε α) : p.Returns fun _ => True := by
  induction p with
  | ret r => cases r <;> trivial
  | call l eff next fail ihnext ihfail => exact ⟨ihnext, ihfail⟩

theorem Returns.bind {Q : α → Prop} {R : β → Prop} (hp : p.Returns Q)
    (hf : ∀ a, Q a → (f a).Returns R) : (p >>= f).Returns R := by
  change (p.bind f).Returns R
  induction p with
  | ret r =>
    cases r with
    | ok a => exact hf a hp
    | error e => trivial
  | call l eff next fail ihnext ihfail =>
    exact ⟨fun s => ihnext s (hp.1 s), fun e => ihfail e (hp.2 e)⟩

theorem returns_query {Q : α → Prop} {l : ℓ} {f : σ → Except ε α} (h : ∀ s a, f s = .ok a → Q a) :
    (query l f).Returns Q := by
  refine ⟨fun s => ?_, fun _ => trivial⟩
  change (ret (f s)).Returns Q
  cases hfs : f s with
  | ok a => exact h s a hfs
  | error e => trivial

theorem Returns.result {Q : α → Prop} (hp : p.Returns Q) :
    p.result.Returns fun r => ∀ a, r = .ok a → Q a := by
  induction p with
  | ret r =>
    cases r with
    | ok a =>
      rintro a' ⟨⟩
      exact hp
    | error e => exact fun a h => nomatch h
  | call l eff next fail ihnext ihfail =>
    exact ⟨fun s => ihnext s (hp.1 s), fun e => ihfail e (hp.2 e)⟩

/-- The program does not return normally before it has made a call with the label `l`. -/
def Performs (l : ℓ) : Prog ℓ σ ε α → Prop
  | ret (.ok _) => False
  | ret (.error _) => True
  | call l' _ next fail => (l' = l ∨ ∀ s, (next s).Performs l) ∧ ∀ e, (fail e).Performs l

theorem Performs.bind_left {l : ℓ} (hp : p.Performs l) : (p >>= f).Performs l := by
  change (p.bind f).Performs l
  induction p with
  | ret r =>
    cases r with
    | ok a => exact absurd hp id
    | error e => trivial
  | call l' eff next fail ihnext ihfail =>
    refine ⟨hp.1.imp id fun hnext s => ihnext s (hnext s), fun e => ihfail e (hp.2 e)⟩

theorem Performs.bind_right {l : ℓ} {Q : α → Prop} (hr : p.Returns Q)
    (hf : ∀ a, Q a → (f a).Performs l) : (p >>= f).Performs l := by
  change (p.bind f).Performs l
  induction p with
  | ret r =>
    cases r with
    | ok a => exact hf a hr
    | error e => trivial
  | call l' eff next fail ihnext ihfail =>
    exact ⟨.inr fun s => ihnext s (hr.1 s), fun e => ihfail e (hr.2 e)⟩

theorem performs_modify (l : ℓ) (f : σ → σ) : (modify l f : Prog ℓ σ ε Unit).Performs l :=
  ⟨.inl rfl, fun _ => trivial⟩

/-- The program returns normally when none of its calls fails. -/
def Succeeds : Prog ℓ σ ε α → Prop
  | ret r => ∃ a, r = .ok a
  | call _ _ next _ => ∀ s, (next s).Succeeds

theorem succeeds_pure (a : α) : (pure a : Prog ℓ σ ε α).Succeeds := ⟨a, rfl⟩

theorem succeeds_query {l : ℓ} {f : σ → Except ε α} (h : ∀ s, ∃ a, f s = .ok a) :
    (query l f).Succeeds := h

theorem succeeds_modify (l : ℓ) (f : σ → σ) : (modify l f : Prog ℓ σ ε Unit).Succeeds :=
  fun _ => ⟨(), rfl⟩

theorem Succeeds.bind (hp : p.Succeeds) (hf : ∀ a, (f a).Succeeds) : (p >>= f).Succeeds := by
  change (p.bind f).Succeeds
  induction p with
  | ret r =>
    obtain ⟨a, rfl⟩ := hp
    exact hf a
  | call l eff next fail ihnext ihfail => exact fun s => ihnext s (hp s)

/-! ## What the calls of a program keep -/

/-- Every call the program can make, from any state that satisfies `I`, leads to a state that
satisfies `I` and is related to the state it found by `G` at the call's label. Failed calls
change nothing. -/
def Keeps (I : σ → Prop) (G : ℓ → σ → σ → Prop) : Prog ℓ σ ε α → Prop
  | ret _ => True
  | call l eff next fail =>
    (∀ s, I s → I (eff s) ∧ G l s (eff s) ∧ (next s).Keeps I G) ∧ ∀ e, (fail e).Keeps I G

section Keeps

variable {I : σ → Prop} {G : ℓ → σ → σ → Prop}

@[simp]
theorem keeps_ret (r : Except ε α) : (ret r : Prog ℓ σ ε α).Keeps I G := trivial

@[simp]
theorem keeps_pure (a : α) : (pure a : Prog ℓ σ ε α).Keeps I G := trivial

@[simp]
theorem keeps_throw (e : ε) : (throw e : Prog ℓ σ ε α).Keeps I G := trivial

theorem keeps_true (p : Prog ℓ σ ε α) : p.Keeps (fun _ => True) fun _ _ _ => True := by
  induction p with
  | ret r => trivial
  | call l eff next fail ihnext ihfail => exact ⟨fun s _ => ⟨trivial, trivial, ihnext s⟩, ihfail⟩

theorem Keeps.bind {Q : α → Prop} (hp : p.Keeps I G) (hr : p.Returns Q)
    (hf : ∀ a, Q a → (f a).Keeps I G) :
    (p >>= f).Keeps I G := by
  change (p.bind f).Keeps I G
  induction p with
  | ret r =>
    cases r with
    | ok a => exact hf a hr
    | error e => trivial
  | call l eff next fail ihnext ihfail =>
    refine ⟨fun s hs => ⟨(hp.1 s hs).1, (hp.1 s hs).2.1, ?_⟩, fun e => ?_⟩
    · exact ihnext s (hp.1 s hs).2.2 (hr.1 s)
    · exact ihfail e (hp.2 e) (hr.2 e)

theorem Keeps.bind_of (hp : p.Keeps I G) (hf : ∀ a, (f a).Keeps I G) : (p >>= f).Keeps I G :=
  hp.bind p.returns_true fun a _ => hf a

theorem Keeps.run (hp : p.Keeps I G) {s : σ} (hs : I s) : I (p.run s).2 := by
  induction p generalizing s with
  | ret r => exact hs
  | call l eff next fail ihnext ihfail =>
    exact ihnext s (hp.1 s hs).2.2 (hp.1 s hs).1

theorem Keeps.run_rel {R : σ → σ → Prop} (hrefl : ∀ s, R s s)
    (htrans : ∀ {s t u}, R s t → R t u → R s u) (hp : p.Keeps I fun _ => R) {s : σ} (hs : I s) :
    R s (p.run s).2 := by
  induction p generalizing s with
  | ret r => exact hrefl s
  | call l eff next fail ihnext ihfail =>
    obtain ⟨heff, hcall, hnext⟩ := hp.1 s hs
    exact htrans hcall (ihnext s hnext heff)

theorem Keeps.result (hp : p.Keeps I G) : p.result.Keeps I G := by
  induction p with
  | ret r => trivial
  | call l eff next fail ihnext ihfail =>
    exact ⟨fun s hs => ⟨(hp.1 s hs).1, (hp.1 s hs).2.1, ihnext s (hp.1 s hs).2.2⟩,
      fun e => ihfail e (hp.2 e)⟩

theorem keeps_query {l : ℓ} {f : σ → Except ε α} (hG : ∀ s, I s → G l s s) :
    (query l f).Keeps I G :=
  ⟨fun s hs => ⟨hs, hG s hs, trivial⟩, fun _ => trivial⟩

/-- After a read the program goes on with what a state in the invariant lets it read. -/
theorem Keeps.query_bind {l : ℓ} {f : σ → Except ε α} {k : Except ε α → Prog ℓ σ ε β}
    (hG : ∀ s, I s → G l s s) (hk : ∀ s, I s → (k (f s)).Keeps I G)
    (herror : ∀ e, (k (.error e)).Keeps I G) : ((query l f).result >>= k).Keeps I G :=
  ⟨fun s hs => ⟨hs, hG s hs, hk s hs⟩, herror⟩

theorem keeps_modify {l : ℓ} {f : σ → σ} (h : ∀ s, I s → I (f s) ∧ G l s (f s)) :
    (modify l f : Prog ℓ σ ε Unit).Keeps I G :=
  ⟨fun s hs => ⟨(h s hs).1, (h s hs).2, trivial⟩, fun _ => trivial⟩

theorem keeps_action {l : ℓ} {f : σ → Except ε α × σ} (h : ∀ s, I s → I (f s).2 ∧ G l s (f s).2) :
    (action l f).Keeps I G :=
  ⟨fun s hs => ⟨(h s hs).1, (h s hs).2, trivial⟩, fun _ => trivial⟩

theorem Keeps.mono {G' : ℓ → σ → σ → Prop} (hp : p.Keeps I G)
    (hG : ∀ l s t, I s → G l s t → G' l s t) : p.Keeps I G' := by
  induction p with
  | ret r => trivial
  | call l eff next fail ihnext ihfail =>
    exact ⟨fun s hs => ⟨(hp.1 s hs).1, hG l s _ hs (hp.1 s hs).2.1, ihnext s (hp.1 s hs).2.2⟩,
      fun e => ihfail e (hp.2 e)⟩

theorem Keeps.of_calls {G' : ℓ → σ → σ → Prop} (hp : p.Keeps (fun _ => True) G)
    (h : ∀ l s t, I s → G l s t → I t ∧ G' l s t) : p.Keeps I G' := by
  induction p with
  | ret r => trivial
  | call l eff next fail ihnext ihfail =>
    refine ⟨fun s hs => ?_, fun e => ihfail e (hp.2 e)⟩
    obtain ⟨-, hcall, hnext⟩ := hp.1 s trivial
    exact ⟨(h l s _ hs hcall).1, (h l s _ hs hcall).2, ihnext s hnext⟩

end Keeps

/-- A part `σ` of a state `τ`: how to read it and how to replace it. -/
structure Part (τ σ : Type) where
  get : τ → σ
  set : τ → σ → τ
  get_set : ∀ t s, get (set t s) = s
  set_get : ∀ t, set t (get t) = t
  set_set : ∀ t s s', set (set t s) s' = set t s'

variable {τ ℓ' : Type}

/-- Run a program on a part of a larger state, with its labels renamed. -/
def zoom (part : Part τ σ) (label : ℓ → ℓ') : Prog ℓ σ ε α → Prog ℓ' τ ε α
  | ret r => ret r
  | call l eff next fail =>
    call (label l) (fun t => part.set t (eff (part.get t)))
      (fun t => (next (part.get t)).zoom part label) fun e => (fail e).zoom part label

@[simp]
theorem run_zoom (part : Part τ σ) (label : ℓ → ℓ') (p : Prog ℓ σ ε α) (t : τ) :
    (p.zoom part label).run t =
      ((p.run (part.get t)).1, part.set t (p.run (part.get t)).2) := by
  induction p generalizing t with
  | ret r => rw [zoom, run, run, part.set_get]
  | call l eff next fail ihnext ihfail =>
    rw [zoom, run, run, ihnext, part.get_set, part.set_set]

theorem Keeps.zoom {part : Part τ σ} {label : ℓ → ℓ'} {I : τ → Prop} {G : ℓ' → τ → τ → Prop}
    {H : ℓ → σ → σ → Prop} (hp : p.Keeps (fun _ => True) H)
    (h : ∀ l t s, I t → H l (part.get t) s → I (part.set t s) ∧ G (label l) t (part.set t s)) :
    (p.zoom part label).Keeps I G := by
  induction p with
  | ret r => trivial
  | call l eff next fail ihnext ihfail =>
    refine ⟨fun t ht => ?_, fun e => ihfail e (hp.2 e)⟩
    obtain ⟨-, hcall, hnext⟩ := hp.1 (part.get t) trivial
    exact ⟨(h l t _ ht hcall).1, (h l t _ ht hcall).2, ihnext _ hnext⟩

end Prog
