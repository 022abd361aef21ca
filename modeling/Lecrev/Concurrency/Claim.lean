import Lecrev.Concurrency.RelyGuarantee

/-!
# Claiming a cell of the shared state

Threads compete for a cell of the shared state. A thread that finds the cell free takes it, makes a
resource, and writes the name of the resource into the cell; when it fails to make one it frees the
cell. Who holds the cell is ghost state, the `Phase`; how a phase shows in the state is left to the
user of this file, as are the calls that make a resource.
-/

namespace Claim

/-- Who holds the cell: nobody, a thread that may have made a resource, or a thread that has written
the name of its resource into the cell. -/
inductive Phase (ι κ : Type)
  | free
  | held (i : ι) (made : Option κ)
  | completed (i : ι) (id : κ)

/-- The thread that took the cell. -/
def Phase.holder {ι κ : Type} : Phase ι κ → Option ι
  | .free => none
  | .held i _ => some i
  | .completed i _ => some i

/-- The resource that was made. -/
def Phase.made {ι κ : Type} : Phase ι κ → Option κ
  | .free => none
  | .held _ made => made
  | .completed _ id => some id

/-- How the phases show in the state, and which calls make a resource. -/
structure Scheme (ι ℓ σ κ : Type) where
  /-- The state shows the phase. -/
  shows : Phase ι κ → σ → Prop
  /-- What all threads keep of the rest of the state. -/
  keeps : σ → Prop
  /-- The resource that a call makes. -/
  creates : ℓ → Option κ
  /-- The resource a holder may name when it has made the given one. -/
  names : Option κ → κ → Prop

namespace Scheme

variable {ι ℓ σ κ : Type} (S : Scheme ι ℓ σ κ)

/-- The state shows the phase, and the rest of the state is as the threads keep it. -/
structure Valid (p : Phase ι κ) (s : σ) : Prop where
  shows : S.shows p s
  keeps : S.keeps s

/-- What a call of the thread `i` may do to the phase. -/
inductive Moves (i : ι) : ℓ → Phase ι κ → Phase ι κ → Prop
  | stay {l p} (hl : S.creates l = none) : Moves i l p p
  | take {l} (hl : S.creates l = none) : Moves i l .free (.held i none)
  | make {l id} (hl : S.creates l = some id) : Moves i l (.held i none) (.held i (some id))
  | complete {l made id} (hl : S.creates l = none) (hnames : S.names made id) :
    Moves i l (.held i made) (.completed i id)
  | release {l} (hl : S.creates l = none) : Moves i l (.held i none) .free

/-- What the others leave to the thread `i`: its hold, and a completed cell. -/
structure Stays (i : ι) (p p' : Phase ι κ) : Prop where
  held : ∀ made, p = .held i made → p' = p
  completed : ∀ j id, p = .completed j id → p' = p

theorem Stays.refl (i : ι) (p : Phase ι κ) : Stays i p p := ⟨fun _ _ => rfl, fun _ _ _ => rfl⟩

theorem Stays.trans {i : ι} {p p' p'' : Phase ι κ} (h : Stays i p p') (h' : Stays i p' p'') :
    Stays i p p'' where
  held made hp := (h'.held made ((h.held made hp).trans hp)).trans (h.held made hp)
  completed j id hp := (h'.completed j id ((h.completed j id hp).trans hp)).trans
    (h.completed j id hp)

variable {S}

theorem Moves.stays {i j : ι} {l : ℓ} {p p' : Phase ι κ} (h : S.Moves i l p p') (hij : i ≠ j) :
    Stays j p p' := by
  cases h with
  | stay hl => exact Stays.refl j p
  | take hl => exact ⟨nofun, nofun⟩
  | make hl => exact ⟨fun _ h => absurd (Phase.held.inj h).1 hij, nofun⟩
  | complete hl hnames => exact ⟨fun _ h => absurd (Phase.held.inj h).1 hij, nofun⟩
  | release hl => exact ⟨fun _ h => absurd (Phase.held.inj h).1 hij, nofun⟩

theorem Moves.holder {i : ι} {l : ℓ} {p p' : Phase ι κ} (h : S.Moves i l p p') :
    p'.holder = p.holder ∨ (p = .free ∧ p'.holder = some i) ∨ p' = .free := by
  cases h with
  | stay hl => exact .inl rfl
  | take hl => exact .inr (.inl ⟨rfl, rfl⟩)
  | make hl => exact .inl rfl
  | complete hl hnames => exact .inl rfl
  | release hl => exact .inr (.inr rfl)

variable (S)

/-- The protocol of the thread `i`. Every call may be made at any time, and every call may fail. -/
def protocol (i : ι) : Protocol ℓ σ (Phase ι κ) where
  rely p s p' s' := (S.Valid p s → S.Valid p' s') ∧ Stays i p p'
  guar l p s p' s' := (S.Valid p s → S.Valid p' s') ∧ S.Moves i l p p'
  meets _ _ := True
  fallible _ := True
  rely_refl p _ := ⟨id, Stays.refl i p⟩
  rely_trans h h' := ⟨h'.1 ∘ h.1, h.2.trans h'.2⟩

theorem compatible_protocol : Pool.Compatible S.protocol :=
  fun _ _ hij _ _ _ _ _ h => ⟨h.1, h.2.stays hij⟩

theorem admits_protocol {ε α : Type} [DecidableEq ι] (c : Pool ι ℓ σ ε α)
    (ms : List (Pool.Move ι ε)) : Pool.system.EveryStep (Pool.Admits S.protocol) c ms := by
  induction ms generalizing c with
  | nil => trivial
  | cons m ms ih =>
    refine ⟨?_, ih _⟩
    cases m with
    | run i => exact fun _ _ _ _ _ => trivial
    | fail i e => exact fun _ _ _ _ _ => trivial

/-! ## Calls of a thread -/

section Safe

variable {S} {ε α : Type} {i : ι} {p : Phase ι κ} {s : σ}

/-- A single call is safe when, whatever phase it meets, it moves to a phase that the state then
shows; the postcondition has to hold as long as the others leave to the thread what is its own. -/
theorem safe_action {l : ℓ} {f : σ → Except ε α × σ} {Q : Except ε α → Phase ι κ → σ → Prop}
    (hs : S.Valid p s)
    (hcall : ∀ q t, S.Valid q t → Stays i p q → ∃ q', S.Valid q' (f t).2 ∧ S.Moves i l q q' ∧
      ∀ r u, S.Valid r u → Stays i q' r → Q (f t).1 r u)
    (hfail : ∀ e q t, S.Valid q t → Stays i p q → Q (.error e) q t) :
    (Prog.action l f).Safe (S.protocol i) Q p s := by
  rintro q t ⟨hvalid, hstays⟩
  refine ⟨fun _ => ?_, fun _ e r u hrely => ?_⟩
  · obtain ⟨q', hq', hmoves, hQ⟩ := hcall q t (hvalid hs) hstays
    exact ⟨q', ⟨fun _ => hq', hmoves⟩, fun r u hrely => hQ r u (hrely.1 hq') hrely.2⟩
  · exact hfail e r u (hrely.1 (hvalid hs)) (hstays.trans hrely.2)

theorem safe_query {l : ℓ} {f : σ → Except ε α} {Q : Except ε α → Phase ι κ → σ → Prop}
    (hl : S.creates l = none) (hs : S.Valid p s)
    (hcall : ∀ q t, S.Valid q t → Stays i p q → ∀ r u, S.Valid r u → Stays i q r → Q (f t) r u)
    (hfail : ∀ e q t, S.Valid q t → Stays i p q → Q (.error e) q t) :
    (Prog.query l f).Safe (S.protocol i) Q p s :=
  safe_action (f := fun t => (f t, t)) hs
    (fun q t hq hstays => ⟨q, hq, .stay hl, hcall q t hq hstays⟩) hfail

/-- While a thread holds the cell, a program that makes no resource and leaves every phase shown is
safe, and the thread holds the cell when it returns. -/
theorem safe_of_keeps {c : Prog ℓ σ ε α} {made : Option κ}
    (hc : c.Keeps (fun _ => True) fun l s s' =>
      S.creates l = none ∧ (S.Valid (.held i made) s → S.Valid (.held i made) s'))
    (hs : S.Valid (.held i made) s) :
    c.Safe (S.protocol i) (fun _ q t => q = .held i made ∧ S.Valid q t) (.held i made) s := by
  refine Prog.Keeps.safe (J := fun q t => q = .held i made ∧ S.Valid q t) hc ⟨rfl, hs⟩
    (fun _ => trivial) ?_ ?_
  · rintro q t q' t' ⟨hvalid, hstays⟩ ⟨rfl, hq⟩
    obtain rfl := hstays.held made rfl
    exact ⟨rfl, hvalid hq⟩
  · rintro l q t t' ⟨rfl, hq⟩ - ⟨hl, hkeeps⟩
    exact ⟨⟨hkeeps, .stay hl⟩, rfl, hkeeps hq⟩

end Safe

/-- The resources made by the calls of a log, most recent first. -/
def made (log : List (ι × ℓ)) : List κ := log.filterMap fun entry => S.creates entry.2

theorem made_cons (i : ι) (l : ℓ) (log : List (ι × ℓ)) :
    S.made ((i, l) :: log) = (S.creates l).toList ++ S.made log := by
  unfold made
  rw [List.filterMap_cons]
  cases S.creates l <;> rfl

/-- The state shows the phase, and the calls so far made the resource of the phase and no other. -/
structure Recorded (p : Phase ι κ) (s : σ) (log : List (ι × ℓ)) : Prop where
  valid : S.Valid p s
  made : S.made log = p.made.toList

theorem keeping_recorded (hnames : ∀ made id, S.names made id → made = some id) :
    Pool.Keeping S.protocol S.Recorded := by
  rintro i l p s p' s' log ⟨hvalid, hmoves⟩ ⟨hs, hmade⟩
  refine ⟨hvalid hs, ?_⟩
  rw [made_cons, hmade]
  cases hmoves with
  | stay hl => rw [hl]; rfl
  | take hl => rw [hl]; rfl
  | make hl => rw [hl]; rfl
  | complete hl hid => rw [hl, hnames _ _ hid]; rfl
  | release hl => rw [hl]; rfl

theorem keeping_valid : Pool.Keeping S.protocol fun p s _ => S.Valid p s :=
  fun _ _ _ _ _ _ _ h hs => h.1 hs

/-! ## The holder of the cell -/

section Holder

variable {S} {ε α β : Type} [DecidableEq ι] {Q : ι → Except ε α → Phase ι κ → σ → Prop}
  {f : σ → Option β} {b : ι → β}

/-- Threads that keep to the protocol, in a state that shows the phase. -/
abbrev Following (S : Scheme ι ℓ σ κ) (Q : ι → Except ε α → Phase ι κ → σ → Prop)
    (c : Pool ι ℓ σ ε α) : Prop :=
  Pool.AllSafe S.protocol Q (fun p s _ => S.Valid p s) c

/-- Every step keeps the pool following the scheme. -/
theorem Following.step {c : Pool ι ℓ σ ε α} (hc : Following S Q c) (m : Pool.Move ι ε) :
    Following S Q (c.step m) :=
  Pool.AllSafe.step S.compatible_protocol S.keeping_valid (S.admits_protocol c [m]).1 hc

/-- Let `f` read from the state something that the holder of the cell determines, and nothing when
the cell is free. A move that leaves something to read leaves what was there, or fills an empty `f`
with what its thread determines. -/
theorem Following.read_step (hf : ∀ p s, S.Valid p s → f s = p.holder.map b)
    {c : Pool ι ℓ σ ε α} (hc : Following S Q c) {m : Pool.Move ι ε}
    (hsome : (f (c.step m).state).isSome) :
    f (c.step m).state = f c.state ∨
      ∃ i, m = .run i ∧ f c.state = none ∧ f (c.step m).state = some (b i) := by
  obtain ⟨hstate, -⟩ | ⟨i, l, p, p', hm, hp, ⟨-, hmoves⟩, hp', -⟩ :=
    Pool.AllSafe.step_cases S.compatible_protocol S.keeping_valid (S.admits_protocol c [m]).1 hc
  · exact .inl (by rw [hstate])
  · rw [hf _ _ hp'] at hsome ⊢
    rw [hf _ _ hp]
    obtain hsame | ⟨rfl, htaken⟩ | rfl := hmoves.holder
    · exact .inl (by rw [hsame])
    · exact .inr ⟨i, hm, rfl, by rw [htaken]; rfl⟩
    · -- the cell was released, so there is nothing to read
      cases hsome

/-- **The holder stays.** The thread that fills an empty `f` determines what `f` reads for as long
as it reads something. -/
theorem Following.read_exec (hf : ∀ p s, S.Valid p s → f s = p.holder.map b)
    {c : Pool ι ℓ σ ε α} (hc : Following S Q c) {k : ι} {ms : List (Pool.Move ι ε)}
    (habsent : f c.state = none)
    (hpresent : Pool.system.EveryStep (fun c m => (f (c.step m).state).isSome) c (.run k :: ms)) :
    f (Pool.system.exec c (.run k :: ms)).state = some (b k) := by
  obtain ⟨hfirst, hrest⟩ := hpresent
  have htaken : f (c.step (.run k)).state = some (b k) := by
    obtain hsame | ⟨i, hm, -, hi⟩ := hc.read_step hf hfirst
    · rw [hsame, habsent] at hfirst
      cases hfirst
    · cases hm
      exact hi
  -- from then on the cell is never free, so nobody takes it
  have hinv : Following S Q (Pool.system.exec c (.run k :: ms)) ∧
      f (Pool.system.exec c (.run k :: ms)).state = some (b k) := by
    refine hrest.invariant (P := fun c => Following S Q c ∧ f c.state = some (b k))
      ⟨hc.step _, htaken⟩ ?_
    rintro c m hsome ⟨hc, hk⟩
    refine ⟨hc.step m, ?_⟩
    obtain hsame | ⟨i, -, hnone, -⟩ := hc.read_step hf hsome
    · exact hsame.trans hk
    · rw [hk] at hnone
      cases hnone
  exact hinv.2

end Holder

end Scheme

end Claim
