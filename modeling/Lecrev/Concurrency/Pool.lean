import Mathlib.Logic.Function.Basic
import Lecrev.Concurrency.Program
import Lecrev.Concurrency.Transition

/-!
# Interleavings of programs

A `Pool` runs programs of atomic calls side by side on one shared state. At every move one thread
makes its next call, or finds that the call failed. The pool keeps the log of the calls made.
-/

/-- Threads `ι`, each with what is left of its program, on a shared state. -/
structure Pool (ι ℓ σ ε α : Type) where
  /-- The shared state. -/
  state : σ
  /-- What is left of the program of each thread. -/
  progs : ι → Prog ℓ σ ε α
  /-- The calls made so far, most recent first. -/
  log : List (ι × ℓ)

namespace Pool

/-- The next call of a thread is made, or fails without an effect. -/
inductive Move (ι ε : Type)
  | run (i : ι)
  | fail (i : ι) (e : ε)

/-- The thread that makes a move. -/
def Move.thread {ι ε : Type} : Move ι ε → ι
  | .run i | .fail i _ => i

variable {ι ℓ σ ε α β : Type} [DecidableEq ι]

/-- Make a move; a thread that has returned stays as it is. -/
def step (c : Pool ι ℓ σ ε α) : Move ι ε → Pool ι ℓ σ ε α
  | .run i =>
    match c.progs i with
    | .ret _ => c
    | .call l eff next _ =>
      { state := eff c.state
        progs := Function.update c.progs i (next c.state)
        log := (i, l) :: c.log }
  | .fail i e =>
    match c.progs i with
    | .ret _ => c
    | .call _ _ _ fail => { c with progs := Function.update c.progs i (fail e) }

section Step

variable {c : Pool ι ℓ σ ε α} {i : ι} {l : ℓ} {eff : σ → σ} {next : σ → Prog ℓ σ ε α}
  {fail : ε → Prog ℓ σ ε α}

theorem step_run (h : c.progs i = .call l eff next fail) :
    c.step (.run i) =
      { state := eff c.state
        progs := Function.update c.progs i (next c.state)
        log := (i, l) :: c.log } := by
  rw [step, h]

theorem step_run_of_ret {r : Except ε α} (h : c.progs i = .ret r) : c.step (.run i) = c := by
  rw [step, h]

theorem step_fail (h : c.progs i = .call l eff next fail) (e : ε) :
    c.step (.fail i e) = { c with progs := Function.update c.progs i (fail e) } := by
  rw [step, h]

theorem step_fail_of_ret {r : Except ε α} (h : c.progs i = .ret r) (e : ε) :
    c.step (.fail i e) = c := by
  rw [step, h]

theorem progs_step_run (h : c.progs i = .call l eff next fail) :
    (c.step (.run i)).progs i = next c.state := by
  rw [step_run h]
  exact Function.update_self ..

theorem progs_step_fail (h : c.progs i = .call l eff next fail) (e : ε) :
    (c.step (.fail i e)).progs i = fail e := by
  rw [step_fail h]
  exact Function.update_self ..

end Step

/-- **What a move does.** Nothing, when the thread has returned; otherwise its next call is made and
logged, or fails. -/
theorem step_cases (c : Pool ι ℓ σ ε α) (m : Move ι ε) :
    c.step m = c ∨ ∃ i l eff next fail, c.progs i = .call l eff next fail ∧
      (c.step m =
          { state := eff c.state
            progs := Function.update c.progs i (next c.state)
            log := (i, l) :: c.log } ∨
        ∃ e, c.step m = { c with progs := Function.update c.progs i (fail e) }) := by
  cases m with
  | run i =>
    cases hprog : c.progs i with
    | ret r => exact .inl (step_run_of_ret hprog)
    | call l eff next fail => exact .inr ⟨i, l, eff, next, fail, hprog, .inl (step_run hprog)⟩
  | fail i e =>
    cases hprog : c.progs i with
    | ret r => exact .inl (step_fail_of_ret hprog e)
    | call l eff next fail =>
      exact .inr ⟨i, l, eff, next, fail, hprog, .inr ⟨e, step_fail hprog e⟩⟩

/-- A move is of one thread: the programs of the others stay as they are. -/
theorem progs_step_of_ne {c : Pool ι ℓ σ ε α} {m : Move ι ε} {i : ι} (h : i ≠ m.thread) :
    (c.step m).progs i = c.progs i := by
  cases m with
  | run k =>
    cases hprog : c.progs k with
    | ret r => rw [step_run_of_ret hprog]
    | call l eff next fail =>
      rw [step_run hprog]
      exact Function.update_of_ne h _ _
  | fail k e =>
    cases hprog : c.progs k with
    | ret r => rw [step_fail_of_ret hprog]
    | call l eff next fail =>
      rw [step_fail hprog]
      exact Function.update_of_ne h _ _

/-- A thread that has returned stays so. -/
theorem progs_step_of_ret {c : Pool ι ℓ σ ε α} {i : ι} {r : Except ε α} (h : c.progs i = .ret r)
    (m : Move ι ε) : (c.step m).progs i = .ret r := by
  by_cases hm : i = m.thread
  · subst hm
    cases m with
    | run i => exact (congrArg (·.progs i) (step_run_of_ret h)).trans h
    | fail i e => exact (congrArg (·.progs i) (step_fail_of_ret h e)).trans h
  · rw [progs_step_of_ne hm, h]

/-- The interleavings: every thread may move at any time. -/
def system : Transition.System (Pool ι ℓ σ ε α) (Move ι ε) where
  step := step
  enabled _ _ := True

/-- The pool before the first call. -/
def start (s : σ) (progs : ι → Prog ℓ σ ε α) : Pool ι ℓ σ ε α := ⟨s, progs, []⟩

theorem exists_ret (c : Pool ι ℓ σ ε α) (i : ι) :
    ∃ k r, (system.exec c (.replicate k (.run i))).progs i = .ret r := by
  generalize hprog : c.progs i = p
  induction p generalizing c with
  | ret r => exact ⟨0, r, hprog⟩
  | call l eff next fail ihnext ihfail =>
    obtain ⟨k, r, hr⟩ := ihnext c.state (c.step (.run i)) (by simp [step_run hprog])
    exact ⟨k + 1, r, hr⟩

/-- The shared state satisfies `I`, and what is left of every program keeps `I` and makes only
calls of its thread's kind. -/
structure Guarded (I : σ → Prop) (G : ι → ℓ → σ → σ → Prop) (c : Pool ι ℓ σ ε α) : Prop where
  inv : I c.state
  keeps : ∀ i, (c.progs i).Keeps I (G i)

section Guarded

variable {I : σ → Prop} {G : ι → ℓ → σ → σ → Prop}

theorem Guarded.update {c : Pool ι ℓ σ ε α} (h : c.Guarded I G) {i : ι} {p : Prog ℓ σ ε α}
    (hp : p.Keeps I (G i)) (k : ι) : (Function.update c.progs i p k).Keeps I (G k) := by
  by_cases hk : k = i
  · subst hk
    rw [Function.update_self]
    exact hp
  · rw [Function.update_of_ne hk]
    exact h.keeps k

theorem Guarded.step_cases {c : Pool ι ℓ σ ε α} (h : c.Guarded I G) (m : Move ι ε) :
    (c.step m).Guarded I G ∧
      (((c.step m).state = c.state ∧ (c.step m).log = c.log) ∨
        ∃ i l, (c.step m).log = (i, l) :: c.log ∧ G i l c.state (c.step m).state) := by
  obtain hsame | ⟨i, l, eff, next, fail, hprog, hmade | ⟨e, hfailed⟩⟩ := c.step_cases m
  · rw [hsame]
    exact ⟨h, .inl ⟨rfl, rfl⟩⟩
  · have hi := h.keeps i
    rw [hprog] at hi
    obtain ⟨hinv, hcall, hnext⟩ := hi.1 c.state h.inv
    rw [hmade]
    exact ⟨⟨hinv, h.update hnext⟩, .inr ⟨i, l, rfl, hcall⟩⟩
  · have hi := h.keeps i
    rw [hprog] at hi
    rw [hfailed]
    exact ⟨⟨h.inv, h.update (hi.2 e)⟩, .inl ⟨rfl, rfl⟩⟩

end Guarded

/-! ## Last writers -/

/-- A call with a label in `w` leaves a value in `P` in the cell; other calls leave it alone. -/
def Writes (w : ℓ → Bool) (cell : σ → β) (P : β → Prop) (l : ℓ) (s s' : σ) : Prop :=
  if w l then P (cell s') else cell s' = cell s

/-- The thread that made the last call with a label in `w`. -/
def lastWriter (w : ℓ → Bool) (log : List (ι × ℓ)) : Option ι :=
  (log.find? fun entry => w entry.2).map Prod.fst

omit [DecidableEq ι] in
theorem lastWriter_cons (w : ℓ → Bool) (i : ι) (l : ℓ) (log : List (ι × ℓ)) :
    lastWriter w ((i, l) :: log) = if w l then some i else lastWriter w log := by
  unfold lastWriter
  rw [List.find?_cons]
  cases w l <;> rfl

omit [DecidableEq ι] in
theorem exists_lastWriter {w : ℓ → Bool} {log : List (ι × ℓ)} {i : ι} {l : ℓ}
    (hmem : (i, l) ∈ log) (hw : w l = true) : ∃ k, lastWriter w log = some k := by
  rw [← Option.isSome_iff_exists, lastWriter, Option.isSome_map, List.find?_isSome]
  exact ⟨(i, l), hmem, hw⟩

/-- **The last writer decides.** When every thread `i` leaves only values in `P i` in a cell, the
cell holds a value of its last writer. -/
theorem lastWriter_spec {w : ℓ → Bool} {cell : σ → β} {P : ι → β → Prop} {s : σ}
    {progs : ι → Prog ℓ σ ε α}
    (hprogs : ∀ i, (progs i).Keeps (fun _ => True) (Writes w cell (P i))) (ms : List (Move ι ε))
    {i : ι} (hlast : lastWriter w (system.exec (start s progs) ms).log = some i) :
    P i (cell (system.exec (start s progs) ms).state) := by
  -- the invariant carries the guards along with what the last writer left
  let Left (c : Pool ι ℓ σ ε α) : Prop :=
    c.Guarded (fun _ => True) (fun i => Writes w cell (P i)) ∧
      ∀ i, lastWriter w c.log = some i → P i (cell c.state)
  have hleft : Left (system.exec (start s progs) ms) := by
    refine system.exec_invariant ms ⟨⟨trivial, hprogs⟩, fun i h => nomatch h⟩ ?_
    rintro c m ⟨hguarded, hcell⟩
    obtain ⟨hnext, ⟨hstate, hlog⟩ | ⟨k, l, hlog, hcall⟩⟩ := hguarded.step_cases m
    · refine ⟨hnext, fun i hi => ?_⟩
      change P i (cell (c.step m).state)
      rw [hstate]
      exact hcell i (hlog ▸ hi)
    · refine ⟨hnext, fun i hi => ?_⟩
      change lastWriter w (c.step m).log = some i at hi
      change P i (cell (c.step m).state)
      rw [hlog, lastWriter_cons] at hi
      unfold Writes at hcall
      split_ifs at hi hcall with hw
      · cases hi
        exact hcall
      · rw [hcall]
        exact hcell i hi
  exact hleft.2 i hlast

/-- A program that returned has made the calls it performs. -/
theorem mem_log_of_performs {s : σ} {progs : ι → Prog ℓ σ ε α} {i : ι} {l : ℓ}
    (hperforms : (progs i).Performs l) (ms : List (Move ι ε)) {a : α}
    (hret : (system.exec (start s progs) ms).progs i = .ret (.ok a)) :
    (i, l) ∈ (system.exec (start s progs) ms).log := by
  -- until the call is made, what is left of the program still performs it
  have hinv : (i, l) ∈ (system.exec (start s progs) ms).log ∨
      ((system.exec (start s progs) ms).progs i).Performs l := by
    refine system.exec_invariant (P := fun c => (i, l) ∈ c.log ∨ (c.progs i).Performs l) ms
      (.inr hperforms) ?_
    intro c m hc
    change (i, l) ∈ (c.step m).log ∨ ((c.step m).progs i).Performs l
    obtain hsame | ⟨k, l', eff, next, fail, hprog, hmade | ⟨e, hfailed⟩⟩ := c.step_cases m
    · rw [hsame]
      exact hc
    · rw [hmade]
      obtain hlog | hleft := hc
      · exact .inl (List.mem_cons_of_mem _ hlog)
      · by_cases hk : i = k
        · subst hk
          rw [hprog] at hleft
          obtain rfl | hnext := hleft.1
          · exact .inl List.mem_cons_self
          · exact .inr (by simpa using hnext c.state)
        · exact .inr (by simpa [Function.update_of_ne hk] using hleft)
    · rw [hfailed]
      refine hc.imp id fun hleft => ?_
      by_cases hk : i = k
      · subst hk
        rw [hprog] at hleft
        simpa using hleft.2 e
      · simpa [Function.update_of_ne hk] using hleft
  rw [hret] at hinv
  exact hinv.resolve_right id

end Pool
