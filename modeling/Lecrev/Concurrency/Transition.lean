import Mathlib.Data.List.Basic

/-!
# Runs of labelled transition systems

A `System` has a total step function and a predicate saying which labels may occur in a state.
`System.Runs s ls` says that the labels `ls` may occur one after the other from `s`;
`System.exec s ls` is the state they lead to.
-/

namespace Transition

/-- A labelled transition system: a total step function and the labels a state admits. -/
structure System (S L : Type) where
  /-- The state a label leads to. -/
  step : S → L → S
  /-- The labels that may occur in a state. -/
  enabled : S → L → Prop

namespace System

variable {S L : Type} (sys : System S L) {ls : List L} {c : S → L → Prop} {s : S}

/-- The state reached from `s` by the labels `ls`. -/
def exec (s : S) (ls : List L) : S := ls.foldl sys.step s

@[simp]
theorem exec_nil (s : S) : sys.exec s [] = s := rfl

@[simp]
theorem exec_cons (s : S) (l : L) (ls : List L) :
    sys.exec s (l :: ls) = sys.exec (sys.step s l) ls := rfl

theorem exec_append (s : S) (ls₁ ls₂ : List L) :
    sys.exec s (ls₁ ++ ls₂) = sys.exec (sys.exec s ls₁) ls₂ := by
  rw [exec, List.foldl_append]
  rfl

/-- `c` holds of every label of `ls` in the state it is taken from. -/
def EveryStep (c : S → L → Prop) : S → List L → Prop
  | _, [] => True
  | s, l :: ls => c s l ∧ EveryStep c (sys.step s l) ls

@[simp]
theorem everyStep_nil (c : S → L → Prop) (s : S) : sys.EveryStep c s [] := trivial

@[simp]
theorem everyStep_cons (c : S → L → Prop) (s : S) (l : L) (ls : List L) :
    sys.EveryStep c s (l :: ls) ↔ c s l ∧ sys.EveryStep c (sys.step s l) ls := Iff.rfl

theorem everyStep_append (c : S → L → Prop) (s : S) (ls₁ ls₂ : List L) :
    sys.EveryStep c s (ls₁ ++ ls₂) ↔
      sys.EveryStep c s ls₁ ∧ sys.EveryStep c (sys.exec s ls₁) ls₂ := by
  induction ls₁ generalizing s with
  | nil => simp
  | cons l ls₁ ih => simp [ih, and_assoc]

theorem everyStep_iff_forall_split :
    sys.EveryStep c s ls ↔ ∀ ls₁ l ls₂, ls = ls₁ ++ l :: ls₂ → c (sys.exec s ls₁) l := by
  induction ls generalizing s with
  | nil => exact iff_of_true trivial fun ls₁ l ls₂ h => by simp at h
  | cons l ls ih =>
    rw [everyStep_cons, ih]
    constructor
    · rintro ⟨hl, hls⟩ (_ | ⟨l', ls₁⟩) l'' ls₂ h
      · obtain ⟨rfl, rfl⟩ := List.cons.inj h
        exact hl
      · obtain ⟨rfl, rfl⟩ := List.cons.inj h
        exact hls ls₁ l'' ls₂ rfl
    · intro h
      refine ⟨h [] l ls rfl, fun ls₁ l' ls₂ hls => h (l :: ls₁) l' ls₂ ?_⟩
      rw [hls, List.cons_append]

instance decidableEveryStep (c : S → L → Prop) [∀ s l, Decidable (c s l)] (s : S) :
    (ls : List L) → Decidable (sys.EveryStep c s ls)
  | [] => .isTrue trivial
  | l :: ls =>
    have := decidableEveryStep c (sys.step s l) ls
    inferInstanceAs (Decidable (c s l ∧ sys.EveryStep c (sys.step s l) ls))

/-- The labels `ls` may occur one after the other from `s`. -/
def Runs (s : S) (ls : List L) : Prop := sys.EveryStep sys.enabled s ls

variable {sys}

theorem EveryStep.mono {d : S → L → Prop} (h : sys.EveryStep c s ls) (hcd : ∀ s l, c s l → d s l) :
    sys.EveryStep d s ls := by
  induction ls generalizing s with
  | nil => trivial
  | cons l ls ih => exact ⟨hcd s l h.1, ih h.2⟩

variable (sys) in
theorem everyStep_of_forall (h : ∀ s l, c s l) (s : S) (ls : List L) :
    sys.EveryStep c s ls := by
  induction ls generalizing s with
  | nil => trivial
  | cons l ls ih => exact ⟨h s l, ih (sys.step s l)⟩

variable (sys) in
theorem everyStep_of_forall_mem {c : L → Prop} (s : S) (h : ∀ l ∈ ls, c l) :
    sys.EveryStep (fun _ l => c l) s ls := by
  induction ls generalizing s with
  | nil => trivial
  | cons l ls ih =>
    exact ⟨h l List.mem_cons_self, ih _ fun l' hl' => h l' (List.mem_cons_of_mem l hl')⟩

theorem EveryStep.congr {b d : S → L → Prop} (h : sys.EveryStep b s ls)
    (hcd : ∀ s l, b s l → (c s l ↔ d s l)) : sys.EveryStep c s ls ↔ sys.EveryStep d s ls := by
  induction ls generalizing s with
  | nil => simp
  | cons l ls ih => rw [everyStep_cons, everyStep_cons, hcd s l h.1, ih h.2]

theorem everyStep_and {d : S → L → Prop} :
    sys.EveryStep (fun s l => c s l ∧ d s l) s ls ↔
      sys.EveryStep c s ls ∧ sys.EveryStep d s ls := by
  induction ls generalizing s with
  | nil => simp
  | cons l ls ih =>
    rw [everyStep_cons, everyStep_cons, everyStep_cons, ih]
    tauto

/-- **Invariant rule.** A predicate that holds at the start and that every step satisfying `c`
keeps holds in the state a run of such steps reaches. -/
theorem EveryStep.invariant {P : S → Prop} (h : sys.EveryStep c s ls) (hs : P s)
    (hstep : ∀ s l, c s l → P s → P (sys.step s l)) : P (sys.exec s ls) := by
  induction ls generalizing s with
  | nil => exact hs
  | cons l ls ih => exact ih h.2 (hstep s l h.1 hs)

/-- What every enabled step keeps holds after a run. -/
theorem Runs.invariant {P : S → Prop} (h : sys.Runs s ls) (hs : P s)
    (hstep : ∀ s l, sys.enabled s l → P s → P (sys.step s l)) : P (sys.exec s ls) :=
  EveryStep.invariant h hs hstep

variable (sys) in
/-- What every step keeps holds after any run. -/
theorem exec_invariant {P : S → Prop} (ls : List L) (hs : P s)
    (hstep : ∀ s l, P s → P (sys.step s l)) : P (sys.exec s ls) := by
  induction ls generalizing s with
  | nil => exact hs
  | cons l ls ih => exact ih (hstep s l hs)

/-- An invariant holds before every step. -/
theorem EveryStep.and_invariant {P : S → Prop} (h : sys.EveryStep c s ls) (hs : P s)
    (hstep : ∀ s l, c s l → P s → P (sys.step s l)) :
    sys.EveryStep (fun s l => c s l ∧ P s) s ls := by
  induction ls generalizing s with
  | nil => trivial
  | cons l ls ih => exact ⟨⟨h.1, hs⟩, ih h.2 (hstep s l h.1 hs)⟩

theorem everyStep_not_of_exec {P : S → Prop} (h : ¬ P (sys.exec s ls))
    (hstep : ∀ s l, P s → P (sys.step s l)) : sys.EveryStep (fun s _ => ¬ P s) s ls := by
  induction ls generalizing s with
  | nil => trivial
  | cons l ls ih =>
    refine ⟨fun hs => h ?_, ih h⟩
    exact sys.exec_invariant (l :: ls) hs hstep

/-- If a step keeps `P` exactly when it satisfies `c`, then `P` holds all along a run exactly when
every step satisfies `c`. -/
theorem EveryStep.forall_prefix_iff {b : S → L → Prop} {P : S → Prop} (h : sys.EveryStep b s ls)
    (hs : P s) (hstep : ∀ s l, b s l → P s → (P (sys.step s l) ↔ c s l)) :
    (∀ ls₁, ls₁ <+: ls → P (sys.exec s ls₁)) ↔ sys.EveryStep c s ls := by
  induction ls generalizing s with
  | nil =>
    refine iff_of_true (fun ls₁ hls₁ => ?_) trivial
    rw [List.prefix_nil.mp hls₁]
    exact hs
  | cons l ls ih =>
    rw [everyStep_cons]
    constructor
    · intro hall
      have hfirst : P (sys.step s l) := hall [l] (by simp)
      refine ⟨(hstep s l h.1 hs).mp hfirst, (ih h.2 hfirst).mp fun ls₁ hls₁ => ?_⟩
      exact hall (l :: ls₁) (List.cons_prefix_cons.mpr ⟨rfl, hls₁⟩)
    · rintro ⟨hl, hlater⟩ ls₁ hls₁
      obtain rfl | ⟨ls₂, rfl, hls₂⟩ := List.prefix_cons_iff.mp hls₁
      · exact hs
      · exact (ih h.2 ((hstep s l h.1 hs).mpr hl)).mpr hlater ls₂ hls₂

variable (sys) in
/-- `R` relates every state of the run `ls` from `s` to every state the run reaches later. -/
def Ordered (R : S → S → Prop) (s : S) (ls : List L) : Prop :=
  ∀ ls₁ ls₂ ls₃, ls = ls₁ ++ ls₂ ++ ls₃ → R (sys.exec s ls₁) (sys.exec s (ls₁ ++ ls₂))

theorem EveryStep.rel_exec {R : S → S → Prop} (hrefl : ∀ s, R s s)
    (htrans : ∀ s t u, R s t → R t u → R s u)
    (h : sys.EveryStep (fun s l => R s (sys.step s l)) s ls) : R s (sys.exec s ls) := by
  induction ls generalizing s with
  | nil => exact hrefl s
  | cons l ls ih => exact htrans _ _ _ h.1 (ih h.2)

/-- A preorder relates all earlier states of a run to all later ones exactly when every single
step of the run stays inside it. -/
theorem everyStep_iff_ordered {R : S → S → Prop} (hrefl : ∀ s, R s s)
    (htrans : ∀ s t u, R s t → R t u → R s u) :
    sys.EveryStep (fun s l => R s (sys.step s l)) s ls ↔ sys.Ordered R s ls := by
  constructor
  · rintro h ls₁ ls₂ ls₃ rfl
    rw [everyStep_append, everyStep_append] at h
    rw [exec_append]
    exact EveryStep.rel_exec hrefl htrans h.1.2
  · intro h
    induction ls generalizing s with
    | nil => trivial
    | cons l ls ih =>
      refine ⟨h [] [l] ls rfl, ih ?_⟩
      rintro ls₁ ls₂ ls₃ rfl
      exact h (l :: ls₁) ls₂ ls₃ rfl

/-- An observation that can only go down in a partial order has its first value at the end of a run
exactly when no step of the run changes it. -/
theorem EveryStep.observed_eq_iff {α : Type} {f : S → α} {R : α → α → Prop} (hrefl : ∀ x, R x x)
    (htrans : ∀ x y z, R x y → R y z → R x z) (hantisymm : ∀ x y, R x y → R y x → x = y)
    (h : sys.EveryStep c s ls) (hstep : ∀ s l, c s l → R (f (sys.step s l)) (f s)) :
    f (sys.exec s ls) = f s ↔ sys.EveryStep (fun s l => f (sys.step s l) = f s) s ls := by
  have hlast {s : S} {ls : List L} (h : sys.EveryStep c s ls) : R (f (sys.exec s ls)) (f s) :=
    EveryStep.rel_exec (R := fun s t => R (f t) (f s)) (fun s => hrefl (f s))
      (fun s t u hst htu => htrans _ _ _ htu hst) (h.mono hstep)
  induction ls generalizing s with
  | nil => simp
  | cons l ls ih =>
    rw [everyStep_cons, exec_cons]
    constructor
    · intro heq
      have hfirst : f (sys.step s l) = f s :=
        hantisymm _ _ (hstep s l h.1) (heq ▸ hlast h.2)
      exact ⟨hfirst, (ih h.2).mp (heq.trans hfirst.symm)⟩
    · rintro ⟨hfirst, hlater⟩
      exact ((ih h.2).mpr hlater).trans hfirst

variable (sys) in
/-- What the steps of a run put out, one after the other. -/
def outputs {α : Type} (f : S → L → List α) : S → List L → List α
  | _, [] => []
  | s, l :: ls => f s l ++ outputs f (sys.step s l) ls

/-- **First in, first out.** If every step puts something at the end of a list that the states carry
and takes something from its front, then a run takes out what was on the list and what it put there,
in that order, up to what is left. -/
theorem EveryStep.outputs_eq {α : Type} {put took : S → L → List α} (h : sys.EveryStep c s ls)
    (content : S → List α)
    (hstep : ∀ s l, c s l → content s ++ put s l = took s l ++ content (sys.step s l)) :
    content s ++ sys.outputs put s ls = sys.outputs took s ls ++ content (sys.exec s ls) := by
  induction ls generalizing s with
  | nil => simp [outputs]
  | cons l ls ih =>
    calc content s ++ (put s l ++ sys.outputs put (sys.step s l) ls)
        = took s l ++ (content (sys.step s l) ++ sys.outputs put (sys.step s l) ls) := by
          rw [← List.append_assoc, hstep s l h.1, List.append_assoc]
      _ = took s l ++ sys.outputs took (sys.step s l) ls ++ content (sys.exec s (l :: ls)) := by
          rw [ih h.2, List.append_assoc, exec_cons]

end System

end Transition
