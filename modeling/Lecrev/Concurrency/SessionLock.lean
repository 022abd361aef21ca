import Mathlib.Data.Nat.Notation
import Mathlib.Tactic.SplitIfs

/-!
# Locks that sessions hold

A lock that is taken and given back by sessions, as the advisory locks of a database are: the
session that holds it may take it again, and has it until it has given it back as often. A session
that ends loses it.

`SessionLock.Holds` says that a session holds the lock. What other sessions do does not change this:
`Holds.tryLock`, `Holds.unlock`, `Holds.endSessions`.
-/

/-- A lock: the session that holds it, and how often the session took it after the first time. -/
inductive SessionLock (κ : Type)
  | free
  | held (session : κ) (again : ℕ)
  deriving DecidableEq, Repr

namespace SessionLock

variable {κ : Type} [DecidableEq κ]

/-- Take the lock unless another session holds it, and say whether it was taken. -/
def tryLock (k : κ) : SessionLock κ → Bool × SessionLock κ
  | .free => (true, .held k 0)
  | .held session again =>
    if session = k then (true, .held session (again + 1)) else (false, .held session again)

/-- Give the lock back once, and say whether it was held. -/
def unlock (k : κ) : SessionLock κ → Bool × SessionLock κ
  | .free => (false, .free)
  | .held session again =>
    if session = k then (true, if again = 0 then .free else .held session (again - 1))
    else (false, .held session again)

/-- The lock after some sessions have ended. -/
def endSessions (ended : κ → Bool) : SessionLock κ → SessionLock κ
  | .free => .free
  | .held session again => if ended session then .free else .held session again

/-- The session holds the lock. -/
def Holds (lock : SessionLock κ) (k : κ) : Prop := ∃ again, lock = .held k again

section Holds

variable {lock : SessionLock κ} {k k' : κ}

omit [DecidableEq κ] in
theorem Holds.unique (h : lock.Holds k) (h' : lock.Holds k') : k = k' := by
  obtain ⟨_, rfl⟩ := h
  obtain ⟨_, heq⟩ := h'
  cases heq
  rfl

theorem holds_of_tryLock (h : (lock.tryLock k).1 = true) : (lock.tryLock k).2.Holds k := by
  cases lock with
  | free => exact ⟨0, rfl⟩
  | held session again =>
    rw [tryLock] at h ⊢
    split_ifs at h ⊢ with heq
    subst heq
    exact ⟨again + 1, rfl⟩

theorem Holds.tryLock (h : lock.Holds k) (k' : κ) : (lock.tryLock k').2.Holds k := by
  obtain ⟨again, rfl⟩ := h
  rw [SessionLock.tryLock]
  split_ifs
  · exact ⟨again + 1, rfl⟩
  · exact ⟨again, rfl⟩

theorem Holds.unlock (h : lock.Holds k) (hne : k ≠ k') : (lock.unlock k').2.Holds k := by
  obtain ⟨again, rfl⟩ := h
  rw [SessionLock.unlock, if_neg hne]
  exact ⟨again, rfl⟩

omit [DecidableEq κ] in
theorem Holds.endSessions (h : lock.Holds k) {ended : κ → Bool} (hk : ended k = false) :
    (lock.endSessions ended).Holds k := by
  obtain ⟨again, rfl⟩ := h
  rw [SessionLock.endSessions, hk]
  exact ⟨again, rfl⟩

end Holds

end SessionLock
