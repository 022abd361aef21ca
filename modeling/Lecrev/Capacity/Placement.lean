import Lecrev.Capacity.Reservations

/-!
# Warm placement

`pickHost` prefers hosts with a snapshot of the function, then hosts with a blank instance, then the
others. It encodes this order in one number, a weighted sum of the counters of the host, and takes
the host with the greatest number. As the counters are not bounded, enough of what should count less
outweighs what should count more.
-/

namespace Lecrev.Placement

open Reservations

/-! ## The preference -/

/-- The session is registered, and its host can take the assignment. -/
def Eligible (c : Coordinator) (assignment : Assignment) (session : HostSession) : Prop :=
  c.hosts.get session.host.id = some session ∧ Free session.host assignment.networkPolicy

/-- What `pickHost` should return: a host with a snapshot of the function if there is one, otherwise
a host with a blank instance if there is one, and a cold start only if there is neither. -/
structure WarmPlacement (c : Coordinator) (assignment : Assignment)
    (result : Except Err (HostSession × StartMode)) : Prop where
  functionWarm : (∃ s, Eligible c assignment s ∧
      0 < s.host.warmFor assignment.functionVersionID) →
    ∃ session chosen, result = .ok (session, .functionWarm) ∧ session.host.id = chosen.host.id ∧
      Eligible c assignment chosen ∧ 0 < chosen.host.warmFor assignment.functionVersionID
  blankWarm : (∀ s, Eligible c assignment s →
      ¬ 0 < s.host.warmFor assignment.functionVersionID) →
    (∃ s, Eligible c assignment s ∧ 0 < s.host.blankWarm) →
    ∃ session chosen, result = .ok (session, .blankWarm) ∧ session.host.id = chosen.host.id ∧
      Eligible c assignment chosen ∧ 0 < chosen.host.blankWarm
  cold : ∀ session, result = .ok (session, .cold) → ∀ s, Eligible c assignment s →
    ¬ 0 < s.host.warmFor assignment.functionVersionID ∧ ¬ 0 < s.host.blankWarm

/-- The counters of the host, weighed with 1000, 100 and 1. -/
def weight (assignment : Assignment) (session : HostSession) : ℤ :=
  1000 * session.host.warmFor assignment.functionVersionID + 100 * session.host.blankWarm +
    session.host.availableSlots

/-- What should count less does not outweigh what should count more. A host without a snapshot of
the function weighs less than some host with one, if there is one. Where no host has one, a host
without a blank instance weighs less than some host with one, if there is one. -/
structure Outweighed (c : Coordinator) (assignment : Assignment) : Prop where
  bySnapshot : (∃ t, Eligible c assignment t ∧ 0 < t.host.warmFor assignment.functionVersionID) →
    ∀ s, Eligible c assignment s → ¬ 0 < s.host.warmFor assignment.functionVersionID →
    ∃ t, Eligible c assignment t ∧ 0 < t.host.warmFor assignment.functionVersionID ∧
      weight assignment s < weight assignment t
  byBlank : (∀ t, Eligible c assignment t → ¬ 0 < t.host.warmFor assignment.functionVersionID) →
    (∃ t, Eligible c assignment t ∧ 0 < t.host.blankWarm) →
    ∀ s, Eligible c assignment s → ¬ 0 < s.host.blankWarm →
    ∃ t, Eligible c assignment t ∧ 0 < t.host.blankWarm ∧ weight assignment s < weight assignment t

/-- How much a start mode is preferred. -/
def warmth : StartMode → ℕ
  | .functionWarm => 2
  | .blankWarm => 1
  | _ => 0

/-- How warm an assignment starts on the host of a session. -/
def warmthOf (assignment : Assignment) (session : HostSession) : ℕ :=
  warmth (classifyStartMode session.host assignment.functionVersionID)

/-! ## The chosen host -/

section Best

variable {score : Host → ℤ} {sessions : List HostSession} {session : HostSession}

theorem score_le_of_bestSession (h : bestSession score sessions = some session) :
    ∀ s ∈ sessions, score s.host ≤ score session.host := by
  intro s hs
  let r := fun a b : HostSession => score b.host ≤ score a.host
  have : Std.Total r := ⟨fun a b => le_total (score b.host) (score a.host)⟩
  have : IsTrans HostSession r := ⟨fun a b d hab hbd => le_trans (α := ℤ) hbd hab⟩
  have hsorted : (sessions.insertionSort r).Pairwise r := List.pairwise_insertionSort r sessions
  obtain ⟨rest, hrest⟩ := List.head?_eq_some_iff.mp h
  have hmem : s ∈ sessions.insertionSort r := (List.mem_insertionSort _).mpr hs
  change sessions.insertionSort r = _ at hrest
  rw [hrest] at hsorted hmem
  obtain rfl | hmem := List.mem_cons.mp hmem
  · exact le_refl _
  · exact (List.pairwise_cons.mp hsorted).1 s hmem

theorem bestSession_cons (h : ∀ s ∈ sessions, score s.host ≤ score session.host) :
    bestSession score (session :: sessions) = some session := by
  unfold bestSession
  rw [List.insertionSort_cons]
  cases hsorted : sessions.insertionSort fun a b : HostSession => score b.host ≤ score a.host with
  | nil => rfl
  | cons first rest =>
    have hmem : first ∈ sessions := by
      rw [← List.mem_insertionSort fun a b : HostSession => score b.host ≤ score a.host, hsorted]
      exact List.mem_cons_self
    rw [List.orderedInsert_cons, if_pos (h first hmem)]
    rfl

end Best

theorem exists_order_cons {α : Type} {a : α} {l : List α} (ha : a ∈ l) :
    ∃ (order : MapOrder α) (rest : List α), order.toFun l = a :: rest ∧ (a :: rest).Perm l := by
  classical
  obtain ⟨before, after, rfl⟩ := List.append_of_mem ha
  have hperm : (a :: (before ++ after)).Perm (before ++ a :: after) := List.perm_middle.symm
  refine ⟨⟨fun l' => if l' = before ++ a :: after then a :: (before ++ after) else l',
    fun l' => ?_⟩, before ++ after, if_pos rfl, hperm⟩
  split
  · rename_i heq
    rw [heq]
    exact hperm
  · exact .refl _

section Chosen

variable {c : Coordinator} {assignment : Assignment}

theorem executionScore_eq_weight (session : HostSession) :
    session.host.executionScore assignment.functionVersionID = weight assignment session := by
  unfold Host.executionScore weight
  omega

theorem eligible_iff (order : MapOrder HostSession) (session : HostSession) :
    session ∈ (order.toFun c.hosts.values).filter (·.host.hasSlot assignment.networkPolicy) ↔
      Eligible c assignment session := by
  rw [List.mem_filter, (order.perm _).mem_iff, Table.mem_values, hasSlot_iff_free]
  exact Iff.rfl

theorem chooseHost_best {order : MapOrder HostSession} {chosen : HostSession}
    (h : c.chooseHost order assignment = some chosen) :
    Eligible c assignment chosen ∧
      ∀ s, Eligible c assignment s → weight assignment s ≤ weight assignment chosen := by
  refine ⟨(eligible_iff order chosen).mp (mem_of_bestSession h), fun s hs => ?_⟩
  have hle := score_le_of_bestSession h s ((eligible_iff order s).mpr hs)
  rwa [executionScore_eq_weight, executionScore_eq_weight] at hle

theorem exists_chooseHost {s : HostSession} (hs : Eligible c assignment s)
    (order : MapOrder HostSession) : ∃ chosen, c.chooseHost order assignment = some chosen := by
  cases hchoice : c.chooseHost order assignment with
  | some chosen => exact ⟨chosen, rfl⟩
  | none => exact absurd hs.2 (not_free_of_bestSession hchoice _ s hs.1)

theorem exists_order_of_best {chosen : HostSession} (hchosen : Eligible c assignment chosen)
    (hbest : ∀ s, Eligible c assignment s → weight assignment s ≤ weight assignment chosen) :
    ∃ order, c.chooseHost order assignment = some chosen := by
  obtain ⟨order, rest, horder, hperm⟩ :=
    exists_order_cons ((Table.mem_values c.hosts chosen).mpr hchosen.1)
  refine ⟨order, ?_⟩
  have hslot : chosen.host.hasSlot assignment.networkPolicy = true := hasSlot_iff_free.mpr hchosen.2
  unfold Coordinator.chooseHost
  rw [horder, List.filter_cons, if_pos hslot]
  refine bestSession_cons fun s hs => ?_
  rw [executionScore_eq_weight, executionScore_eq_weight]
  refine hbest s ((eligible_iff order s).mp ?_)
  rw [horder, List.filter_cons, if_pos hslot]
  exact List.mem_cons_of_mem _ hs

theorem classifyStartMode_cases (host : Host) (functionVersionID : String) :
    (classifyStartMode host functionVersionID = .functionWarm ∧
        0 < host.warmFor functionVersionID) ∨
      (classifyStartMode host functionVersionID = .blankWarm ∧
        ¬ 0 < host.warmFor functionVersionID ∧ 0 < host.blankWarm) ∨
      (classifyStartMode host functionVersionID = .cold ∧
        ¬ 0 < host.warmFor functionVersionID ∧ ¬ 0 < host.blankWarm) := by
  unfold classifyStartMode
  split_ifs with hfunction hblank
  · exact .inl ⟨rfl, hfunction⟩
  · exact .inr (.inl ⟨rfl, hfunction, hblank⟩)
  · exact .inr (.inr ⟨rfl, hfunction, hblank⟩)

theorem warmthOf_le_two (s : HostSession) : warmthOf assignment s ≤ 2 := by
  unfold warmthOf warmth
  split <;> decide

theorem two_le_warmthOf_iff {s : HostSession} :
    2 ≤ warmthOf assignment s ↔ 0 < s.host.warmFor assignment.functionVersionID := by
  unfold warmthOf
  rcases classifyStartMode_cases s.host assignment.functionVersionID with
    ⟨hmode, hwarm⟩ | ⟨hmode, hwarm, -⟩ | ⟨hmode, hwarm, -⟩
  · simp [hmode, warmth, hwarm]
  · simp [hmode, warmth, hwarm]
  · simp [hmode, warmth, hwarm]

theorem one_le_warmthOf_iff {s : HostSession} :
    1 ≤ warmthOf assignment s ↔
      0 < s.host.warmFor assignment.functionVersionID ∨ 0 < s.host.blankWarm := by
  unfold warmthOf
  rcases classifyStartMode_cases s.host assignment.functionVersionID with
    ⟨hmode, hwarm⟩ | ⟨hmode, hwarm, hblank⟩ | ⟨hmode, hwarm, hblank⟩
  · simp [hmode, warmth, hwarm]
  · simp [hmode, warmth, hblank]
  · simp [hmode, warmth, hwarm, hblank]

/-- A placement is warm exactly if no eligible host is warmer. -/
theorem warmPlacement_iff {chosen session : HostSession} (hchosen : Eligible c assignment chosen)
    (hid : session.host.id = chosen.host.id) :
    WarmPlacement c assignment
        (.ok (session, classifyStartMode chosen.host assignment.functionVersionID)) ↔
      ∀ s, Eligible c assignment s → warmthOf assignment s ≤ warmthOf assignment chosen := by
  have hchosenMode := classifyStartMode_cases chosen.host assignment.functionVersionID
  constructor
  · intro h s hs
    rcases classifyStartMode_cases s.host assignment.functionVersionID with
      ⟨hmode, hwarm⟩ | ⟨hmode, -, hblank⟩ | ⟨hmode, -⟩
    · -- there is a snapshot, so the reported mode is that of a snapshot
      obtain ⟨session', chosen', heq, -⟩ := h.functionWarm ⟨s, hs, hwarm⟩
      simp only [Except.ok.injEq, Prod.mk.injEq] at heq
      simp [warmthOf, hmode, heq.2]
    · -- there is a blank instance, so the reported mode is not cold
      have hwarm : 1 ≤ warmthOf assignment chosen := by
        rw [one_le_warmthOf_iff]
        rcases hchosenMode with ⟨-, hwarm⟩ | ⟨-, -, hwarm⟩ | ⟨hcold, -⟩
        · exact .inl hwarm
        · exact .inr hwarm
        · exact absurd hblank (h.cold session (by rw [hcold]) s hs).2
      simpa [warmthOf, hmode, warmth] using hwarm
    · simp [warmthOf, hmode, warmth]
  · intro h
    refine ⟨fun ⟨s, hs, hwarm⟩ => ?_, fun hnone ⟨s, hs, hblank⟩ => ?_,
      fun session' hcold s hs => ?_⟩
    · have hwarmest := (two_le_warmthOf_iff.mpr hwarm).trans (h s hs)
      rcases hchosenMode with ⟨hmode, hfunction⟩ | ⟨-, hfunction, -⟩ | ⟨-, hfunction, -⟩
      · exact ⟨session, chosen, by rw [hmode], hid, hchosen, hfunction⟩
      · exact absurd (two_le_warmthOf_iff.mp hwarmest) hfunction
      · exact absurd (two_le_warmthOf_iff.mp hwarmest) hfunction
    · have hwarmer := (one_le_warmthOf_iff.mpr (.inr hblank)).trans (h s hs)
      rcases hchosenMode with ⟨-, hfunction⟩ | ⟨hmode, -, hwarm⟩ | ⟨-, hfunction, hwarm⟩
      · exact absurd hfunction (hnone chosen hchosen)
      · exact ⟨session, chosen, by rw [hmode], hid, hchosen, hwarm⟩
      · exact absurd (one_le_warmthOf_iff.mp hwarmer) (not_or.mpr ⟨hfunction, hwarm⟩)
    · simp only [Except.ok.injEq, Prod.mk.injEq] at hcold
      have hnot : ¬ 1 ≤ warmthOf assignment s := fun hwarm => by
        simpa [warmthOf, hcold.2, warmth] using hwarm.trans (h s hs)
      exact not_or.mp (mt one_le_warmthOf_iff.mpr hnot)

end Chosen

theorem ends_pickHost_choice (clock : ℕ → Time) (order : MapOrder HostSession)
    (assignment : Assignment) (w : World) :
    (pickHost clock order assignment).Ends IsStoreCall (fun result _ =>
      (w.coordinator.chooseHost order assignment = none ∧ ∃ e, result = .error e) ∨
        ∃ chosen session, w.coordinator.chooseHost order assignment = some chosen ∧
          session.host.id = chosen.host.id ∧ result =
            .ok (session, classifyStartMode chosen.host assignment.functionVersionID)) w := by
  refine Prog.ends_bind.mpr (ends_locked ?_)
  cases hchoice : w.coordinator.chooseHost order assignment with
  | none => exact .inl ⟨rfl, _, rfl⟩
  | some chosen =>
    refine Prog.after_ok.mpr (ends_saveHost_bind fun w' _ => Prog.ends_pure.mpr (.inr ?_))
    exact ⟨chosen, _, rfl, Host.id_takeWarm _ _ _, rfl⟩

section Placed

variable {c : Coordinator} {assignment : Assignment}

/-- If every host that can be chosen has a property, then one without it weighs less than some host
with it: otherwise it would be among the heaviest ones, and chosen in some order. -/
theorem exists_heavier {P : HostSession → Prop}
    (hP : ∀ order chosen, c.chooseHost order assignment = some chosen → P chosen)
    {s : HostSession} (hs : Eligible c assignment s) (hnot : ¬ P s) :
    ∃ t, Eligible c assignment t ∧ P t ∧ weight assignment s < weight assignment t := by
  obtain ⟨chosen, hchoice⟩ := exists_chooseHost hs .table
  obtain ⟨hchosen, hbest⟩ := chooseHost_best hchoice
  by_contra hnone
  have hheavy : weight assignment chosen ≤ weight assignment s :=
    not_lt.mp fun hlt => hnone ⟨chosen, hchosen, hP _ _ hchoice, hlt⟩
  obtain ⟨order, hchoice'⟩ := exists_order_of_best hs fun t ht => (hbest t ht).trans hheavy
  exact hnot (hP order s hchoice')

/-- The heaviest host is the warmest one if nothing outweighs what should count more. -/
theorem Outweighed.warmthOf_le (h : Outweighed c assignment) {chosen : HostSession}
    (hchosen : Eligible c assignment chosen)
    (hbest : ∀ s, Eligible c assignment s → weight assignment s ≤ weight assignment chosen)
    {s : HostSession} (hs : Eligible c assignment s) :
    warmthOf assignment s ≤ warmthOf assignment chosen := by
  have hheaviest {P : HostSession → Prop} :
      ¬ ∃ t, Eligible c assignment t ∧ P t ∧ weight assignment chosen < weight assignment t :=
    fun ⟨t, ht, _, hlt⟩ => not_lt.mpr (hbest t ht) hlt
  by_cases hsome : ∃ t, Eligible c assignment t ∧ 0 < t.host.warmFor assignment.functionVersionID
  · have hwarm : 0 < chosen.host.warmFor assignment.functionVersionID := by
      by_contra hnot
      exact hheaviest (h.bySnapshot hsome chosen hchosen hnot)
    exact (warmthOf_le_two s).trans (two_le_warmthOf_iff.mpr hwarm)
  · have hnone (t : HostSession) (ht : Eligible c assignment t) :
        ¬ 0 < t.host.warmFor assignment.functionVersionID := fun hwarm => hsome ⟨t, ht, hwarm⟩
    have hle : warmthOf assignment s ≤ 1 :=
      Nat.le_of_lt_succ (not_le.mp fun htwo => hnone s hs (two_le_warmthOf_iff.mp htwo))
    by_cases hblank : 0 < s.host.blankWarm
    · refine hle.trans (one_le_warmthOf_iff.mpr (.inr ?_))
      by_contra hnot
      exact hheaviest (h.byBlank hnone ⟨s, hs, hblank⟩ chosen hchosen hnot)
    · have hcold : ¬ 1 ≤ warmthOf assignment s := fun hone =>
        (one_le_warmthOf_iff.mp hone).elim (hnone s hs) hblank
      omega

end Placed

/-- **When placement is warm.** For every table of hosts and every assignment: `pickHost` prefers a
host with a snapshot of the function, then one with a blank instance, and reports the start mode
accordingly, in every order of the iteration over the hosts and whichever calls to the store fail,
exactly when no weighted sum of counters that should count less outweighs one that should count
more. -/
theorem warm_placement_iff (clock : ℕ → Time) (assignment : Assignment) (w : World) :
    (∀ order, (pickHost clock order assignment).Ends IsStoreCall
        (fun result _ => WarmPlacement w.coordinator assignment result) w) ↔
      Outweighed w.coordinator assignment := by
  constructor
  · intro h
    have hplaced (order : MapOrder HostSession) (chosen : HostSession)
        (hchoice : w.coordinator.chooseHost order assignment = some chosen) (t : HostSession)
        (ht : Eligible w.coordinator assignment t) :
        warmthOf assignment t ≤ warmthOf assignment chosen := by
      obtain ⟨hplacement, hresult⟩ :=
        ((h order).and (ends_pickHost_choice clock order assignment w)).run
      obtain ⟨hnone, -⟩ | ⟨chosen', session, hchoice', hid, hresult⟩ := hresult
      · rw [hchoice] at hnone
        cases hnone
      · rw [hchoice] at hchoice'
        cases hchoice'
        rw [hresult] at hplacement
        exact (warmPlacement_iff (chooseHost_best hchoice).1 hid).mp hplacement t ht
    constructor
    · intro ⟨t, ht, hwarm⟩ s hs hcold
      refine exists_heavier (fun order chosen hchoice => ?_) hs hcold
      exact two_le_warmthOf_iff.mp
        ((two_le_warmthOf_iff.mpr hwarm).trans (hplaced order chosen hchoice t ht))
    · intro hnone ⟨t, ht, hblank⟩ s hs hcold
      refine exists_heavier (fun order chosen hchoice => ?_) hs hcold
      have hwarm :=
        (one_le_warmthOf_iff.mpr (.inr hblank)).trans (hplaced order chosen hchoice t ht)
      exact (one_le_warmthOf_iff.mp hwarm).resolve_left (hnone chosen (chooseHost_best hchoice).1)
  · intro h order
    refine (ends_pickHost_choice clock order assignment w).mono fun result w' hresult => ?_
    obtain ⟨hnone, e, rfl⟩ | ⟨chosen, session, hchoice, hid, rfl⟩ := hresult
    · have hno (s : HostSession) (hs : Eligible w.coordinator assignment s) : False :=
        not_free_of_bestSession hnone _ s hs.1 hs.2
      exact ⟨fun ⟨s, hs, _⟩ => (hno s hs).elim, fun _ ⟨s, hs, _⟩ => (hno s hs).elim,
        fun session hok => by cases hok⟩
    · obtain ⟨hchosen, hbest⟩ := chooseHost_best hchoice
      exact (warmPlacement_iff hchosen hid).mpr fun s hs => h.warmthOf_le hchosen hbest hs

namespace Sample

def snapshotSession : HostSession :=
  let session := Reservations.Sample.session
  { session with host := { session.host with
      id := "snapshot", blankWarm := 0, functionWarm := AList.insert "version" 1 ∅ } }

def blankSession : HostSession :=
  let session := Reservations.Sample.session
  { session with host := { session.host with id := "blank", blankWarm := 11 } }

def world : World where
  store := .new
  coordinator :=
    { Coordinator.new "region" with hosts := (Table.empty.put snapshotSession).put blankSession }
  handed := []

theorem allNonNegative : AllNonNegative world.coordinator := by
  intro id session hget
  have hvalues : session ∈ [blankSession, snapshotSession] := Table.mem_values_of_get hget
  rcases List.mem_pair.mp hvalues with rfl | rfl
  · exact ⟨by decide, by decide, by decide, fun _ => le_refl 0⟩
  · refine ⟨by decide, by decide, by decide, fun functionVersionID => ?_⟩
    by_cases hversion : functionVersionID = "version"
    · subst hversion
      decide
    · rw [Host.warmFor, snapshotSession, AList.lookup_insert_ne hversion]
      exact le_refl 0

end Sample

open Reservations.Sample (assignment) in
/-- A host with a snapshot of the function has a free slot, but the eleven blank instances of the
other host weigh more: the assignment goes there and starts blank-warm. -/
theorem not_warm_placement :
    ¬ ∀ (clock : ℕ → Time) (assignment : Assignment) (w : World) (order : MapOrder HostSession),
      AllNonNegative w.coordinator →
      (pickHost clock order assignment).Ends IsStoreCall
        (fun result _ => WarmPlacement w.coordinator assignment result) w := by
  intro h
  have hplacement := (h (fun _ => 1) assignment Sample.world .table Sample.allNonNegative).run
  have hsnapshot : Eligible Sample.world.coordinator assignment Sample.snapshotSession :=
    ⟨rfl, hasSlot_iff_free.mp (by decide +kernel)⟩
  obtain ⟨session, chosen, hresult, -⟩ :=
    hplacement.functionWarm ⟨Sample.snapshotSession, hsnapshot, by decide +kernel⟩
  have hmode : (((pickHost (fun _ => 1) .table assignment).run Sample.world).1.map
      Prod.snd).toOption = some .blankWarm := by
    decide +kernel
  rw [hresult] at hmode
  cases hmode

end Lecrev.Placement
