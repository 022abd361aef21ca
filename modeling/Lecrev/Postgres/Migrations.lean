import Lecrev.Concurrency.Faults
import Lecrev.ToMathlib.List
import Mathlib.Data.List.Dedup
import Mathlib.Data.List.Infix
import Mathlib.Data.List.Sort

/-!
# The migrations of the Postgres store

Every process that opens the Postgres store calls `RunMigrations`. For each script, in the order of
the file names, it looks whether the version is recorded, runs the script, and records the version.
These are three calls to the database, and no lock is held across them: processes that start
together may run the same script, and a process that stops in between leaves a script that has run
without a record.

The scripts contain no transaction statements, so the database runs each as one transaction. Whether
it accepts a script is left open: a script that it rejects is a call that fails without an effect.
-/

namespace Lecrev.Postgres

/-- The calls of `RunMigrations` to the database. -/
inductive MigrationCall
  | createTable
  | acquire
  | selectVersion (version : String)
  | execScript (name : String)
  | insertVersion (version : String)

/-- What the migrations read and write. -/
structure Database where
  /-- The rows of `schema_migrations` in the order of their insertion, if the table exists. -/
  versions : Option (List String)
  /-- The scripts whose transaction was committed, most recent first. -/
  scripts : List String

namespace Database

/-- A database without tables. -/
def empty : Database := ⟨none, []⟩

/-- The recorded versions. -/
def recorded (db : Database) : List String := db.versions.getD []

/-- The scripts that have run, in the order of their first runs. -/
def ran (db : Database) : List String := db.scripts.dedup.reverse

theorem mem_ran {db : Database} {name : String} : name ∈ db.ran ↔ name ∈ db.scripts := by
  simp [ran]

end Database

open Database (empty)

/-- Programs of calls to the database; an error is its text. -/
abbrev MigrationM := Prog MigrationCall Database String

/-- `create table if not exists schema_migrations`. -/
def createTable : MigrationM Unit :=
  .modify .createTable fun db => { db with versions := some db.recorded }

/-- `pool.Acquire`. The connection is held to the end, and the statements take further ones: a pool
of a single connection blocks here, and is left out. -/
def acquire : MigrationM Unit := .modify .acquire id

/-- `select exists(select 1 from schema_migrations where version = $1)` -/
def selectVersion (version : String) : MigrationM Bool :=
  .query (.selectVersion version) fun db =>
    match db.versions with
    | none => .error "relation \"schema_migrations\" does not exist"
    | some rows => .ok (rows.contains version)

/-- The script is sent as one message. -/
def execScript (name : String) : MigrationM Unit :=
  .modify (.execScript name) fun db => { db with scripts := name :: db.scripts }

/-- `insert into schema_migrations (version) values ($1)`; the version is the primary key. -/
def insertVersion (version : String) : MigrationM Unit :=
  .action (.insertVersion version) fun db =>
    match db.versions with
    | none => (.error "relation \"schema_migrations\" does not exist", db)
    | some rows =>
      if rows.contains version then
        (.error "duplicate key value violates unique constraint \"schema_migrations_pkey\"", db)
      else
        (.ok (), { db with versions := some (rows ++ [version]) })

/-- The loop of `RunMigrations` over the sorted entries. -/
def applyMigrations : List String → MigrationM Unit
  | [] => pure ()
  | name :: rest => do
    let applied ← selectVersion name
    if applied then
      applyMigrations rest
    else
      match ← (execScript name).result with
      | .error e => .throw ("apply migration " ++ name ++ ": " ++ e)
      | .ok () =>
        insertVersion name
        applyMigrations rest

/-- `sort.Slice`, by name. -/
def sortEntries (entries : List String) : List String :=
  entries.insertionSort fun a b => ¬ b < a

/-- `RunMigrations`, with the names in the embedded directory. -/
def runMigrations (entries : List String) : MigrationM Unit := do
  createTable
  acquire
  applyMigrations (sortEntries entries)

/-! ## Migrations in order -/

/-- The recorded versions are the first migrations of the list, and the scripts that have run are
these migrations, with at most the next one in addition. -/
structure InOrder (all : List String) (db : Database) : Prop where
  recorded : db.recorded <+: all
  ran : db.ran <+: all
  length_le : db.recorded.length ≤ db.ran.length
  le_length : db.ran.length ≤ db.recorded.length + 1

theorem inOrder_empty (all : List String) : InOrder all empty where
  recorded := List.nil_prefix
  ran := List.nil_prefix
  length_le := Nat.le_refl 0
  le_length := Nat.zero_le 1

section Steps

variable {all before : List String} {name : String} {db : Database}

/-- A script runs when the versions before it are recorded. If it runs for the first time, nothing
after those versions has run before. -/
theorem InOrder.exec (h : InOrder all db) (hbefore : before <+: db.recorded)
    (hall : before ++ [name] <+: all) :
    InOrder all { db with scripts := name :: db.scripts } := by
  by_cases hname : name ∈ db.scripts
  · have hran : Database.ran { db with scripts := name :: db.scripts } = db.ran := by
      simp [Database.ran, hname]
    exact ⟨h.recorded, hran ▸ h.ran, hran ▸ h.length_le, hran ▸ h.le_length⟩
  · have hran : Database.ran { db with scripts := name :: db.scripts } = db.ran ++ [name] := by
      simp [Database.ran, hname]
    have hrecorded : db.recorded <+: db.ran :=
      List.prefix_of_prefix_length_le h.recorded h.ran h.length_le
    have heq : db.ran = before := List.eq_of_prefix_of_notMem (hbefore.trans hrecorded) h.ran hall
      (Database.mem_ran.not.mpr hname)
    have hlength := hbefore.length_le
    refine ⟨h.recorded, ?_, ?_, ?_⟩ <;> rw [hran, heq]
    · exact hall
    · have := h.length_le
      simp only [heq, List.length_append] at this ⊢
      exact Nat.le_add_right_of_le this
    · simpa [Database.recorded] using hlength

/-- A version is recorded once its script has run and the versions before it are recorded. -/
theorem InOrder.insert (h : InOrder all db) (hbefore : before <+: db.recorded)
    (hall : before ++ [name] <+: all) (hnodup : all.Nodup) (hran : name ∈ db.scripts)
    (hname : name ∉ db.recorded) :
    InOrder all { db with versions := some (db.recorded ++ [name]) } := by
  have heq : db.recorded = before := List.eq_of_prefix_of_notMem hbefore h.recorded hall hname
  have hlength : (before ++ [name]).length ≤ db.ran.length :=
    (List.snoc_prefix_of_mem hnodup h.ran hall (Database.mem_ran.mpr hran)).length_le
  have hle := h.le_length
  rw [heq] at hle ⊢
  refine ⟨hall, h.ran, hlength, hle.trans ?_⟩
  simp [Database.recorded]

end Steps

/-! ## Processes side by side -/

/-- Nothing that was recorded or has run is undone, and the migrations stay in order. -/
structure Advances (all : List String) (db db' : Database) : Prop where
  inOrder : InOrder all db → InOrder all db'
  recorded : db.recorded <+: db'.recorded
  scripts : db.scripts <:+ db'.scripts

theorem Advances.refl (all : List String) (db : Database) : Advances all db db :=
  ⟨id, List.prefix_rfl, List.suffix_rfl⟩

/-- A process advances the migrations and relies on the others to do the same. -/
def migrating (all : List String) : Protocol MigrationCall Database Unit where
  rely _ db _ db' := Advances all db db'
  guar _ _ db _ db' := Advances all db db'
  meets _ _ := True
  fallible _ := True
  rely_refl _ db := .refl all db
  rely_trans h h' :=
    ⟨h'.inOrder ∘ h.inOrder, h.recorded.trans h'.recorded, h.scripts.trans h'.scripts⟩

/-- What the loop knows when it comes to the entries after `before`. -/
def Reached (all before : List String) (_ : Unit) (db : Database) : Prop :=
  InOrder all db ∧ before <+: db.recorded

section Safe

variable {all before rest : List String} {name : String} {db db' : Database}

theorem Reached.of_advances (hadvances : Advances all db db') (h : Reached all before () db) :
    Reached all before () db' :=
  ⟨hadvances.inOrder h.1, h.2.trans hadvances.recorded⟩

theorem safe_selectVersion (h : Reached all before () db) :
    (selectVersion name).Safe (migrating all)
      (fun r _ db => Reached all before () db ∧ (r = .ok true → name ∈ db.recorded)) () db := by
  refine (Prog.safe_query (P := migrating all) (J := Reached all before) h Reached.of_advances
    fun _ => Advances.refl all _).mono ?_
  rintro r _ db ⟨hreached, hread⟩
  refine ⟨hreached, fun hr => ?_⟩
  obtain ⟨_, seen, _, hseen, hadvances⟩ := hread true hr
  refine hadvances.recorded.subset ?_
  cases hversions : seen.versions with
  | none => simp [hversions] at hseen
  | some rows => simpa [hversions, Database.recorded] using hseen

theorem safe_execScript (h : Reached all before () db) (hall : before ++ [name] <+: all) :
    (execScript name).Safe (migrating all)
      (fun r _ db => r = .ok () → Reached all before () db ∧ name ∈ db.scripts) () db := by
  refine (Prog.safe_modify (P := migrating all) (J := Reached all before)
    (K := fun _ db => Reached all before () db ∧ name ∈ db.scripts) h Reached.of_advances
    ?_ ?_).mono fun _ _ _ hpost => hpost.1
  · exact fun hadvances hdb => ⟨hdb.1.of_advances hadvances, hadvances.scripts.subset hdb.2⟩
  · rintro _ db hdb
    have hadvances : Advances all db { db with scripts := name :: db.scripts } :=
      ⟨fun hinOrder => hinOrder.exec hdb.2 hall, List.prefix_rfl, List.suffix_cons _ _⟩
    exact ⟨(), hadvances, hdb.of_advances hadvances, by simp⟩

/-- The version is new, and then it follows those that are recorded, or the statement fails. -/
theorem safe_insertVersion (hnodup : all.Nodup) (h : Reached all before () db)
    (hran : name ∈ db.scripts) (hall : before ++ [name] <+: all) :
    (insertVersion name).Safe (migrating all)
      (fun r _ db => r = .ok () → Reached all (before ++ [name]) () db) () db := by
  intro _ db' hrely
  have hdb' := h.of_advances hrely
  have hran' := hrely.scripts.subset hran
  refine ⟨fun _ => ⟨(), ?_⟩, fun _ e _ _ _ hr => nomatch hr⟩
  cases hversions : db'.versions with
  | none =>
    simp only [hversions]
    exact ⟨.refl all db', fun _ _ _ hr => nomatch hr⟩
  | some rows =>
    have hrows : db'.recorded = rows := by simp [Database.recorded, hversions]
    by_cases hname : name ∈ rows
    · simp only [hversions, List.contains_iff_mem, hname, if_true]
      exact ⟨.refl all db', fun _ _ _ hr => nomatch hr⟩
    · have hadvances : Advances all db' { db' with versions := some (rows ++ [name]) } := by
        subst hrows
        exact ⟨fun hinOrder => hinOrder.insert hdb'.2 hall hnodup hran' hname,
          List.prefix_append _ _,
          List.suffix_rfl⟩
      have heq : rows = before :=
        List.eq_of_prefix_of_notMem (hrows ▸ hdb'.2) (hrows ▸ hdb'.1.recorded) hall hname
      simp only [hversions, List.contains_iff_mem, hname, if_false]
      refine ⟨hadvances, fun _ db'' hrely' _ => ?_⟩
      refine Reached.of_advances hrely' ⟨hadvances.inOrder hdb'.1, ?_⟩
      simp [Database.recorded, heq]

theorem safe_applyMigrations (hnodup : all.Nodup) (h : Reached all before () db)
    (hall : before ++ rest <+: all) :
    (applyMigrations rest).Safe (migrating all)
      (fun r _ db => r = .ok () → before ++ rest <+: db.recorded) () db := by
  induction rest generalizing before db with
  | nil => exact fun _ _ hrely _ => by simpa using (h.of_advances hrely).2
  | cons name rest ih =>
    have hname : before ++ [name] <+: all := by
      refine List.IsPrefix.trans ⟨rest, ?_⟩ hall
      simp
    rw [List.append_cons] at hall ⊢
    refine (safe_selectVersion h).bind ?_ fun _ _ _ _ hr => nomatch hr
    rintro applied _ db₁ ⟨h₁, happlied⟩
    cases applied with
    | true =>
      exact ih ⟨h₁.1, List.snoc_prefix_of_mem hnodup h₁.1.recorded hname (happlied rfl)⟩ hall
    | false =>
      refine (safe_execScript h₁ hname).result_bind fun r _ db₂ h₂ => ?_
      cases r with
      | error e => exact fun _ _ _ hr => nomatch hr
      | ok _ =>
        obtain ⟨hreached, hran⟩ := h₂ rfl
        refine (safe_insertVersion hnodup hreached hran hname).bind ?_ fun _ _ _ _ hr => nomatch hr
        exact fun _ _ _ h₃ => ih (h₃ rfl) hall

theorem safe_runMigrations (hnodup : all.Nodup) {entries : List String}
    (hall : sortEntries entries <+: all) (h : InOrder all db) :
    (runMigrations entries).Safe (migrating all)
      (fun r _ db => r = .ok () → sortEntries entries <+: db.recorded) () db := by
  have hreached : Reached all [] () db := ⟨h, List.nil_prefix⟩
  have hcreate (db : Database) : Advances all db { db with versions := some db.recorded } :=
    ⟨fun hinOrder => ⟨hinOrder.1, hinOrder.2, hinOrder.3, hinOrder.4⟩, List.prefix_rfl,
      List.suffix_rfl⟩
  refine (Prog.safe_modify (P := migrating all) (J := Reached all []) (K := Reached all []) hreached
    Reached.of_advances Reached.of_advances fun hdb =>
      ⟨(), hcreate _, hdb.of_advances (hcreate _)⟩).bind ?_ fun _ _ _ _ hr => nomatch hr
  rintro _ _ db₁ ⟨h₁, -⟩
  refine (Prog.safe_modify (P := migrating all) (J := Reached all []) (K := Reached all [])
    (h₁ rfl) Reached.of_advances Reached.of_advances fun hdb =>
      ⟨(), .refl all _, hdb⟩).bind ?_ fun _ _ _ _ hr => nomatch hr
  rintro _ _ db₂ ⟨h₂, -⟩
  exact safe_applyMigrations hnodup (h₂ rfl) hall

end Safe

/-- **Migrations run in order.** Any number of processes run the migrations of a database side by
side, each with the first of the same migrations, as processes of different releases have them;
every call may fail with or without an effect, and a process may stop at any point. In every state
that is reached the recorded versions are the first migrations in the order of their names. The
scripts that have run, each at its first run, are the same ones in the same order, with at most the
next one in addition. When a process returns without an error, its migrations are recorded. -/
theorem migrations_in_order {ι : Type} [DecidableEq ι] {all : List String} (hnodup : all.Nodup)
    (entries : ι → List String) (hentries : ∀ i, sortEntries (entries i) <+: all)
    (ms : List (Pool.Fault ι String)) :
    let c := Pool.faulty.exec (.start empty fun i => runMigrations (entries i)) ms
    InOrder all c.state ∧
      ∀ i, c.progs i = .ret (.ok ()) → sortEntries (entries i) <+: c.state.recorded := by
  intro c
  let P (_ : ι) := migrating all
  have hkeeping : Pool.Keeping P fun _ db _ => InOrder all db :=
    fun _ _ _ _ _ _ _ hadvances h => Advances.inOrder hadvances h
  have hstart : Pool.AllSafe P
      (fun i r _ db => r = .ok () → sortEntries (entries i) <+: db.recorded)
      (fun _ db _ => InOrder all db) (.start empty fun i => runMigrations (entries i)) :=
    ⟨(), inOrder_empty all, fun i => safe_runMigrations hnodup (hentries i) (inOrder_empty all)⟩
  obtain ⟨_, hinOrder, hsafe⟩ := Pool.faulty_exec_safe (fun _ _ _ _ _ _ _ h => h) hkeeping
    (fun _ _ _ => trivial) (fun _ _ => trivial) hstart ms
  refine ⟨hinOrder, fun i hi => ?_⟩
  have hi' := hsafe i
  rw [hi] at hi'
  exact hi'.ret_post rfl

namespace MigrationsSample

def all : List String := ["0001_init.sql", "0002_control_plane.sql", "0003_triggers.sql"]

/-- The second process is of an older release. -/
def entries : Bool → List String
  | true => ["0002_control_plane.sql", "0001_init.sql", "0003_triggers.sql"]
  | false => ["0001_init.sql", "0002_control_plane.sql"]

/-- Both processes run the first script; the second one cannot record it, as the first one has
done so without being told. -/
def moves : List (Pool.Fault Bool String) :=
  List.replicate 4 (.run true) ++ List.replicate 4 (.run false) ++ [.lost true "connection lost"] ++
    [.run false]

end MigrationsSample

open MigrationsSample in
theorem migrations_in_order_sample :
    let c := Pool.faulty.exec (.start empty fun i => runMigrations (entries i)) moves
    c.state.scripts = ["0001_init.sql", "0001_init.sql"] ∧
      c.state.versions = some ["0001_init.sql"] ∧
      InOrder all c.state ∧
      ∀ i, c.progs i = .ret (.ok ()) → sortEntries (entries i) <+: c.state.recorded := by
  refine ⟨by decide +kernel, by decide +kernel, migrations_in_order (by decide) entries ?_ moves⟩
  intro i
  cases i <;> decide +kernel

/-! ## A process that is left alone -/

section Run

variable {name : String} {rows scripts rest : List String}

theorem run_applyMigrations_of_mem (h : name ∈ rows) :
    (applyMigrations (name :: rest)).run ⟨some rows, scripts⟩ =
      (applyMigrations rest).run ⟨some rows, scripts⟩ := by
  simp [applyMigrations, selectVersion, h]

theorem run_applyMigrations_of_notMem (h : name ∉ rows) :
    (applyMigrations (name :: rest)).run ⟨some rows, scripts⟩ =
      (applyMigrations rest).run ⟨some (rows ++ [name]), name :: scripts⟩ := by
  simp [applyMigrations, selectVersion, execScript, insertVersion, h]

/-- The loop leaves out the entries that are recorded, and then handles one entry after the other.
-/
theorem run_applyMigrations {all before : List String} (scripts rest : List String)
    (hnodup : all.Nodup) (hrows : rows <+: all) (hbefore : before <+: rows)
    (hall : before ++ rest <+: all) :
    (applyMigrations rest).run ⟨some rows, scripts⟩ =
      (.ok (), { versions := some (rows ++ rest.drop (rows.length - before.length))
                 scripts := (rest.drop (rows.length - before.length)).reverse ++ scripts }) := by
  induction rest generalizing rows scripts before with
  | nil => simp [applyMigrations]
  | cons name rest ih =>
    have hname : before ++ [name] <+: all := List.IsPrefix.trans ⟨rest, by simp⟩ hall
    rw [List.append_cons] at hall
    by_cases hmem : name ∈ rows
    · have hnext := List.snoc_prefix_of_mem hnodup hrows hname hmem
      have hlength : rows.length - before.length = rows.length - (before ++ [name]).length + 1 := by
        have := hnext.length_le
        simp only [List.length_append, List.length_singleton] at this ⊢
        omega
      rw [run_applyMigrations_of_mem hmem, ih _ hrows hnext hall, hlength, List.drop_succ_cons]
    · obtain rfl : rows = before := List.eq_of_prefix_of_notMem hbefore hrows hname hmem
      rw [run_applyMigrations_of_notMem hmem, ih _ hname List.prefix_rfl hall]
      simp

end Run

/-- **A process that is left alone finishes.** From every state in which the migrations are in
order, whatever earlier processes have left undone, a run in which no call fails returns without an
error. It has run the scripts of the versions that were not recorded, and no others, in the order of
their names, and has recorded these versions. -/
theorem runMigrations_resumes {all entries : List String} (hnodup : all.Nodup)
    (hentries : sortEntries entries <+: all) {db : Database} (h : InOrder all db) :
    let missing := (sortEntries entries).drop db.recorded.length
    (runMigrations entries).run db =
      (.ok (), { versions := some (db.recorded ++ missing)
                 scripts := missing.reverse ++ db.scripts }) := by
  simp only [runMigrations, createTable, acquire, Prog.run_bind, Prog.run_modify]
  exact run_applyMigrations db.scripts (sortEntries entries) hnodup h.recorded List.nil_prefix
    hentries

open MigrationsSample in
theorem runMigrations_resumes_sample :
    let db : Database := ⟨some ["0001_init.sql"], ["0002_control_plane.sql", "0001_init.sql"]⟩
    InOrder all db ∧ ((runMigrations (entries true)).run db).2.scripts =
      ["0003_triggers.sql", "0002_control_plane.sql", "0002_control_plane.sql",
        "0001_init.sql"] := by
  have h : InOrder all ⟨some ["0001_init.sql"], ["0002_control_plane.sql", "0001_init.sql"]⟩ :=
    ⟨by decide, by decide, by decide, by decide⟩
  refine ⟨h, ?_⟩
  rw [runMigrations_resumes (by decide) (by decide +kernel) h]
  decide +kernel

end Lecrev.Postgres
