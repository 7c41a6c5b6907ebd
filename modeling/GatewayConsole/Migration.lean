import GatewayConsole.Machine

/-!
# The first-boot migration

`applyBootstrapMigrationIfNeeded` of `main.ts` over the statements of `0001_init.sql`. The
schema is kept as `sqlite_master` keeps it, one object for each statement that created one.
`raw.exec` runs the statements one by one, each committing on its own, so a boot that is cut
off leaves the objects of the statements before the cut.

A boot migrates unless both tables are there, and starts with the first statement whatever
there is. Only from the empty schema does that work: `run_bootstrap` says where a sequence of
boots leaves the schema, and `recovers_iff` from which of these places the next one gets
through.
-/

namespace GatewayConsole

/-! ## The schema -/

/-- A statement of the migration, and the object of the schema it creates. -/
inductive Statement where
  | createTable (name : String) (columns : List String)
  | createIndex (name table : String) (columns : List String)
deriving Repr, DecidableEq

abbrev Schema := List Statement

def Statement.name : Statement → String
  | createTable name _ => name
  | createIndex name _ _ => name

inductive MigrationError where
  | notFound
  | alreadyExists (name : String)
  | noSuchTable (name : String)
  | noSuchColumn (name : String)
deriving Repr, DecidableEq

/-- The columns of a table. -/
def Schema.columns (db : Schema) (table : String) : Option (List String) :=
  db.findSome? fun
    | .createTable name columns => if name = table then some columns else none
    | .createIndex _ _ _ => none

/-- One statement: it fails where its name is taken, or what it is for is missing. -/
def Schema.execute (db : Schema) (stmt : Statement) : Except MigrationError Schema :=
  match stmt with
  | .createTable name _ =>
      if db.any (·.name = name) then .error (.alreadyExists name) else .ok (db ++ [stmt])
  | .createIndex name table columns =>
      match db.columns table with
      | none => .error (.noSuchTable table)
      | some present =>
          if db.any (·.name = name) then .error (.alreadyExists name)
          else
            match columns.find? fun c => !present.contains c with
            | some c => .error (.noSuchColumn c)
            | none => .ok (db ++ [stmt])

/-! ## A boot -/

inductive BootResult where
  | returned
  | threw (err : MigrationError)
  | cutOff
deriving Repr, DecidableEq

/-- `raw.exec(sql)`, which stops at the first error. `cut` is the number of statements it
may commit before the process is gone, none for a process that lives on. -/
def Schema.exec : Schema → Option Nat → List Statement → Schema × BootResult
  | db, some 0, _ => (db, .cutOff)
  | db, _, [] => (db, .returned)
  | db, cut, stmt :: rest =>
      match db.execute stmt with
      | .error err => (db, .threw err)
      | .ok db' => db'.exec (cut.map (· - 1)) rest

/-- The tables that the query of `sqlite_master` finds. -/
def Schema.has (db : Schema) : List Statement :=
  db.filter fun
    | .createTable name _ => name = "audit_events" || name = "routing_observations"
    | .createIndex _ _ _ => false

/-- `file` is the text of `0001_init.sql`, where one of the candidate paths exists. -/
def applyBootstrapMigrationIfNeeded (file : Option (List Statement)) (cut : Option Nat)
    (db : Schema) : Schema × BootResult :=
  if db.has.length = 2 then db.exec cut []
  else
    match file with
    | none => (db, .threw .notFound)
    | some sql => db.exec cut sql

/-- `migrations/0001_init.sql`. -/
def initSql : List Statement :=
  [.createTable "audit_events"
      ["id", "occurred_at", "actor", "action", "target", "ok", "message"],
   .createIndex "idx_audit_occurred_at" "audit_events" ["occurred_at"],
   .createTable "routing_observations"
      ["id", "observed_at", "orch_address", "capability", "offering", "signature_status",
       "freshness_status", "details_json"],
   .createIndex "idx_routing_observations_orch" "routing_observations"
      ["orch_address", "observed_at"]]

/-! ## Boots in a row -/

/-- The boots on a database file that starts empty; each event is where a boot is cut. -/
def bootstrap : Machine Schema (Option Nat) where
  init := []
  step db cut := some (applyBootstrapMigrationIfNeeded (some initSql) cut db).1

/-- How many statements the first boot that commits any has committed. -/
def committed (cuts : List (Option Nat)) : Nat :=
  match cuts.find? (· ≠ some 0) with
  | none => 0
  | some none => 4
  | some (some n) => min n 4

/-- A boot from the empty schema commits the statements before its cut. -/
theorem boot_empty (cut : Option Nat) :
    (applyBootstrapMigrationIfNeeded (some initSql) cut []).1
      = initSql.take (committed [cut]) := by
  match cut with
  | none => rfl
  | some 0 => rfl
  | some 1 => rfl
  | some 2 => rfl
  | some 3 => rfl
  | some (n + 4) =>
      have hmin : min (n + 4) 4 = 4 := by omega
      have hcommitted : committed [some (n + 4)] = min (n + 4) 4 := rfl
      rw [hcommitted, hmin]
      cases n <;> rfl

/-- Once anything is committed, no boot changes the schema. -/
theorem boot_partial {k : Nat} (hk : 0 < k) (hk4 : k ≤ 4) (cut : Option Nat) :
    (applyBootstrapMigrationIfNeeded (some initSql) cut (initSql.take k)).1
      = initSql.take k := by
  obtain rfl | rfl | rfl | rfl : k = 1 ∨ k = 2 ∨ k = 3 ∨ k = 4 := by omega
  all_goals
    match cut with
    | none => rfl
    | some 0 => rfl
    | some (n + 1) => rfl

theorem committed_le (cuts : List (Option Nat)) : committed cuts ≤ 4 := by
  unfold committed
  split
  · omega
  · omega
  · exact Nat.min_le_right _ _

/-- The boots leave the statements that the first one of them with any has committed. -/
theorem run_bootstrap (cuts : List (Option Nat)) :
    bootstrap.run cuts = some (initSql.take (committed cuts)) := by
  induction cuts using List.reverseRecOn with
  | nil => rfl
  | append_singleton cuts cut ih =>
      refine bootstrap.run_snoc.mpr ⟨_, ih, congrArg some ?_⟩
      cases hfirst : cuts.find? (· ≠ some 0) with
      | none =>
          have hcuts : committed cuts = 0 := by rw [committed, hfirst]
          have happend : committed (cuts ++ [cut]) = committed [cut] := by
            simp only [committed, List.find?_append, hfirst, Option.none_or]
          rw [hcuts, happend]
          exact boot_empty cut
      | some c =>
          have happend : committed (cuts ++ [cut]) = committed cuts := by
            simp only [committed, List.find?_append, hfirst, Option.some_or]
          have hc : c ≠ some 0 := by simpa using List.find?_some hfirst
          have hpos : 0 < committed cuts := by
            rw [committed, hfirst]
            match c with
            | none => exact Nat.succ_pos 3
            | some 0 => exact absurd rfl hc
            | some (n + 1) => exact Nat.lt_min.mpr ⟨Nat.succ_pos n, Nat.succ_pos 3⟩
          rw [happend]
          exact boot_partial hpos (committed_le cuts) cut

/-! ## Recovery -/

/-- Both tables and both indexes. -/
def FullSchema (db : Schema) : Prop := ∀ stmt ∈ initSql, stmt ∈ db

/-- After these boots, one that is not cut off completes and leaves the full schema. -/
def Recovers (cuts : List (Option Nat)) : Prop :=
  ∃ db db', bootstrap.run cuts = some db
    ∧ applyBootstrapMigrationIfNeeded (some initSql) none db = (db', .returned)
    ∧ FullSchema db'

/-- The first boot that committed any statement committed all four. -/
def CommitsWhole (cuts : List (Option Nat)) : Prop :=
  ∀ n, cuts.find? (· ≠ some 0) = some (some n) → 4 ≤ n

theorem commitsWhole_iff (cuts : List (Option Nat)) :
    CommitsWhole cuts ↔ committed cuts = 0 ∨ committed cuts = 4 := by
  unfold CommitsWhole committed
  cases hfirst : cuts.find? (· ≠ some 0) with
  | none => simp
  | some c =>
      have hc : c ≠ some 0 := by simpa using List.find?_some hfirst
      match c with
      | none => simp
      | some 0 => exact absurd rfl hc
      | some (n + 1) =>
          simp only [Option.some.injEq, forall_eq']
          omega

/-- **The next boot gets through exactly when no boot was cut off in the midst of the
migration.** -/
theorem recovers_iff (cuts : List (Option Nat)) : Recovers cuts ↔ CommitsWhole cuts := by
  have hrec : Recovers cuts ↔ ∃ db',
      applyBootstrapMigrationIfNeeded (some initSql) none (initSql.take (committed cuts))
        = (db', .returned) ∧ FullSchema db' := by
    simp only [Recovers, run_bootstrap, Option.some.injEq, exists_and_left, exists_eq_left']
  rw [hrec, commitsWhole_iff]
  have hle := committed_le cuts
  generalize committed cuts = k at hle
  obtain rfl | rfl | rfl | rfl | rfl : k = 0 ∨ k = 1 ∨ k = 2 ∨ k = 3 ∨ k = 4 := by omega
  · exact ⟨fun _ => Or.inl rfl, fun _ => ⟨initSql, rfl, fun _ h => h⟩⟩
  · refine ⟨?_, by omega⟩
    rintro ⟨db', hboot, -⟩
    cases hboot
  · refine ⟨?_, by omega⟩
    rintro ⟨db', hboot, -⟩
    cases hboot
  · refine ⟨?_, by omega⟩
    rintro ⟨db', hboot, hfull⟩
    obtain rfl : initSql.take 3 = db' := congrArg Prod.fst hboot
    exact absurd (hfull (.createIndex "idx_routing_observations_orch" "routing_observations"
      ["orch_address", "observed_at"]) (by decide)) (by decide)
  · exact ⟨fun _ => Or.inr rfl, fun _ => ⟨initSql, rfl, fun _ h => h⟩⟩

/-- After a boot that was cut off behind its first statement, none gets through. -/
theorem not_recovers_cutBehindFirst : ¬Recovers [some 1] := by
  rintro ⟨db, db', hrun, hboot, -⟩
  rw [run_bootstrap] at hrun
  obtain rfl := Option.some.inj hrun
  cases hboot

end GatewayConsole
