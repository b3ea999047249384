import ECN.Runs
import Mathlib.Data.List.Sort
import Mathlib.Data.List.TakeWhile

/-!
# Schema migrations

`ensureMigrations` applies the pending migrations of a table in ascending order. A
migration and the record of its version are two commits, and a run can stop between any
two commits or end in a migration that raises. A run is modelled by the commits it makes;
what it leaves behind is the effect of those before the crash.
-/
namespace ECN

/-- The versions of `_MIGRATIONS`, in the order of the dictionary. -/
structure MigrationTable where
  versions : List ℤ
  nodup : versions.Nodup
  positive : ∀ v ∈ versions, 0 < v

/-- What is stored: the row of `schema_version`, when there is one, and the migrations whose
changes are in the database, in the order in which they were committed. -/
structure SchemaDb where
  version : Option ℤ
  committed : List ℤ
  deriving DecidableEq

inductive Commit where
  | bootstrap
  | migration (version : ℤ)
  | setVersion (version : ℤ)
  deriving DecidableEq

namespace SchemaDb

/-- `_bootstrap` inserts the row when it is missing, `set_version` updates it. -/
def commit (db : SchemaDb) : Commit → SchemaDb
  | .bootstrap => { db with version := some (db.version.getD 0) }
  | .migration version => { db with committed := db.committed ++ [version] }
  | .setVersion version => { db with version := db.version.map fun _ => version }

/-- `get_version()`: the row after the bootstrap. -/
def getVersion (db : SchemaDb) : ℤ := db.version.getD 0

end SchemaDb

/-- One run: the migrations that raise in it, and the number of commits before the crash,
if it crashes. -/
structure MigrationRun where
  raises : ℤ → Bool
  crash : Option ℕ

/-- A run without a crash and with migrations that work. -/
def MigrationRun.undisturbed : MigrationRun := ⟨fun _ => false, none⟩

namespace MigrationTable

variable (table : MigrationTable)

/-- `sorted(_MIGRATIONS.items())`. -/
def sorted : List ℤ := table.versions.insertionSort (· ≤ ·)

/-- The loop over the sorted table: its commits, and whether it gets to the end. -/
def applyPending (raises : ℤ → Bool) : (current : ℤ) → List ℤ → List Commit × Bool
  | _, [] => ([], true)
  | current, version :: versions =>
    if current < version then
      if raises version then ([], false)
      else
        let rest := applyPending raises version versions
        (.migration version :: .setVersion version :: rest.1, rest.2)
    else applyPending raises current versions

/-- `ensure_migrations()`, as the commits it makes. -/
def ensureMigrations (raises : ℤ → Bool) (db : SchemaDb) : List Commit × Bool :=
  let pending := applyPending raises db.getVersion table.sorted
  (.bootstrap :: pending.1, pending.2)

/-- The database after a run. -/
def run (db : SchemaDb) (run : MigrationRun) : SchemaDb :=
  let commits := (table.ensureMigrations run.raises db).1
  (commits.take (run.crash.getD commits.length)).foldl SchemaDb.commit db

/-- The run neither crashes nor ends in a migration that raises. -/
def Completes (db : SchemaDb) (run : MigrationRun) : Prop :=
  run.crash = none ∧ (table.ensureMigrations run.raises db).2 = true

/-! ## The pending migrations -/

/-- The migrations above a version, in ascending order. -/
def pending (current : ℤ) : List ℤ := table.sorted.filter fun v => current < v

theorem mem_sorted (v : ℤ) : v ∈ table.sorted ↔ v ∈ table.versions :=
  (List.perm_insertionSort _ _).mem_iff

theorem pairwise_sorted : table.sorted.Pairwise (· < ·) := by
  have hle := List.pairwise_insertionSort (· ≤ ·) table.versions
  have hne : table.sorted.Nodup := (List.perm_insertionSort _ _).nodup_iff.mpr table.nodup
  exact (hle.and hne).imp fun h => lt_of_le_of_ne h.1 h.2

theorem pairwise_pending (current : ℤ) : (table.pending current).Pairwise (· < ·) :=
  table.pairwise_sorted.filter _

theorem mem_pending (current v : ℤ) :
    v ∈ table.pending current ↔ v ∈ table.versions ∧ current < v := by
  simp [pending, mem_sorted]

/-- The commits for the migrations of a list. -/
def commitsFor (versions : List ℤ) : List Commit :=
  versions.flatMap fun v => [.migration v, .setVersion v]

/-- The loop commits the pending migrations up to the first that raises. -/
theorem applyPending_eq (raises : ℤ → Bool) {versions : List ℤ}
    (h : versions.Pairwise (· < ·)) (current : ℤ) :
    applyPending raises current versions =
      (commitsFor ((versions.filter fun v => current < v).takeWhile fun v => !raises v),
        (versions.filter fun v => current < v).all fun v => !raises v) := by
  induction versions generalizing current with
  | nil => rfl
  | cons version versions ih =>
    rw [List.pairwise_cons] at h
    unfold applyPending
    by_cases hlt : current < version
    · -- all later versions are above this one, so the new lower bound changes nothing
      have hsame : (versions.filter fun v => current < v) =
          versions.filter fun v => version < v := by
        refine List.filter_congr fun v hv => ?_
        have := h.1 v hv
        simp only [decide_eq_decide]
        omega
      rw [if_pos hlt, List.filter_cons_of_pos (by simpa using hlt)]
      cases hraise : raises version with
      | true => simp [hraise, commitsFor]
      | false =>
        rw [ih h.2 version, hsame]
        simp [hraise, commitsFor]
    · rw [if_neg hlt, List.filter_cons_of_neg (by simpa using hlt), ih h.2]

/-- The migrations that a run applies when it does not crash. -/
def applied (raises : ℤ → Bool) (db : SchemaDb) : List ℤ :=
  (table.pending db.getVersion).takeWhile fun v => !raises v

theorem ensureMigrations_eq (raises : ℤ → Bool) (db : SchemaDb) :
    table.ensureMigrations raises db = (.bootstrap :: commitsFor (table.applied raises db),
      (table.pending db.getVersion).all fun v => !raises v) := by
  unfold ensureMigrations
  rw [applyPending_eq raises table.pairwise_sorted]
  rfl

/-! ## What a run leaves behind -/

@[simp] theorem commitsFor_cons (v : ℤ) (versions : List ℤ) :
    commitsFor (v :: versions) = .migration v :: .setVersion v :: commitsFor versions := rfl

@[simp] theorem length_commitsFor (versions : List ℤ) :
    (commitsFor versions).length = 2 * versions.length := by
  induction versions with
  | nil => rfl
  | cons v versions ih =>
    simp only [commitsFor_cons, List.length_cons, ih]
    omega

theorem take_commitsFor (versions : List ℤ) (j : ℕ) :
    (commitsFor versions).take (2 * j) = commitsFor (versions.take j) := by
  induction versions generalizing j with
  | nil => simp [commitsFor]
  | cons v versions ih =>
    cases j with
    | zero => rfl
    | succ j => simp [Nat.mul_succ, ih]

theorem take_commitsFor_succ (versions : List ℤ) {j : ℕ} (h : j < versions.length) :
    (commitsFor versions).take (2 * j + 1) =
      commitsFor (versions.take j) ++ [.migration versions[j]] := by
  induction versions generalizing j with
  | nil => simp at h
  | cons v versions ih =>
    cases j with
    | zero => rfl
    | succ j => simp [Nat.mul_succ, ih (Nat.lt_of_succ_lt_succ h)]

/-- Applying and recording the versions one by one. -/
theorem foldl_commitsFor (versions : List ℤ) (current : ℤ) (committed : List ℤ) :
    (commitsFor versions).foldl SchemaDb.commit ⟨some current, committed⟩ =
      ⟨some (versions.getLast?.getD current), committed ++ versions⟩ := by
  induction versions generalizing current committed with
  | nil => simp [commitsFor]
  | cons v versions ih =>
    simp only [commitsFor_cons, List.foldl_cons, SchemaDb.commit, Option.map_some]
    rw [ih v (committed ++ [v]), List.getLast?_cons]
    simp

/-- The crash does not fall between the commit of a migration and that of its version. Of
the commits of a run the first is the bootstrap, and then they alternate. -/
def Unsplit (db : SchemaDb) (run : MigrationRun) : Prop :=
  ∀ n, run.crash = some n →
    n = 0 ∨ n % 2 = 1 ∨ 2 * (table.applied run.raises db).length < n

theorem commit_bootstrap (db : SchemaDb) :
    db.commit .bootstrap = ⟨some db.getVersion, db.committed⟩ := rfl

theorem run_eq (db : SchemaDb) (run : MigrationRun) : table.run db run =
    ((Commit.bootstrap :: commitsFor (table.applied run.raises db)).take (run.crash.getD
      (2 * (table.applied run.raises db).length + 1))).foldl SchemaDb.commit db := by
  unfold MigrationTable.run
  rw [ensureMigrations_eq]
  simp only [List.length_cons, length_commitsFor]

/-- An unsplit run commits some of the pending migrations and records the last of them. -/
theorem run_of_unsplit {db : SchemaDb} {run : MigrationRun} (h : table.Unsplit db run) :
    ∃ done, done <+: table.applied run.raises db ∧
      (table.run db run).committed = db.committed ++ done ∧
      (table.run db run).getVersion = done.getLast?.getD db.getVersion := by
  have hall : ((commitsFor (table.applied run.raises db)).foldl SchemaDb.commit
      (db.commit .bootstrap)) = ⟨some ((table.applied run.raises db).getLast?.getD db.getVersion),
        db.committed ++ table.applied run.raises db⟩ := by
    rw [commit_bootstrap, foldl_commitsFor]
  rw [run_eq]
  cases hcrash : run.crash with
  | none =>
    refine ⟨_, List.prefix_rfl, ?_⟩
    rw [Option.getD_none, List.take_of_length_le (by simp), List.foldl_cons, hall]
    exact ⟨rfl, rfl⟩
  | some n =>
    rcases h n hcrash with rfl | hodd | hbeyond
    · exact ⟨[], List.nil_prefix, by simp, by simp⟩
    · obtain ⟨j, rfl⟩ : ∃ j, n = 2 * j + 1 := ⟨n / 2, by omega⟩
      refine ⟨_, List.take_prefix j _, ?_⟩
      simp only [Option.getD_some, List.take_succ_cons, List.foldl_cons, take_commitsFor,
        commit_bootstrap, foldl_commitsFor]
      exact ⟨trivial, rfl⟩
    · refine ⟨_, List.prefix_rfl, ?_⟩
      have hlen : (Commit.bootstrap :: commitsFor (table.applied run.raises db)).length ≤ n := by
        rw [List.length_cons, length_commitsFor]
        omega
      rw [Option.getD_some, List.take_of_length_le hlen, List.foldl_cons, hall]
      exact ⟨rfl, rfl⟩

/-- A split run has committed one migration more than it has recorded. -/
theorem run_of_split {db : SchemaDb} {run : MigrationRun} (h : ¬ table.Unsplit db run) :
    ∃ done v, done ++ [v] <+: table.applied run.raises db ∧
      (table.run db run).committed = db.committed ++ (done ++ [v]) ∧
      (table.run db run).getVersion = done.getLast?.getD db.getVersion := by
  unfold Unsplit at h
  push Not at h
  obtain ⟨n, hcrash, hpos, heven, hin⟩ := h
  obtain ⟨j, rfl⟩ : ∃ j, n = 2 * j + 1 + 1 := ⟨n / 2 - 1, by omega⟩
  have hj : j < (table.applied run.raises db).length := by omega
  refine ⟨(table.applied run.raises db).take j, (table.applied run.raises db)[j], ?_, ?_⟩
  · rw [List.take_concat_get' _ _ hj]
    exact List.take_prefix _ _
  · rw [run_eq, hcrash, Option.getD_some, List.take_succ_cons, List.foldl_cons,
      take_commitsFor_succ _ hj, List.foldl_append, commit_bootstrap, foldl_commitsFor]
    simp [SchemaDb.commit, SchemaDb.getVersion]

/-- An undisturbed run commits all pending migrations and records the last. -/
theorem run_of_completes {db : SchemaDb} {run : MigrationRun} (h : table.Completes db run) :
    table.run db run = ⟨some ((table.pending db.getVersion).getLast?.getD db.getVersion),
      db.committed ++ table.pending db.getVersion⟩ := by
  obtain ⟨hcrash, hraise⟩ := h
  rw [ensureMigrations_eq] at hraise
  have happlied : table.applied run.raises db = table.pending db.getVersion :=
    List.takeWhile_eq_self_iff.mpr (List.all_eq_true.mp hraise)
  rw [run_eq, hcrash, happlied, Option.getD_none, List.take_of_length_le (by simp),
    List.foldl_cons, commit_bootstrap, foldl_commitsFor]

theorem completes_undisturbed (db : SchemaDb) : table.Completes db .undisturbed := by
  refine ⟨rfl, ?_⟩
  rw [ensureMigrations_eq]
  simp [MigrationRun.undisturbed]

/-! ## Histories in which every commit is recorded -/

/-- What is left above the last of an ascending list is the rest of it. -/
theorem filter_above_last {first rest : List ℤ} {start : ℤ}
    (hpair : (first ++ rest).Pairwise (· < ·)) (hstart : ∀ v ∈ first ++ rest, start < v) :
    (first ++ rest).filter (fun v => first.getLast?.getD start < v) = rest := by
  cases first using List.reverseRecOn with
  | nil => exact List.filter_eq_self.mpr fun v hv => decide_eq_true (hstart v hv)
  | append_singleton before last =>
    rw [List.pairwise_append, List.pairwise_append] at hpair
    obtain ⟨⟨-, -, hbefore⟩, -, hrest⟩ := hpair
    have hlow : ∀ v ∈ before, ¬ last < v := fun v hv => (hbefore v hv last (by simp)).le.not_gt
    have hhigh : ∀ v ∈ rest, last < v := fun v hv => hrest last (by simp) v hv
    have hnone : before.filter (fun v => last < v) = [] :=
      List.filter_eq_nil_iff.mpr fun v hv => by simpa using hlow v hv
    have hall : rest.filter (fun v => last < v) = rest :=
      List.filter_eq_self.mpr fun v hv => by simpa using hhigh v hv
    simp [hnone, hall]

/-- The migrations committed so far are the first of the pending ones, and the version is
that of the last. -/
def Recorded (start : ℤ) (db : SchemaDb) : Prop :=
  db.committed <+: table.pending start ∧ db.getVersion = db.committed.getLast?.getD start

variable {table} {start : ℤ} {db : SchemaDb} {call : MigrationRun}

theorem Recorded.pending (h : table.Recorded start db) :
    table.pending start = db.committed ++ table.pending db.getVersion := by
  obtain ⟨⟨rest, hrest⟩, hversion⟩ := h
  have hpair := table.pairwise_pending start
  have habove : ∀ v ∈ table.pending start, start < v :=
    fun v hv => ((table.mem_pending start v).mp hv).2
  rw [← hrest] at hpair habove
  have hle : start ≤ db.getVersion := by
    rw [hversion]
    cases hlast : db.committed.getLast? with
    | none => exact le_rfl
    | some v => exact (habove v (List.mem_append_left _ (List.mem_of_getLast? hlast))).le
  have hsame : table.pending db.getVersion =
      (table.pending start).filter fun v => db.getVersion < v := by
    unfold MigrationTable.pending
    rw [List.filter_filter]
    refine List.filter_congr fun v _ => ?_
    rw [← Bool.decide_and, decide_eq_decide]
    omega
  rw [hsame, ← hrest, hversion, filter_above_last hpair habove]

/-- An unsplit run keeps every commit recorded. -/
theorem Recorded.step (h : table.Recorded start db) (hcall : table.Unsplit db call) :
    table.Recorded start (table.run db call) := by
  obtain ⟨done, hdone, hcommitted, hversion⟩ := table.run_of_unsplit hcall
  have hpre : done <+: table.pending db.getVersion := hdone.trans (List.takeWhile_prefix _)
  refine ⟨?_, ?_⟩
  · rw [hcommitted, h.pending]
    exact (List.prefix_append_right_inj _).mpr hpre
  · rw [hversion, hcommitted, h.2, List.getLast?_append]
    cases done.getLast? <;> rfl

/-! ## Histories with a commit that is not recorded -/

/-- The next migration to be applied is committed already. -/
def Repeats (db : SchemaDb) : Prop :=
  ∃ v ∈ db.committed, (table.pending db.getVersion).head? = some v

/-- A split run leaves a migration that is committed and still pending. -/
theorem Recorded.repeats (h : table.Recorded start db) (hcall : ¬ table.Unsplit db call) :
    table.Repeats (table.run db call) := by
  obtain ⟨done, v, hdone, hcommitted, hversion⟩ := table.run_of_split hcall
  obtain ⟨rest, hrest⟩ := hdone.trans (List.takeWhile_prefix _)
  have hall : table.pending start = (db.committed ++ done) ++ v :: rest := by
    rw [h.pending, ← hrest]
    simp
  have hbefore : table.Recorded start
      ⟨some (table.run db call).getVersion, db.committed ++ done⟩ := by
    refine ⟨⟨v :: rest, hall.symm⟩, ?_⟩
    change (table.run db call).getVersion = _
    rw [hversion, h.2, List.getLast?_append]
    cases done.getLast? <;> rfl
  have hnext := hbefore.pending
  rw [hall] at hnext
  have hpending : v :: rest = table.pending (table.run db call).getVersion :=
    List.append_cancel_left hnext
  refine ⟨v, by simp [hcommitted], ?_⟩
  rw [← hpending, List.head?_cons]

/-- What a run adds to the committed migrations. -/
theorem exists_added (db : SchemaDb) (call : MigrationRun) :
    ∃ added, added <+: table.pending db.getVersion ∧
      (table.run db call).committed = db.committed ++ added ∧
      (added = [] → (table.run db call).getVersion = db.getVersion) := by
  by_cases hcall : table.Unsplit db call
  · obtain ⟨done, hdone, hcommitted, hversion⟩ := table.run_of_unsplit hcall
    refine ⟨done, hdone.trans (List.takeWhile_prefix _), hcommitted, ?_⟩
    rintro rfl
    exact hversion
  · obtain ⟨done, v, hdone, hcommitted, -⟩ := table.run_of_split hcall
    exact ⟨done ++ [v], hdone.trans (List.takeWhile_prefix _), hcommitted, by simp⟩

/-- From such a state a run commits a migration again or leaves the state as it is. -/
theorem Repeats.step (h : table.Repeats db) (call : MigrationRun) :
    ¬ (table.run db call).committed.Nodup ∨ table.Repeats (table.run db call) := by
  obtain ⟨v, hv, hhead⟩ := h
  obtain ⟨added, hadded, hcommitted, hsame⟩ := table.exists_added db call
  cases added with
  | nil =>
    refine .inr ⟨v, by simpa [hcommitted] using hv, ?_⟩
    rw [hsame rfl, hhead]
  | cons w added =>
    obtain ⟨rest, hrest⟩ := hadded
    rw [← hrest] at hhead
    obtain rfl : w = v := by simpa using hhead
    refine .inl fun hnodup => ?_
    rw [hcommitted, List.nodup_append] at hnodup
    exact hnodup.2.2 w hv w (by simp) rfl

theorem not_nodup_step (h : ¬ db.committed.Nodup) (call : MigrationRun) :
    ¬ (table.run db call).committed.Nodup := by
  obtain ⟨added, -, hcommitted, -⟩ := table.exists_added db call
  rw [hcommitted, List.nodup_append]
  exact fun hnodup => h hnodup.1

theorem not_nodup_run (h : ¬ db.committed.Nodup) (calls : List MigrationRun) :
    ¬ (calls.foldl table.run db).committed.Nodup := by
  induction calls generalizing db with
  | nil => exact h
  | cons call calls ih => exact ih (not_nodup_step h call)

/-- Sooner or later the migration is committed twice, at the latest by the run that is
not disturbed. -/
theorem Repeats.not_nodup (h : table.Repeats db) (calls : List MigrationRun) :
    ¬ ((calls ++ [MigrationRun.undisturbed]).foldl table.run db).committed.Nodup := by
  induction calls generalizing db with
  | nil =>
    obtain ⟨v, hv, hhead⟩ := h
    have hmem : v ∈ table.pending db.getVersion := List.mem_of_head? hhead
    rw [List.nil_append, List.foldl_cons, List.foldl_nil,
      table.run_of_completes (table.completes_undisturbed db), List.nodup_append]
    exact fun hnodup => hnodup.2.2 v hv v hmem rfl
  | cons call calls ih =>
    rcases h.step call with htwice | hagain
    · exact not_nodup_run htwice _
    · exact ih hagain

/-! ## Migrations run once -/

/-- No migration is committed twice, they are committed in ascending order, and the stored
version is not above the last of them. -/
structure OnceInOrder (table : MigrationTable) (start : ℤ) (db : SchemaDb) : Prop where
  ascending : db.committed.Pairwise (· < ·)
  pending : ∀ v ∈ db.committed, v ∈ table.versions ∧ start < v
  recorded : db.getVersion ≤ db.committed.getLast?.getD start

/-- Every migration above the starting version is committed once, and the version is the
largest of the table, or the starting one. -/
structure AllCommitted (table : MigrationTable) (start : ℤ) (db : SchemaDb) : Prop where
  once : ∀ v ∈ table.versions, start < v → db.committed.count v = 1
  largest : db.version = some (table.versions.foldl max start)

/-- Whenever the runs are looked at, each migration has been committed at most once and in
order, and after a run without a crash all of them have been. -/
def MigratesOnce (table : MigrationTable) (start : Option ℤ) (calls : List MigrationRun) : Prop :=
  ∀ past, past <+: calls →
    OnceInOrder table (start.getD 0) (past.foldl table.run ⟨start, []⟩) ∧
    ∀ earlier call, past = earlier ++ [call] →
      table.Completes (earlier.foldl table.run ⟨start, []⟩) call →
        AllCommitted table (start.getD 0) (past.foldl table.run ⟨start, []⟩)

theorem Recorded.onceInOrder (h : table.Recorded start db) : OnceInOrder table start db where
  ascending := (table.pairwise_pending start).sublist h.1.sublist
  pending v hv := (table.mem_pending start v).mp (h.1.subset hv)
  recorded := h.2.le

theorem foldl_max_spec (versions : List ℤ) (start : ℤ) :
    start ≤ versions.foldl max start ∧ (∀ v ∈ versions, v ≤ versions.foldl max start) ∧
      (versions.foldl max start = start ∨ versions.foldl max start ∈ versions) := by
  induction versions generalizing start with
  | nil => simp
  | cons v versions ih =>
    obtain ⟨hstart, hall, hattained⟩ := ih (max start v)
    rw [List.foldl_cons]
    refine ⟨(le_max_left _ _).trans hstart, ?_, ?_⟩
    · intro w hw
      rcases List.mem_cons.mp hw with rfl | hw
      · exact (le_max_right _ _).trans hstart
      · exact hall w hw
    · rcases hattained with heq | hmem
      · rcases max_choice start v with hmax | hmax
        · exact .inl (heq.trans hmax)
        · exact .inr (by rw [heq, hmax]; exact List.mem_cons_self)
      · exact .inr (List.mem_cons_of_mem v hmem)

/-- The last pending migration is the largest of the table. -/
theorem getLast?_pending (start : ℤ) :
    (table.pending start).getLast?.getD start = table.versions.foldl max start := by
  obtain ⟨hstart, hall, hattained⟩ := foldl_max_spec table.versions start
  have hle : (table.pending start).getLast?.getD start ≤ table.versions.foldl max start := by
    cases hlast : (table.pending start).getLast? with
    | none => exact hstart
    | some v => exact hall v ((table.mem_pending start v).mp (List.mem_of_getLast? hlast)).1
  refine le_antisymm hle ?_
  have hpair := table.pairwise_pending start
  have habove : ∀ v ∈ table.pending start, v ≤ (table.pending start).getLast?.getD start := by
    cases hsplit : table.pending start using List.reverseRecOn with
    | nil => simp
    | append_singleton before last =>
      rw [hsplit, List.pairwise_append] at hpair
      intro v hv
      rw [List.getLast?_concat, Option.getD_some]
      rcases List.mem_append.mp hv with hv | hv
      · exact (hpair.2.2 v hv last (by simp)).le
      · exact (List.mem_singleton.mp hv).le
  have hlow : start ≤ (table.pending start).getLast?.getD start := by
    cases hlast : (table.pending start).getLast? with
    | none => exact le_rfl
    | some v => exact ((table.mem_pending start v).mp (List.mem_of_getLast? hlast)).2.le
  rcases hattained with heq | hmem
  · rw [heq]
    exact hlow
  · by_cases hlt : start < table.versions.foldl max start
    · exact habove _ ((table.mem_pending start _).mpr ⟨hmem, hlt⟩)
    · exact (not_lt.mp hlt).trans hlow

theorem Recorded.allCommitted (h : table.Recorded start db) (hcall : table.Completes db call) :
    AllCommitted table start (table.run db call) := by
  have hversion : (table.pending db.getVersion).getLast?.getD db.getVersion =
      (table.pending start).getLast?.getD start := by
    rw [h.pending, List.getLast?_append, h.2]
    cases (table.pending (db.committed.getLast?.getD start)).getLast? <;> rfl
  rw [table.run_of_completes hcall, ← h.pending, hversion, getLast?_pending]
  refine ⟨fun v hv hlt => ?_, rfl⟩
  have hnodup : (table.pending start).Nodup := (table.pairwise_pending start).nodup
  exact List.count_eq_one_of_mem hnodup ((table.mem_pending start v).mpr ⟨hv, hlt⟩)

/-- Every migration is committed once and in order, if and only if no crash falls between
a migration and the record of its version; the last run is one that completes what the
others have left. -/
theorem migratesOnce_iff (table : MigrationTable) (start : Option ℤ) (calls : List MigrationRun) :
    MigratesOnce table start (calls ++ [.undisturbed]) ↔
      StepsMeet table.run table.Unsplit ⟨start, []⟩ calls := by
  have hstart : table.Recorded (start.getD 0) ⟨start, []⟩ := ⟨List.nil_prefix, rfl⟩
  constructor
  · intro honce
    by_contra hsplit
    obtain ⟨past, call, rest, rfl, hpast, hcall⟩ := exists_first_miss hsplit
    have hrecorded := (Throughout.of_stepsMeet (fun _ _ h hok => h.step hok) hstart hpast).last
    have htwice := (hrecorded.repeats hcall).not_nodup rest
    have hascending := (honce _ List.prefix_rfl).1.ascending.nodup
    rw [List.append_assoc, List.cons_append, List.foldl_append, List.foldl_cons] at hascending
    exact htwice hascending
  · intro hmeet past hpast
    have hlast : table.Unsplit (calls.foldl table.run ⟨start, []⟩) .undisturbed :=
      fun n hn => absurd hn (by simp [MigrationRun.undisturbed])
    have hall : StepsMeet table.run table.Unsplit ⟨start, []⟩
        (calls ++ [MigrationRun.undisturbed]) := stepsMeet_append.mpr ⟨hmeet, hlast, trivial⟩
    have hrecorded := throughout_iff_prefix.mp
      (Throughout.of_stepsMeet (fun _ _ h hok => Recorded.step h hok) hstart hall)
    refine ⟨(hrecorded past hpast).onceInOrder, ?_⟩
    rintro earlier call rfl hcall
    rw [List.foldl_append, List.foldl_cons, List.foldl_nil]
    exact (hrecorded earlier ((List.prefix_append _ _).trans hpast)).allCommitted hcall

/-- The table as it is, with the baseline alone. -/
def baselineTable : MigrationTable := ⟨[1], by decide, by decide⟩

/-- A crash right after the commit of the baseline makes the next start commit it again. -/
theorem baseline_committed_twice :
    ([⟨fun _ => false, some 2⟩, MigrationRun.undisturbed].foldl baselineTable.run
      ⟨none, []⟩).committed = [1, 1] ∧
    ¬ MigratesOnce baselineTable none [⟨fun _ => false, some 2⟩, .undisturbed] := by
  refine ⟨by decide, fun honce => ?_⟩
  exact absurd (honce _ List.prefix_rfl).1.ascending (by decide)

end MigrationTable
end ECN
