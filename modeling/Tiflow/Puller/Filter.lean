import Tiflow.Puller.JobPuller

/-!
# The filter of rename and create-tables jobs

The branches of `handleJob`'s switch that filter a job table by table:

* `renameFate` — the one rule for a renamed table: kept when the filter does not discard its
  old name, dropped when it discards both names, refused (`ErrSyncRenameTableFailed`) when it
  discards only the old one;
* `remainTables_eq` — the loop of `handleRenameTables` fails at the first table the rule
  refuses, and otherwise keeps the tables the rule keeps, each with its arguments, in order;
* `rename_filter_rule` — both rename branches follow the rule: the job is skipped when no table
  is kept, and a rename-tables job keeps the kept tables and their arguments, index by index;
* `create_tables_filter` — a create-tables job keeps the tables the filter does not discard,
  each with its query, and is applied to the storage unless no table remains.
-/

namespace Tiflow.Puller

/-- What becomes of a renamed table. -/
inductive RenameFate where
  | kept
  | dropped
  | refused
  deriving DecidableEq, Repr

/-- The rule for a renamed table, from whether the filter discards its old and its new name. -/
def renameFate (discardOld discardNew : Bool) : RenameFate :=
  if !discardOld then .kept else if discardNew then .dropped else .refused

/-- The two tests of the rename branches decide the rule: the loop of `handleRenameTables`
tests both names first, the rename-table branch the old name first. -/
theorem renameFate_cases {α : Type} (discardOld discardNew : Bool) (kept dropped refused : α) :
    (if discardOld && discardNew then dropped
      else if discardOld && !discardNew then refused else kept) =
      (match renameFate discardOld discardNew with
        | .kept => kept | .dropped => dropped | .refused => refused) ∧
    (if discardOld then (if !discardNew then refused else dropped) else kept) =
      (match renameFate discardOld discardNew with
        | .kept => kept | .dropped => dropped | .refused => refused) := by
  cases discardOld <;> cases discardNew <;> exact ⟨rfl, rfl⟩

namespace DDLJobPuller

variable {σ : Type} (c : Collaborators σ)

/-! ### The names a rename discards -/

/-- `shouldDiscardOldTable` of `handleRenameTables`: a table absent from the snapshot is
discarded. -/
def shouldDiscardOldTable (snap : Snapshot) (job : Job) (tableInfo : TableInfo)
    (info : RenameTableArgs) : Bool :=
  match snap.PhysicalTableByID tableInfo.ID with
  | none => true
  | some oldTable => c.ShouldDiscardDDL job.«Type» info.OldSchemaName oldTable.Name

/-- `shouldDiscardNewTable` of `handleRenameTables`: a new schema absent from the snapshot is
discarded. -/
def shouldDiscardNewTable (snap : Snapshot) (job : Job) (info : RenameTableArgs) : Bool :=
  match snap.SchemaByID info.NewSchemaID with
  | none => true
  | some newSchemaName => c.ShouldDiscardDDL job.«Type» newSchemaName info.NewTableName

/-- The rule for one table of a rename-tables job, with its arguments. -/
def renameTableFate (snap : Snapshot) (job : Job) (table : TableInfo × RenameTableArgs) :
    RenameFate :=
  renameFate (shouldDiscardOldTable c snap job table.1 table.2)
    (shouldDiscardNewTable c snap job table.2)

/-- `skipByOldTableName` of the rename-table branch; a table absent from the snapshot is
discarded. -/
def skipByOldTableName (snap : Snapshot) (job : Job) : Bool :=
  match snap.PhysicalTableByID job.TableID with
  | none => true
  | some oldTable =>
    c.ShouldDiscardDDL job.«Type» oldTable.TableName.Schema oldTable.TableName.Table

/-! ### The loop of `handleRenameTables` -/

variable {c}

theorem renameTableOf_eq (snap : Snapshot) (job : Job) (tableInfo : TableInfo)
    (info : RenameTableArgs) :
    renameTableOf c snap job tableInfo info =
      match renameTableFate c snap job (tableInfo, info) with
      | .kept => .ok (some (info, tableInfo))
      | .dropped => .ok none
      | .refused => .error (.syncRenameTableFailed tableInfo.ID job.Query) :=
  (renameFate_cases _ _ _ _ _).1

/-- **The loop of `handleRenameTables`** fails at the first table the rule refuses, and
otherwise keeps, in order, the tables the rule keeps, each with its arguments. -/
theorem remainTables_eq (snap : Snapshot) (job : Job)
    (tables : List (TableInfo × RenameTableArgs)) :
    remainTables c snap job tables =
      match tables.find? (renameTableFate c snap job · = .refused) with
      | some (tableInfo, _) => .error (.syncRenameTableFailed tableInfo.ID job.Query)
      | none => .ok ((tables.filter (renameTableFate c snap job · = .kept)).map Prod.swap) := by
  induction tables with
  | nil => rfl
  | cons table rest ih =>
    obtain ⟨tableInfo, info⟩ := table
    simp only [remainTables, renameTableOf_eq, List.find?_cons, List.filter_cons, ih]
    cases renameTableFate c snap job (tableInfo, info) <;>
      cases rest.find? (renameTableFate c snap job · = .refused) <;> rfl

/-! ### The rename branches -/

/-- **Both rename branches follow the rule.** A rename-table job is kept unchanged when the rule
keeps its table, skipped when the rule drops it, and fails when the rule refuses it. A
rename-tables job whose arguments decode to as many tables as it has fails, wrapped in
`ErrHandleDDLFailed`, at the first table the rule refuses; otherwise it is skipped when the rule
keeps none, and else rewritten to the kept tables and to the arguments of exactly those, in
their order. -/
theorem rename_filter_rule (c : Collaborators σ) (snap : Snapshot) (job : Job) :
    (job.«Type» = .renameTable →
      filterJob c snap job = match job.BinlogInfo.TableInfo with
        | none => .error .nilTableInfo
        | some tableInfo =>
          match renameFate (skipByOldTableName c snap job)
              (c.ShouldDiscardDDL job.«Type» job.SchemaName tableInfo.Name) with
          | .kept => .ok (false, job)
          | .dropped => .ok (true, job)
          | .refused => .error (.syncRenameTableFailed job.TableID job.Query)) ∧
    ∀ args, job.«Type» = .renameTables → c.GetRenameTablesArgs job = .ok args →
      job.BinlogInfo.MultipleTableInfos.length = args.RenameTableInfos.length →
      let tables := job.BinlogInfo.MultipleTableInfos.zip args.RenameTableInfos
      filterJob c snap job =
        match tables.find? (renameTableFate c snap job · = .refused) with
        | some (tableInfo, _) => .error (.handleDDLFailed
            (.syncRenameTableFailed tableInfo.ID job.Query) job.Query job.StartTS job.StartTS)
        | none =>
          let kept := tables.filter (renameTableFate c snap job · = .kept)
          if kept = [] then .ok (true, job) else
          match c.GetNewJobWithArgs job ⟨kept.map Prod.snd⟩ with
          | .error err => .error (.handleDDLFailed err job.Query job.StartTS job.StartTS)
          | .ok bakJob => .ok (false, { job with
              RawArgs := bakJob.RawArgs
              BinlogInfo := { job.BinlogInfo with MultipleTableInfos := kept.map Prod.fst } }) := by
  refine ⟨fun ht => ?_, fun args ht ha hl => ?_⟩
  · simp only [filterJob, skipByOldTableName, ht]
    cases job.BinlogInfo.TableInfo with
    | none => cases snap.PhysicalTableByID job.TableID <;> rfl
    | some tableInfo =>
      cases snap.PhysicalTableByID job.TableID <;> dsimp only
      · exact (renameFate_cases true _ _ _ _).2
      · exact (renameFate_cases _ _ _ _ _).2
  · simp only [filterJob, ht, handleRenameTables, ha, hl, ne_eq, not_true_eq_false, if_false,
      remainTables_eq]
    cases (job.BinlogInfo.MultipleTableInfos.zip args.RenameTableInfos).find?
      (renameTableFate c snap job · = .refused) with
    | some table => rfl
    | none =>
      dsimp only
      generalize (job.BinlogInfo.MultipleTableInfos.zip args.RenameTableInfos).filter
        (renameTableFate c snap job · = .kept) = kept
      by_cases hk : kept = []
      · subst hk; rfl
      · rw [if_neg hk, if_neg (mt List.map_eq_nil_iff.1 hk),
          show (kept.map Prod.swap).map Prod.fst = kept.map Prod.snd from List.map_map _ _ _,
          show (kept.map Prod.swap).map Prod.snd = kept.map Prod.fst from List.map_map _ _ _]
        cases c.GetNewJobWithArgs job ⟨kept.map Prod.snd⟩ <;> rfl

/-! ### The create-tables branch -/

/-- `checkIneligibleTableDDL` skips no create-tables job. -/
theorem checkIneligibleTableDDL_createTables {p : DDLJobPuller σ} {snap : Snapshot} {job : Job}
    (ht : job.«Type» = .createTables) : p.checkIneligibleTableDDL c snap job = .ok false := by
  unfold checkIneligibleTableDDL
  split
  · rfl
  · cases job.BinlogInfo.TableInfo <;> simp [ht]

/-- The create-tables branch of the switch: the queries must be as many as the tables, and the
job keeps the tables the filter does not discard, each with its query. -/
theorem filterJob_createTables {snap : Snapshot} {job : Job} {querys : List String}
    (ht : job.«Type» = .createTables) (hq : c.SplitQueries job.Query = .ok querys) :
    filterJob c snap job =
      if querys.length ≠ job.BinlogInfo.MultipleTableInfos.length then
        .error .tidbUnexpectedJobMeta
      else
        let kept := (job.BinlogInfo.MultipleTableInfos.zip querys).filter fun q =>
          !c.ShouldDiscardDDL job.«Type» job.SchemaName q.1.Name
        .ok (kept.isEmpty, { job with
          BinlogInfo := { job.BinlogInfo with MultipleTableInfos := kept.map Prod.fst }
          Query := String.join (kept.map Prod.snd) }) := by
  simp only [filterJob, ht, hq]

/-- **A create-tables job keeps the tables the filter does not discard, each with its query.**
When `handleJob` reaches its switch with a create-tables job, its schema name filled and its
queries split: if the queries are not as many as the tables, it fails and leaves the puller as
it was. Otherwise the job keeps the tables the filter does not discard for its schema and their
names, and the query of each at its index; it is skipped, and not handed to the storage, when no
table remains, and else handed to the storage, and then kept unless the storage refuses it. -/
theorem create_tables_filter (c : Collaborators σ) {p : DDLJobPuller σ} {job : Job}
    {schemaName : String} {querys : List String} (ht : job.«Type» = .createTables)
    (hc : p.resolvedTs < job.BinlogInfo.FinishedTS ∧ job.BinlogInfo.SchemaVersion ≠ 0)
    (hs : (c.schemaStorage.GetLastSnapshot p.storage).FillSchemaName job = .ok schemaName)
    (hq : c.SplitQueries job.Query = .ok querys) :
    let tableInfos := job.BinlogInfo.MultipleTableInfos
    let discard (tableInfo : TableInfo) := c.ShouldDiscardDDL job.«Type» schemaName tableInfo.Name
    let kept := (tableInfos.zip querys).filter fun q => !discard q.1
    let job' : Job := { job with
      SchemaName := schemaName
      BinlogInfo := { job.BinlogInfo with MultipleTableInfos := kept.map Prod.fst }
      Query := String.join (kept.map Prod.snd) }
    (querys.length ≠ tableInfos.length →
      p.handleJob c job = (p, .error .tidbUnexpectedJobMeta)) ∧
    (querys.length = tableInfos.length →
      kept.map Prod.fst = tableInfos.filter (fun tableInfo => !discard tableInfo) ∧
      (kept = [] → p.handleJob c job = (p, .ok (true, job'))) ∧
      (kept ≠ [] → p.handleJob c job =
        let p₁ := { p with calls := p.calls ++ [.handleDDLJob job'] }
        match c.schemaStorage.HandleDDLJob p.storage job' with
        | .error err => (p₁, .error (.handleDDLFailed err job'.Query job'.StartTS job'.StartTS))
        | .ok storage =>
          ({ p₁ with storage := storage, resolvedTs := job.BinlogInfo.FinishedTS },
            .ok (false, job')))) := by
  intro tableInfos discard kept job'
  have hpre : ¬(job.BinlogInfo.FinishedTS ≤ p.resolvedTs ∨ job.BinlogInfo.SchemaVersion = 0) := by
    omega
  have hf : filterJob c (c.schemaStorage.GetLastSnapshot p.storage)
      { job with SchemaName := schemaName } =
      if querys.length ≠ tableInfos.length then .error .tidbUnexpectedJobMeta
      else .ok (kept.isEmpty, job') :=
    filterJob_createTables ht hq
  simp only [handleJob, if_neg hpre, hs, hf]
  refine ⟨fun hne => by rw [if_pos hne], fun heq => ?_⟩
  rw [if_neg (not_not.2 heq)]
  refine ⟨?_, fun hk => by rw [hk]; rfl, fun hk => ?_⟩
  · calc kept.map Prod.fst
        = ((tableInfos.zip querys).map Prod.fst).filter (fun tableInfo => !discard tableInfo) :=
          (List.filter_map (p := fun tableInfo => !discard tableInfo) Prod.fst _).symm
      _ = tableInfos.filter (fun tableInfo => !discard tableInfo) := by
          rw [List.map_fst_zip _ _ heq.ge]
  · rw [Bool.eq_false_iff.2 (mt List.isEmpty_iff.1 hk)]
    dsimp only
    cases c.schemaStorage.HandleDDLJob p.storage job' with
    | error err => rfl
    | ok storage =>
      simp only [checkIneligibleTableDDL_createTables (show job'.«Type» = .createTables from ht)]
      rfl

end DDLJobPuller

/-! ### Runs on fixed inputs -/

/-- Collaborators whose filter discards the tables named "b" and "b2", whose snapshot knows the
schema 1, "db", with its tables 1, "a", and 2, "b", and whose storage applies every job. A
rename-tables job decodes to the renames of the tables 1, 2 and 3 to "a2", "b2" and "c2", the
last into the unknown schema 2; a create-tables job splits into two queries. -/
def filterUpstream : Collaborators Unit where
  schemaStorage :=
    { GetLastSnapshot := fun _ =>
        { FillSchemaName := fun _ => .ok "db"
          PhysicalTableByID := fun id =>
            if id = 1 then some ⟨⟨"db", "a"⟩, "a"⟩ else if id = 2 then some ⟨⟨"db", "b"⟩, "b"⟩
            else none
          SchemaByID := fun id => if id = 1 then some "db" else none
          IsIneligibleTableID := fun _ => false }
      HandleDDLJob := fun s _ => .ok s
      AdvanceResolvedTs := fun s _ => s }
  ShouldDiscardDDL := fun _ _ name => name = "b" || name = "b2"
  IsSchemaDDL := fun _ => false
  IsLegacyFormatJob := fun _ => true
  initJobTableMeta := .error (.external "")
  ParseDDLJob := fun _ _ _ => .ok none
  SplitQueries := fun _ => .ok ["create table c;", "create table b;"]
  GetRenameTablesArgs := fun _ => .ok
    ⟨[⟨1, 1, 1, "a2", "db", "a"⟩, ⟨1, 1, 2, "b2", "db", "b"⟩, ⟨1, 2, 3, "c2", "db", "c"⟩]⟩
  GetNewJobWithArgs := fun job _ => .ok { job with RawArgs := "remaining" }

/-- The rename of the tables 1, 2 and 3. -/
def renameTablesJob : Job :=
  { ID := 7, «Type» := .renameTables
    BinlogInfo := { SchemaVersion := 1, FinishedTS := 10
                    MultipleTableInfos := [⟨1, "a2"⟩, ⟨2, "b2"⟩, ⟨3, "c2"⟩] } }

/-- Of three renamed tables the rule keeps the first, whose old name the filter keeps; the
second has both names discarded, the third is absent from the snapshot, its new schema too. -/
theorem rename_filter_rule_three_tables :
    (∃ args, filterUpstream.GetRenameTablesArgs renameTablesJob = .ok args ∧
      renameTablesJob.BinlogInfo.MultipleTableInfos.length = args.RenameTableInfos.length) ∧
    DDLJobPuller.filterJob filterUpstream (filterUpstream.schemaStorage.GetLastSnapshot ())
      renameTablesJob =
      .ok (false, { renameTablesJob with
        RawArgs := "remaining"
        BinlogInfo := { renameTablesJob.BinlogInfo with MultipleTableInfos := [⟨1, "a2"⟩] } }) := by
  refine ⟨⟨_, rfl, rfl⟩, ?_⟩
  rw [(DDLJobPuller.rename_filter_rule filterUpstream _ renameTablesJob).2 _ rfl rfl rfl]
  rfl

/-- The creation of the tables 4, "c", and 5, "b". -/
def createTablesJob : Job :=
  { ID := 8, «Type» := .createTables, Query := "create table c;create table b;"
    BinlogInfo := { SchemaVersion := 1, FinishedTS := 10
                    MultipleTableInfos := [⟨4, "c"⟩, ⟨5, "b"⟩] } }

/-- Of two created tables the filter discards the second: the job keeps the first with its
query, and is handed to the storage. -/
theorem create_tables_filter_one_discarded :
    (newDDLJobPuller ()).handleJob filterUpstream createTablesJob =
      let job : Job := { createTablesJob with
        SchemaName := "db"
        BinlogInfo := { createTablesJob.BinlogInfo with MultipleTableInfos := [⟨4, "c"⟩] }
        Query := "create table c;" }
      ({ newDDLJobPuller () with calls := [.handleDDLJob job], resolvedTs := 10 },
        .ok (false, job)) := by
  rw [((DDLJobPuller.create_tables_filter filterUpstream rfl ⟨by decide, by decide⟩ rfl rfl).2
    rfl).2.2 (by decide)]
  rfl

end Tiflow.Puller
