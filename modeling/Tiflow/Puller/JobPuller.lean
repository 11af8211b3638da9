import Tiflow.Puller.Basic

/-!
# The job puller

`ddlJobPullerImpl` and the methods its `Run` loop calls on each entry the sorter outputs:

* `handleRawKVEntry` — a resolved entry advances the storage and `resolvedTs`; a put entry is
  parsed (`unmarshalDDL`) and its job goes through `handleJob`; what is not skipped is sent;
* `handleJob` — the check of `FinishedTS` against `resolvedTs` and of the schema version,
  `FillSchemaName`, the filter by the job's type (`filterJob`, with `handleRenameTables`),
  `HandleDDLJob`, `resolvedTs` set to the job's `FinishedTS`, and
  `checkIneligibleTableDDL`;
* `processEntries` — `Run`'s loop over the sorted entries, up to the first error.

A method that fails returns the puller as it left it: a resolved entry has already advanced
it, a job refused by the storage has already been handed to it.
-/

namespace Tiflow.Puller

/-- `ddlJobPullerImpl`: the fields its methods read and write, the state of its schema storage,
and, as ghost, the calls it made on the storage. -/
structure DDLJobPuller (σ : Type) where
  resolvedTs : Nat := 0
  ddlJobsTable : Option TableInfo := none
  jobMetaColumnID : Int := 0
  storage : σ
  calls : List StorageCall := []

/-- `NewDDLJobPuller`: `resolvedTs` starts at zero, whatever the checkpoint it pulls from. -/
def newDDLJobPuller {σ : Type} (storage : σ) : DDLJobPuller σ := { storage := storage }

namespace DDLJobPuller

variable {σ : Type} (c : Collaborators σ)

/-! ### Parsing -/

/-- `unmarshalDDL`: only a put entry holds a job; the table of jobs is read from the upstream
before the first entry that is not of the legacy format. -/
def unmarshalDDL (p : DDLJobPuller σ) (rawKV : RawKVEntry) :
    DDLJobPuller σ × Except DDLError (Option Job) :=
  if rawKV.OpType ≠ .put then (p, .ok none) else
  if p.ddlJobsTable = none ∧ c.IsLegacyFormatJob rawKV = false then
    match c.initJobTableMeta with
    | .error err => (p, .error err)
    | .ok (table, colID) =>
      let p := { p with ddlJobsTable := some table, jobMetaColumnID := colID }
      (p, c.ParseDDLJob p.ddlJobsTable rawKV p.jobMetaColumnID)
  else (p, c.ParseDDLJob p.ddlJobsTable rawKV p.jobMetaColumnID)

/-! ### The filter of `handleJob` -/

/-- One table of the loop of `handleRenameTables`: kept with its arguments, dropped (`none`)
when its old and new names are both discarded, or an error when only its old name is. -/
def renameTableOf (snap : Snapshot) (job : Job) (tableInfo : TableInfo) (info : RenameTableArgs) :
    Except DDLError (Option (RenameTableArgs × TableInfo)) :=
  let shouldDiscardOldTable := match snap.PhysicalTableByID tableInfo.ID with
    | none => true
    | some oldTable => c.ShouldDiscardDDL job.«Type» info.OldSchemaName oldTable.Name
  let shouldDiscardNewTable := match snap.SchemaByID info.NewSchemaID with
    | none => true
    | some newSchemaName => c.ShouldDiscardDDL job.«Type» newSchemaName info.NewTableName
  if shouldDiscardOldTable && shouldDiscardNewTable then .ok none
  else if shouldDiscardOldTable && !shouldDiscardNewTable then
    .error (.syncRenameTableFailed tableInfo.ID job.Query)
  else .ok (some (info, tableInfo))

/-- The loop of `handleRenameTables` over the tables and their arguments. -/
def remainTables (snap : Snapshot) (job : Job) :
    List (TableInfo × RenameTableArgs) → Except DDLError (List (RenameTableArgs × TableInfo))
  | [] => .ok []
  | (tableInfo, info) :: rest =>
    match renameTableOf c snap job tableInfo info with
    | .error err => .error err
    | .ok kept =>
      match remainTables snap job rest with
      | .error err => .error err
      | .ok remain => .ok (kept.toList ++ remain)

/-- `handleRenameTables`: whether the job is skipped, and the job rewritten to the tables that
remain. -/
def handleRenameTables (snap : Snapshot) (job : Job) : Except DDLError (Bool × Job) :=
  match c.GetRenameTablesArgs job with
  | .error err => .error err
  | .ok args =>
    let multiTableInfos := job.BinlogInfo.MultipleTableInfos
    if multiTableInfos.length ≠ args.RenameTableInfos.length then .error (.invalidDDLJob job.ID) else
    match remainTables c snap job (multiTableInfos.zip args.RenameTableInfos) with
    | .error err => .error err
    | .ok remain =>
      if remain = [] then .ok (true, job) else
      match c.GetNewJobWithArgs job ⟨remain.map Prod.fst⟩ with
      | .error err => .error err
      | .ok bakJob => .ok (false, { job with
          RawArgs := bakJob.RawArgs
          BinlogInfo := { job.BinlogInfo with MultipleTableInfos := remain.map Prod.snd } })

/-- The `switch` of `handleJob` on the job's type: whether the job is skipped, and the job as
its branch rewrote it. -/
def filterJob (snap : Snapshot) (job : Job) : Except DDLError (Bool × Job) :=
  match job.«Type» with
  | .renameTables =>
    match handleRenameTables c snap job with
    | .error err => .error (.handleDDLFailed err job.Query job.StartTS job.StartTS)
    | .ok r => .ok r
  | .createTables =>
    match c.SplitQueries job.Query with
    | .error err => .error err
    | .ok querys =>
      if querys.length ≠ job.BinlogInfo.MultipleTableInfos.length then .error .tidbUnexpectedJobMeta
      else
        let kept := (job.BinlogInfo.MultipleTableInfos.zip querys).filter fun q =>
          !c.ShouldDiscardDDL job.«Type» job.SchemaName q.1.Name
        .ok (kept.isEmpty, { job with
          BinlogInfo := { job.BinlogInfo with MultipleTableInfos := kept.map Prod.fst }
          Query := String.join (kept.map Prod.snd) })
  | .renameTable =>
    match snap.PhysicalTableByID job.TableID, job.BinlogInfo.TableInfo with
    | _, none => .error .nilTableInfo
    | none, some tableInfo =>
      if !c.ShouldDiscardDDL job.«Type» job.SchemaName tableInfo.Name then
        .error (.syncRenameTableFailed job.TableID job.Query)
      else .ok (true, job)
    | some oldTable, some tableInfo =>
      let skipByOldTableName :=
        c.ShouldDiscardDDL job.«Type» oldTable.TableName.Schema oldTable.TableName.Table
      let skipByNewTableName := c.ShouldDiscardDDL job.«Type» job.SchemaName tableInfo.Name
      if skipByOldTableName then
        if !skipByNewTableName then .error (.syncRenameTableFailed job.TableID job.Query)
        else .ok (true, job)
      else .ok (false, job)
  | _ =>
    let job := match job.BinlogInfo.TableInfo with
      | some tableInfo => { job with TableName := tableInfo.Name }
      | none => job
    .ok (c.ShouldDiscardDDL job.«Type» job.SchemaName job.TableName, job)

/-- `checkIneligibleTableDDL`: a table job whose table is ineligible after it is skipped when
the table was absent or ineligible before, and an error when it was eligible. -/
def checkIneligibleTableDDL (p : DDLJobPuller σ) (snapBefore : Snapshot) (job : Job) :
    Except DDLError Bool :=
  if c.IsSchemaDDL job.«Type» then .ok false else
  let snapAfter := c.schemaStorage.GetLastSnapshot p.storage
  match job.BinlogInfo.TableInfo with
  | none => if job.«Type» = .createTables then .ok false else .error .nilTableInfo
  | some tableInfo =>
    if job.«Type» = .createTable ∧ snapAfter.IsIneligibleTableID tableInfo.ID = false then .ok false
    else if job.«Type» = .createTables then .ok false
    else if snapAfter.IsIneligibleTableID tableInfo.ID = false then .ok false
    else match snapBefore.PhysicalTableByID job.TableID with
      | none => .ok true
      | some _ =>
        if snapBefore.IsIneligibleTableID job.TableID then .ok true
        else .error (.eligibleTableBecomeIneligible job.Query)

/-! ### Handling an entry -/

/-- **`handleJob`**: whether the job is skipped, and the job as the filter rewrote it. A job
that passes the checks and the filter is applied to the storage, and `resolvedTs` is set to
its `FinishedTS`. -/
def handleJob (p : DDLJobPuller σ) (job : Job) : DDLJobPuller σ × Except DDLError (Bool × Job) :=
  if job.BinlogInfo.FinishedTS ≤ p.resolvedTs ∨ job.BinlogInfo.SchemaVersion = 0 then
    (p, .ok (true, job))
  else
  let snap := c.schemaStorage.GetLastSnapshot p.storage
  match snap.FillSchemaName job with
  | .error err =>
    if c.ShouldDiscardDDL job.«Type» job.SchemaName job.TableName then (p, .ok (true, job))
    else (p, .error (.handleDDLFailed err job.Query job.StartTS job.StartTS))
  | .ok schemaName =>
    match filterJob c snap { job with SchemaName := schemaName } with
    | .error err => (p, .error err)
    | .ok (true, job) => (p, .ok (true, job))
    | .ok (false, job) =>
      let p := { p with calls := p.calls ++ [.handleDDLJob job] }
      match c.schemaStorage.HandleDDLJob p.storage job with
      | .error err => (p, .error (.handleDDLFailed err job.Query job.StartTS job.StartTS))
      | .ok storage =>
        let p := { p with storage := storage, resolvedTs := job.BinlogInfo.FinishedTS }
        (p, (p.checkIneligibleTableDDL c snap job).map fun skip => (skip, job))

/-- The resolved branch of `handleRawKVEntry`: the storage's `AdvanceResolvedTs`, then
`resolvedTs` raised to the entry's. -/
def onResolved (p : DDLJobPuller σ) (ts : Nat) : DDLJobPuller σ :=
  let p := { p with
    storage := c.schemaStorage.AdvanceResolvedTs p.storage ts
    calls := p.calls ++ [.advanceResolvedTs ts] }
  if ts > p.resolvedTs then { p with resolvedTs := ts } else p

/-- **`handleRawKVEntry`**: the entry it sends on the output channel, if any. -/
def handleRawKVEntry (p : DDLJobPuller σ) (ddlRawKV : RawKVEntry) :
    DDLJobPuller σ × Except DDLError (Option DDLJobEntry) :=
  let p := if ddlRawKV.OpType = .resolved then p.onResolved c ddlRawKV.CRTs else p
  match p.unmarshalDDL c ddlRawKV with
  | (p, .error err) => (p, .error err)
  | (p, .ok none) => (p, .ok (some ⟨none, ddlRawKV.OpType, ddlRawKV.CRTs⟩))
  | (p, .ok (some job)) =>
    match p.handleJob c job with
    | (p, .error err) => (p, .error err)
    | (p, .ok (true, _)) => (p, .ok none)
    | (p, .ok (false, job)) => (p, .ok (some ⟨some job, ddlRawKV.OpType, ddlRawKV.CRTs⟩))

/-- `Run`'s loop over the entries the sorter outputs, up to the first error: the puller, the
entries sent on the output channel, and the error that stopped the loop. -/
def processEntries (p : DDLJobPuller σ) : List RawKVEntry →
    DDLJobPuller σ × List DDLJobEntry × Option DDLError
  | [] => (p, [], none)
  | e :: es =>
    match p.handleRawKVEntry c e with
    | (p', .error err) => (p', [], some err)
    | (p', .ok out) =>
      let r := p'.processEntries es
      (r.1, out.toList ++ r.2.1, r.2.2)

/-! ### What each method can do -/

end DDLJobPuller

/-- `j` is `job` as the filter may rewrite it: the same ID, commit and schema version. -/
structure Job.Keeps (job j : Job) : Prop where
  id : j.ID = job.ID
  finishedTS : j.BinlogInfo.FinishedTS = job.BinlogInfo.FinishedTS
  schemaVersion : j.BinlogInfo.SchemaVersion = job.BinlogInfo.SchemaVersion

theorem Job.Keeps.refl (job : Job) : job.Keeps job := ⟨rfl, rfl, rfl⟩

namespace DDLJobPuller

variable {σ : Type} {c : Collaborators σ} {p p' : DDLJobPuller σ}

theorem handleRenameTables_keeps {snap : Snapshot} {job j : Job} {b : Bool}
    (h : handleRenameTables c snap job = .ok (b, j)) : job.Keeps j := by
  unfold handleRenameTables at h
  split at h
  · cases h
  dsimp only at h
  split at h
  · cases h
  split at h
  · cases h
  split at h
  · cases h; exact .refl job
  split at h
  · cases h
  · cases h; exact ⟨rfl, rfl, rfl⟩

theorem filterJob_keeps {snap : Snapshot} {job j : Job} {b : Bool}
    (h : filterJob c snap job = .ok (b, j)) : job.Keeps j := by
  unfold filterJob at h
  split at h
  · split at h
    · cases h
    · cases h; exact handleRenameTables_keeps ‹_›
  · split at h
    · cases h
    split at h
    · cases h
    · cases h; exact ⟨rfl, rfl, rfl⟩
  · split at h
    · cases h
    · split at h
      · cases h
      · cases h; exact .refl job
    · dsimp only at h
      split at h
      · split at h
        · cases h
        · cases h; exact .refl job
      · cases h; exact .refl job
  · cases h; split <;> exact ⟨rfl, rfl, rfl⟩

/-- **What `handleJob` can do**: leave the puller as it was, and skip the job or fail; or, its
checks passed, hand the job as the filter rewrote it to the storage. Then either the storage
refuses it and the call fails, or `resolvedTs` moves to the job's commit and a job the call
returns is that one. -/
theorem handleJob_spec {job : Job} {r : Except DDLError (Bool × Job)}
    (h : p.handleJob c job = (p', r)) :
    (p' = p ∧ ∀ j, r ≠ .ok (false, j)) ∨
    ∃ j, job.Keeps j ∧ p.resolvedTs < job.BinlogInfo.FinishedTS ∧
      job.BinlogInfo.SchemaVersion ≠ 0 ∧ p'.calls = p.calls ++ [.handleDDLJob j] ∧
      ((p'.resolvedTs = p.resolvedTs ∧ ∃ err, r = .error err) ∨
       (p'.resolvedTs = job.BinlogInfo.FinishedTS ∧ ∀ b j', r = .ok (b, j') → j' = j)) := by
  unfold handleJob at h
  split at h
  · cases h; exact .inl ⟨rfl, by simp⟩
  rename_i hc
  simp only [not_or, not_le] at hc
  dsimp only at h
  split at h
  · split at h <;> (cases h; exact .inl ⟨rfl, by simp⟩)
  split at h
  · cases h; exact .inl ⟨rfl, by simp⟩
  · cases h; exact .inl ⟨rfl, by simp⟩
  rename_i j hf
  have hk : job.Keeps j := let k := filterJob_keeps hf; ⟨k.id, k.finishedTS, k.schemaVersion⟩
  split at h
  · cases h; exact .inr ⟨j, hk, hc.1, hc.2, rfl, .inl ⟨rfl, _, rfl⟩⟩
  · cases h
    refine .inr ⟨j, hk, hc.1, hc.2, rfl, .inr ⟨hk.finishedTS, fun b j' h' => ?_⟩⟩
    cases hchk : checkIneligibleTableDDL c _ _ j <;> rw [hchk] at h' <;> cases h'
    rfl

/-- `unmarshalDDL` reads the table of jobs at most, and only a put entry yields a job, which
`ParseDDLJob` returned for it. -/
theorem unmarshalDDL_spec {e : RawKVEntry} {r : Except DDLError (Option Job)}
    (h : p.unmarshalDDL c e = (p', r)) :
    p'.resolvedTs = p.resolvedTs ∧ p'.calls = p.calls ∧
    ∀ job, r = .ok (some job) → e.OpType = .put ∧ ∃ t col, c.ParseDDLJob t e col = .ok (some job) := by
  unfold unmarshalDDL at h
  split at h
  · cases h; simp
  rename_i hput
  split at h
  · split at h
    · cases h; simp
    · cases h; exact ⟨rfl, rfl, fun job hj => ⟨by simpa using hput, _, _, hj⟩⟩
  · cases h; exact ⟨rfl, rfl, fun job hj => ⟨by simpa using hput, _, _, hj⟩⟩

theorem onResolved_resolvedTs (ts : Nat) : (p.onResolved c ts).resolvedTs = max p.resolvedTs ts := by
  unfold onResolved
  dsimp only
  split <;> simp only <;> omega

theorem onResolved_calls (ts : Nat) :
    (p.onResolved c ts).calls = p.calls ++ [.advanceResolvedTs ts] := by
  unfold onResolved
  dsimp only
  split <;> rfl

/-- **What `handleRawKVEntry` can do**, after the resolved branch (`p₀`): send the entry with
no job, send nothing, or fail, leaving the puller at `p₀` but for the table of jobs; or hand a
job that `ParseDDLJob` returned for the put entry to `handleJob`, which applies it (the call
of the storage is `j`) and sends it, skips it, or fails. -/
theorem handleRawKVEntry_spec {e : RawKVEntry} {r : Except DDLError (Option DDLJobEntry)}
    {p₀ : DDLJobPuller σ} (h₀ : p₀ = if e.OpType = .resolved then p.onResolved c e.CRTs else p)
    (h : p.handleRawKVEntry c e = (p', r)) :
    (p'.resolvedTs = p₀.resolvedTs ∧ p'.calls = p₀.calls ∧
      ∀ out, r = .ok out → out = none ∨ out = some ⟨none, e.OpType, e.CRTs⟩) ∨
    ∃ job j, e.OpType = .put ∧ (∃ t col, c.ParseDDLJob t e col = .ok (some job)) ∧ job.Keeps j ∧
      p₀.resolvedTs < job.BinlogInfo.FinishedTS ∧ job.BinlogInfo.SchemaVersion ≠ 0 ∧
      p'.calls = p₀.calls ++ [.handleDDLJob j] ∧
      ((p'.resolvedTs = p₀.resolvedTs ∧ ∃ err, r = .error err) ∨
       (p'.resolvedTs = job.BinlogInfo.FinishedTS ∧
        ∀ out, r = .ok out → out = none ∨ out = some ⟨some j, e.OpType, e.CRTs⟩)) := by
  unfold handleRawKVEntry at h
  dsimp only at h
  rw [← h₀] at h
  split at h
  · rename_i hu
    obtain ⟨h1, h2, -⟩ := unmarshalDDL_spec hu
    cases h; exact .inl ⟨h1, h2, by simp⟩
  · rename_i hu
    obtain ⟨h1, h2, -⟩ := unmarshalDDL_spec hu
    cases h; exact .inl ⟨h1, h2, by simp⟩
  · rename_i p₁ job hu
    obtain ⟨h1, h2, hj⟩ := unmarshalDDL_spec hu
    obtain ⟨hput, hparse⟩ := hj job rfl
    split at h <;> rename_i hh <;> cases h <;>
      rcases handleJob_spec hh with ⟨rfl, hn⟩ | ⟨j, hk, hlt, hv, hcalls, hres⟩
    -- `handleJob` failed before the storage
    · exact .inl ⟨h1, h2, by simp⟩
    · refine .inr ⟨job, j, hput, hparse, hk, h1 ▸ hlt, hv, by rw [hcalls, h2], ?_⟩
      rcases hres with ⟨hr, -⟩ | ⟨hr, -⟩
      · exact .inl ⟨hr.trans h1, _, rfl⟩
      · exact .inr ⟨hr, by simp⟩
    -- `handleJob` skipped the job
    · exact .inl ⟨h1, h2, by simp⟩
    · refine .inr ⟨job, j, hput, hparse, hk, h1 ▸ hlt, hv, by rw [hcalls, h2], ?_⟩
      rcases hres with ⟨-, _, he⟩ | ⟨hr, -⟩
      · cases he
      · exact .inr ⟨hr, by simp⟩
    -- `handleJob` returned the job to send
    · exact absurd rfl (hn _)
    · refine .inr ⟨job, j, hput, hparse, hk, h1 ▸ hlt, hv, by rw [hcalls, h2], ?_⟩
      rcases hres with ⟨-, _, he⟩ | ⟨hr, hj'⟩
      · cases he
      · refine .inr ⟨hr, fun out hout => ?_⟩
        cases hout; rw [hj' _ _ rfl]; simp

end DDLJobPuller

end Tiflow.Puller
