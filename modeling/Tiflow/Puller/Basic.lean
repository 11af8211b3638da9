import Mathlib.Data.List.Basic

/-!
# The DDL puller: raw entries, jobs and the collaborators of the job puller

`ddl_puller.go` has two halves. `ddlJobPullerImpl` turns the raw entries of the DDL spans,
which its sorter outputs in commit order, into DDL jobs: it applies each job it keeps to the
schema storage and sends it on its output channel, and it sends every resolved entry on. The
owner's `ddlPullerImpl` consumes that channel into a queue of pending jobs and a resolved ts,
which `PopFrontDDL` and `ResolvedTs` report.

* `RawKVEntry`, `Job`, `DDLJobEntry` — the records of `model` and `timodel` that the puller
  reads, with the fields it reads;
* `DDLError` — the errors the puller returns, with the arguments the source gives them;
* `Snapshot`, `SchemaStorage σ`, `Collaborators σ` — what the job puller calls: the schema
  storage as a machine over any state `σ`, the filter, and the parsers of `entry`, `ddl` and
  `timodel`, so that every theorem holds for every behaviour of them.
-/

namespace Tiflow.Puller

/-- `model.OpType` of the entries the sorter outputs. -/
inductive OpType where
  | put
  | delete
  | resolved
  deriving DecidableEq, Repr

/-- `model.RawKVEntry`; `Key` and `Value` are read only by the parsers of `entry`. -/
structure RawKVEntry where
  OpType : OpType
  Key : String := ""
  Value : String := ""
  CRTs : Nat
  deriving DecidableEq, Repr

/-- The `timodel.ActionType`s the job puller tells apart. -/
inductive ActionType where
  | renameTables
  | createTables
  | renameTable
  | createTable
  | other (code : Nat)
  deriving DecidableEq, Repr

/-- `timodel.TableInfo`: its ID and its name `Name.O`. -/
structure TableInfo where
  ID : Int
  Name : String
  deriving DecidableEq, Repr

/-- `timodel.RenameTableArgs`, the arguments of one table of a rename-tables job. -/
structure RenameTableArgs where
  OldSchemaID : Int
  NewSchemaID : Int
  TableID : Int
  NewTableName : String
  OldSchemaName : String
  OldTableName : String
  deriving DecidableEq, Repr

/-- `timodel.RenameTablesArgs`. -/
structure RenameTablesArgs where
  RenameTableInfos : List RenameTableArgs
  deriving DecidableEq, Repr

/-- `timodel.HistoryInfo`, the `BinlogInfo` of a job; `TableInfo` is a pointer that may be
nil. -/
structure HistoryInfo where
  SchemaVersion : Int
  FinishedTS : Nat
  MultipleTableInfos : List TableInfo := []
  TableInfo : Option TableInfo := none
  deriving DecidableEq, Repr

/-- `timodel.Job`; `RawArgs` are the encoded arguments, which `timodel` decodes. -/
structure Job where
  ID : Int
  «Type» : ActionType
  SchemaID : Int := 0
  TableID : Int := 0
  SchemaName : String := ""
  TableName : String := ""
  Query : String := ""
  StartTS : Nat := 0
  RawArgs : String := ""
  BinlogInfo : HistoryInfo
  deriving DecidableEq, Repr

/-- `model.DDLJobEntry`, what the job puller sends on its output channel. -/
structure DDLJobEntry where
  Job : Option Job
  OpType : OpType
  CRTs : Nat
  deriving DecidableEq, Repr

/-- The errors of the job puller. A collaborator's own error is `external`; a nil
`BinlogInfo.TableInfo` that the code dereferences ends the goroutine too, as a panic. -/
inductive DDLError where
  | external (msg : String)
  /-- `cerror.WrapError(ErrHandleDDLFailed, err, job.Query, job.StartTS, job.StartTS)` -/
  | handleDDLFailed (err : DDLError) (query : String) (startTs startTs' : Nat)
  | tidbUnexpectedJobMeta
  | syncRenameTableFailed (tableID : Int) (query : String)
  | invalidDDLJob (jobID : Int)
  /-- "An eligible table become ineligible after DDL: [query] ..." -/
  | eligibleTableBecomeIneligible (query : String)
  | nilTableInfo
  deriving DecidableEq, Repr

/-- `model.TableName` of a physical table: its schema and its name. -/
structure TableName where
  Schema : String
  Table : String
  deriving DecidableEq, Repr

/-- What `PhysicalTableByID` returns: the table's `TableName`, and its `Name.O`. -/
structure PhysicalTable where
  TableName : TableName
  Name : String
  deriving DecidableEq, Repr

/-- What a snapshot of the schema storage answers. `FillSchemaName` fills the job's schema
name, or fails. -/
structure Snapshot where
  FillSchemaName : Job → Except DDLError String
  PhysicalTableByID : Int → Option PhysicalTable
  SchemaByID : Int → Option String
  IsIneligibleTableID : Int → Bool

/-- `entry.SchemaStorage`, as a machine over its state `σ`. -/
structure SchemaStorage (σ : Type) where
  GetLastSnapshot : σ → Snapshot
  HandleDDLJob : σ → Job → Except DDLError σ
  AdvanceResolvedTs : σ → Nat → σ

/-- A call the job puller makes on the schema storage. -/
inductive StorageCall where
  | advanceResolvedTs (ts : Nat)
  | handleDDLJob (job : Job)
  deriving DecidableEq, Repr

/-- The timestamp a call hands to the storage: the resolved ts, or the job's `FinishedTS`. -/
def StorageCall.ts : StorageCall → Nat
  | .advanceResolvedTs ts => ts
  | .handleDDLJob job => job.BinlogInfo.FinishedTS

/-- What the job puller calls, besides the state of its schema storage: the storage itself,
`filter.ShouldDiscardDDL`, `filter.IsSchemaDDL`, and the functions of `entry`, `ddl` and
`timodel` that parse and encode (`initJobTableMeta` reads the current schema of the upstream). -/
structure Collaborators (σ : Type) where
  schemaStorage : SchemaStorage σ
  ShouldDiscardDDL : ActionType → String → String → Bool
  IsSchemaDDL : ActionType → Bool
  IsLegacyFormatJob : RawKVEntry → Bool
  initJobTableMeta : Except DDLError (TableInfo × Int)
  ParseDDLJob : Option TableInfo → RawKVEntry → Int → Except DDLError (Option Job)
  SplitQueries : String → Except DDLError (List String)
  GetRenameTablesArgs : Job → Except DDLError RenameTablesArgs
  GetNewJobWithArgs : Job → RenameTablesArgs → Except DDLError Job

end Tiflow.Puller
