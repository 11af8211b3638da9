import Tiflow.Puller.Basic

/-!
# The table of DDL jobs

The job puller parses an entry of the new format against the upstream's table of DDL jobs,
`mysql.tidb_ddl_job`, and the ID of that table's column `job_meta`. `unmarshalDDL` reads them
once, before the first such entry, with `initJobTableMeta`: the current snapshot of the
upstream lists its schemas, then the tables of `mysql`, and `findDBByName`, `findTableByName`
and `findColumnByName` pick each by its lower-case name.

* `findByName` — the loop the three lookups share, each with its own list, field and text;
  `findByName_eq_find` says it is `List.find?`, with the error naming what it looked for;
* `initJobTableMeta` — over `KVStorage`, what the upstream answers; `initJobTableMeta_eq_ok`
  says when it succeeds and with what (`JobTableOf`), `initJobTableMeta_notFound` that its
  error names the first of the three it could not find.
-/

namespace Tiflow.Puller

/-- `pmodel.CIStr`: a name as written (`O`) and in lower case (`L`). -/
structure CIStr where
  O : String
  L : String
  deriving DecidableEq, Repr

namespace Timodel

/-- `timodel.ColumnInfo`: its ID and its name. -/
structure ColumnInfo where
  ID : Int
  Name : CIStr
  deriving DecidableEq, Repr

/-- `timodel.TableInfo` as the meta of the upstream lists it: its ID, its name and its
columns. -/
structure TableInfo where
  ID : Int
  Name : CIStr
  Columns : List ColumnInfo
  deriving DecidableEq, Repr

/-- `timodel.DBInfo`: its ID and its name. -/
structure DBInfo where
  ID : Int
  Name : CIStr
  deriving DecidableEq, Repr

end Timodel

/-- What the snapshot of the upstream's meta at a version lists; an error is the storage's
own. -/
structure SnapshotMeta where
  ListDatabases : Except String (List Timodel.DBInfo)
  ListTables : Int → Except String (List Timodel.TableInfo)

/-- The upstream's `tidbkv.Storage`, as `initJobTableMeta` reads it: its current version, and
`kv.GetSnapshotMeta` at a version. -/
structure KVStorage where
  CurrentVersion : Except String Nat
  GetSnapshotMeta : Nat → SnapshotMeta

/-- The errors of `initJobTableMeta`: one of the storage, traced as it is; the error of
`ListDatabases` wrapped in `ErrMetaListDatabases`; and `ErrDDLSchemaNotFound` wrapping the
text of the lookup that failed. -/
inductive MetaError where
  | external (msg : String)
  | metaListDatabases (err : String)
  | ddlSchemaNotFound (msg : String)
  deriving DecidableEq, Repr

/-! ### The lookups by name -/

/-- The loop of `findDBByName`, `findTableByName` and `findColumnByName`: the first element
whose `Name.L` is `name`, or `ErrDDLSchemaNotFound` wrapping "can't find `what` `name`". -/
def findByName {α : Type} (nameOf : α → CIStr) (what name : String) : List α → Except MetaError α
  | [] => .error (.ddlSchemaNotFound ("can\x27t find " ++ what ++ " " ++ name))
  | x :: xs => if (nameOf x).L = name then .ok x else findByName nameOf what name xs

/-- `findDBByName`. -/
def findDBByName (dbs : List Timodel.DBInfo) (name : String) : Except MetaError Timodel.DBInfo :=
  findByName Timodel.DBInfo.Name "schema" name dbs

/-- `findTableByName`. -/
def findTableByName (tbls : List Timodel.TableInfo) (name : String) :
    Except MetaError Timodel.TableInfo :=
  findByName Timodel.TableInfo.Name "table" name tbls

/-- `findColumnByName`. -/
def findColumnByName (cols : List Timodel.ColumnInfo) (name : String) :
    Except MetaError Timodel.ColumnInfo :=
  findByName Timodel.ColumnInfo.Name "column" name cols

section Lookup

variable {α : Type} (nameOf : α → CIStr) (what name : String)

/-- **The loop of the lookups is `find?`**: the first element of the name, or the error naming
what was looked for and its name. -/
theorem findByName_eq_find (xs : List α) :
    findByName nameOf what name xs = match xs.find? (fun x => (nameOf x).L == name) with
      | some x => .ok x
      | none => .error (.ddlSchemaNotFound ("can\x27t find " ++ what ++ " " ++ name)) := by
  induction xs with
  | nil => rfl
  | cons x xs ih => by_cases h : (nameOf x).L = name <;> simp [findByName, h, ih]

variable {nameOf what name}

theorem findByName_eq_ok {xs : List α} {a : α} :
    findByName nameOf what name xs = .ok a ↔ xs.find? (fun x => (nameOf x).L == name) = some a := by
  rw [findByName_eq_find]
  cases xs.find? (fun x => (nameOf x).L == name) <;> simp

theorem findByName_eq_error {xs : List α} {e : MetaError} (h : findByName nameOf what name xs = .error e) :
    e = .ddlSchemaNotFound ("can\x27t find " ++ what ++ " " ++ name) := by
  rw [findByName_eq_find] at h
  split at h <;> cases h
  rfl

end Lookup

/-! ### `initJobTableMeta` -/

/-- `mysql.SystemDB`. -/
def SystemDB : String := "mysql"

/-- `initJobTableMeta`: the table of DDL jobs of the upstream's current snapshot, as
`model.WrapTableInfo` keeps it (its ID and name), and the ID of its column `job_meta`. -/
def initJobTableMeta (kv : KVStorage) : Except MetaError (TableInfo × Int) := do
  let version ← kv.CurrentVersion.mapError .external
  let snap := kv.GetSnapshotMeta version
  let dbInfos ← snap.ListDatabases.mapError .metaListDatabases
  let db ← findDBByName dbInfos SystemDB
  let tbls ← (snap.ListTables db.ID).mapError .external
  let tableInfo ← findTableByName tbls "tidb_ddl_job"
  let col ← findColumnByName tableInfo.Columns "job_meta"
  return (⟨tableInfo.ID, tableInfo.Name.O⟩, col.ID)

/-- The table of jobs of the upstream and the ID of its column of job metas: the first table
`tidb_ddl_job` of the first schema `mysql` of the current snapshot, and its first column
`job_meta`. -/
def JobTableOf (kv : KVStorage) (t : TableInfo) (colID : Int) : Prop :=
  ∃ v dbs db tbls tbl col, kv.CurrentVersion = .ok v ∧
    (kv.GetSnapshotMeta v).ListDatabases = .ok dbs ∧
    dbs.find? (fun d => d.Name.L == SystemDB) = some db ∧
    (kv.GetSnapshotMeta v).ListTables db.ID = .ok tbls ∧
    tbls.find? (fun x => x.Name.L == "tidb_ddl_job") = some tbl ∧
    tbl.Columns.find? (fun x => x.Name.L == "job_meta") = some col ∧
    t = ⟨tbl.ID, tbl.Name.O⟩ ∧ colID = col.ID

section Except

variable {ε ε' α β : Type} {x : Except ε α} {f : α → Except ε β} {g : ε → ε'}

theorem except_bind_eq_ok {b : β} : x >>= f = .ok b ↔ ∃ a, x = .ok a ∧ f a = .ok b := by
  cases x <;> simp [bind, Except.bind]

theorem except_bind_eq_error {e : ε} : x >>= f = .error e ↔ x = .error e ∨ ∃ a, x = .ok a ∧ f a = .error e := by
  cases x <;> simp [bind, Except.bind]

theorem mapError_eq_ok {a : α} : x.mapError g = .ok a ↔ x = .ok a := by
  cases x <;> simp [Except.mapError]

theorem mapError_eq_error {e : ε'} : x.mapError g = .error e ↔ ∃ e', x = .error e' ∧ g e' = e := by
  cases x <;> simp [Except.mapError]

end Except

/-- **When `initJobTableMeta` succeeds, and with what.** -/
theorem initJobTableMeta_eq_ok {kv : KVStorage} {t : TableInfo} {colID : Int} :
    initJobTableMeta kv = .ok (t, colID) ↔ JobTableOf kv t colID := by
  simp only [initJobTableMeta, JobTableOf, except_bind_eq_ok, mapError_eq_ok, findDBByName,
    findTableByName, findColumnByName, findByName_eq_ok]
  constructor
  · rintro ⟨v, hv, dbs, hdbs, db, hdb, tbls, htbls, tbl, htbl, col, hcol, hr⟩
    cases hr
    exact ⟨v, dbs, db, tbls, tbl, col, hv, hdbs, hdb, htbls, htbl, hcol, rfl, rfl⟩
  · rintro ⟨v, dbs, db, tbls, tbl, col, hv, hdbs, hdb, htbls, htbl, hcol, rfl, rfl⟩
    exact ⟨v, hv, dbs, hdbs, db, hdb, tbls, htbls, tbl, htbl, col, hcol, rfl⟩

/-- **`initJobTableMeta` names what it could not find**: an `ErrDDLSchemaNotFound` it returns is
for the schema `mysql`, the table `tidb_ddl_job` or the column `job_meta`. -/
theorem initJobTableMeta_notFound {kv : KVStorage} {msg : String}
    (h : initJobTableMeta kv = .error (.ddlSchemaNotFound msg)) :
    msg = "can\x27t find schema mysql" ∨ msg = "can\x27t find table tidb_ddl_job" ∨
      msg = "can\x27t find column job_meta" := by
  simp only [initJobTableMeta, except_bind_eq_error, except_bind_eq_ok, mapError_eq_error,
    mapError_eq_ok] at h
  rcases h with ⟨_, -, ⟨⟩⟩ | ⟨v, -, ⟨_, -, ⟨⟩⟩ | ⟨dbs, -, h | ⟨db, -, h⟩⟩⟩
  · exact .inl (by cases findByName_eq_error h; rfl)
  rcases h with ⟨_, -, ⟨⟩⟩ | ⟨tbls, -, h | ⟨tbl, -, h | ⟨col, -, ⟨⟩⟩⟩⟩
  · exact .inr (.inl (by cases findByName_eq_error h; rfl))
  · exact .inr (.inr (by cases findByName_eq_error h; rfl))

end Tiflow.Puller
