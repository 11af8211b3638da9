import Tiflow.Puller.Basic

/-!
# Waiting for the downstream's asynchronous DDL

The MySQL DDL sink executes a DDL only after `waitAsynExecDone` returns. On TiDB an
`ADD INDEX` goes on running in the downstream after the sink has executed it, so before the next
DDL the sink asks the downstream's `information_schema.ddl_jobs` whether an add-index job is
still running or queueing on a table of that DDL, and asks again at each tick of a five-second
ticker until no such job is left or its context is done. A failed query counts as "done": the
wait is best effort and never blocks the sink on a broken downstream.

* `checkRunningAddIndexSQL` — the query of one table; `checkRunningAddIndexSQL_inj`: it names
  the schema and the table it asks about, when neither name holds a double quote;
* `doCheck`, `checkAsyncExecDDLDone` — one check, over what the downstream answers;
  `checkAsyncExecDDLDone_iff`: the check passes when every table passes, in any order of the map;
* `waitLoop`, `waitAsynExecDone` — the wait, over a sequence of events (the ticker firing with
  the answers of its check, or the context being done).
-/

namespace Tiflow.Sink

/-- `model.TableName`. `waitAsynExecDone` uses it as a map key, so all four fields count. -/
structure TableName where
  Schema : String
  Table : String
  TableID : Int
  IsPartition : Bool
  deriving DecidableEq, Repr

/-- `model.TableInfo`, of which the wait reads only the name. -/
structure TableInfo where
  TableName : TableName
  deriving DecidableEq, Repr

/-- `model.DDLEvent`: its type and its two table infos, pointers that may be nil. -/
structure DDLEvent where
  «Type» : Puller.ActionType
  TableInfo : Option TableInfo
  PreTableInfo : Option Sink.TableInfo
  deriving DecidableEq, Repr

/-- `timodel.ActionCreateSchema`, code 1 of `timodel.ActionType`. -/
def actionCreateSchema : Puller.ActionType := .other 1

/-- The configuration of the sink; the wait reads `IsTiDB` only. -/
structure Config where
  IsTiDB : Bool
  deriving DecidableEq, Repr

/-- `DDLSink`, with its configuration. Its connection is modelled by what the downstream
answers each query (`CheckAnswer`); its changefeed ID is only logged. -/
structure DDLSink where
  cfg : Config
  deriving DecidableEq, Repr

/-! ### The query of one table -/

/-- `fmt.Sprintf(checkRunningAddIndexSQL, schema, table)`. -/
def checkRunningAddIndexSQL (schema table : String) : String :=
  "\nSELECT JOB_ID, JOB_TYPE, SCHEMA_STATE, SCHEMA_ID, TABLE_ID, STATE, QUERY\nFROM information_schema.ddl_jobs\nWHERE DB_NAME = \"" ++
    schema ++ "\"\n    AND TABLE_NAME = \"" ++ table ++
    "\"\n    AND JOB_TYPE LIKE \"add index%\"\n    AND (STATE = \"running\" OR STATE = \"queueing\");\n"

/-- Two lists that meet a common delimiter `c` right after their first parts, parts that do not
hold `c`, have equal first parts. -/
theorem append_eq_append_of_head {α : Type} {c : α} {a b x y : List α} (ha : c ∉ a) (hb : c ∉ b)
    (h : a ++ x = b ++ y) (hx : x.head? = some c) (hy : y.head? = some c) : a = b ∧ x = y := by
  induction a generalizing b with
  | nil =>
    cases b with
    | nil => exact ⟨rfl, h⟩
    | cons d b =>
      rw [List.nil_append] at h
      rw [h, List.cons_append, List.head?_cons, Option.some.injEq] at hx
      exact absurd (hx ▸ List.mem_cons_self d b) hb
  | cons d a ih =>
    cases b with
    | nil =>
      rw [List.nil_append] at h
      rw [← h, List.cons_append, List.head?_cons, Option.some.injEq] at hy
      exact absurd (hy ▸ List.mem_cons_self d a) ha
    | cons e b =>
      simp only [List.cons_append, List.cons.injEq] at h
      obtain ⟨rfl, h⟩ := h
      obtain ⟨rfl, rfl⟩ := ih (List.not_mem_of_not_mem_cons ha) (List.not_mem_of_not_mem_cons hb) h
      exact ⟨rfl, rfl⟩

/-- **The query names the table it asks about**: when no name holds a double quote, two tables
get the same query exactly when their schemas and their names agree. -/
theorem checkRunningAddIndexSQL_inj {schema table schema' table' : String}
    (hs : '"' ∉ schema.data) (hs' : '"' ∉ schema'.data) (ht : '"' ∉ table.data)
    (ht' : '"' ∉ table'.data) :
    checkRunningAddIndexSQL schema table = checkRunningAddIndexSQL schema' table' ↔
      schema = schema' ∧ table = table' := by
  refine ⟨fun h => ?_, fun ⟨hs, ht⟩ => hs ▸ ht ▸ rfl⟩
  have h := congrArg String.data h
  simp only [checkRunningAddIndexSQL, String.data_append, List.append_assoc,
    List.append_cancel_left_eq] at h
  obtain ⟨h₁, h₂⟩ := append_eq_append_of_head hs hs' h rfl rfl
  obtain ⟨h₃, -⟩ := append_eq_append_of_head ht ht' (List.append_cancel_left h₂) rfl rfl
  exact ⟨String.ext h₁, String.ext h₃⟩

theorem checkRunningAddIndexSQL_inj_names :
    checkRunningAddIndexSQL "db" "t" = checkRunningAddIndexSQL "db" "u" ↔ "db" = "db" ∧ "t" = "u" :=
  checkRunningAddIndexSQL_inj (by decide) (by decide) (by decide) (by decide)

/-- Without the condition two tables may share a query: a schema whose name ends in the text
between the two names of the query. -/
theorem checkRunningAddIndexSQL_collides :
    checkRunningAddIndexSQL "a\"\n    AND TABLE_NAME = \"b" "c" =
      checkRunningAddIndexSQL "a" "b\"\n    AND TABLE_NAME = \"c" := by
  simp only [checkRunningAddIndexSQL, String.append_assoc]; rfl

/-! ### One check -/

/-- A row of `GetSpecifiedColumnValuesAndClose(rows, "JOB_ID", "JOB_TYPE", "SCHEMA_STATE",
"STATE")`, which has one value for each column asked. -/
structure JobRow where
  JobID : String
  JobType : String
  SchemaState : String
  State : String
  deriving DecidableEq, Repr

/-- What the downstream answers to one query: `QueryContext` fails (its context ends after five
seconds), reading the rows fails, or the rows of the add-index jobs that are running or
queueing on the table. -/
inductive CheckAnswer where
  | queryFailed
  | readFailed
  | rows (rets : List JobRow)
  deriving DecidableEq, Repr

/-- What the downstream answers, query by query, during one check. -/
def Downstream := String → CheckAnswer

namespace DDLSink

variable (m : DDLSink)

/-- `needWaitAsyncExecDone`. -/
def needWaitAsyncExecDone (t : Puller.ActionType) : Bool :=
  if !m.cfg.IsTiDB then false else
  match t with
  | .createTable | .createTables => false
  | .other 1 => false
  | _ => true

/-- `doCheck`: a table is clear unless the downstream reports an add-index job on it; a failed
query or read counts as clear. -/
def doCheck (db : Downstream) (table : TableName) : Bool :=
  match db (checkRunningAddIndexSQL table.Schema table.Table) with
  | .queryFailed => true
  | .readFailed => true
  | .rows [] => true
  | .rows (_ :: _) => false

/-- `checkAsyncExecDDLDone`: the loop over the map `tables`, which returns at the first table
that is not clear. -/
def checkAsyncExecDDLDone (db : Downstream) : List TableName → Bool
  | [] => true
  | table :: rest => if !doCheck db table then false else checkAsyncExecDDLDone db rest

/-- **A check passes exactly when every table is clear**, so the iteration order of the map does
not matter. -/
theorem checkAsyncExecDDLDone_iff (db : Downstream) (tables : List TableName) :
    checkAsyncExecDDLDone db tables = true ↔ ∀ t ∈ tables, doCheck db t = true := by
  induction tables with
  | nil => simp [checkAsyncExecDDLDone]
  | cons t rest ih => cases h : doCheck db t <;> simp [checkAsyncExecDDLDone, h, ih]

theorem checkAsyncExecDDLDone_perm (db : Downstream) {tables tables' : List TableName}
    (hp : tables.Perm tables') :
    checkAsyncExecDDLDone db tables = checkAsyncExecDDLDone db tables' :=
  Bool.eq_iff_iff.2 (by simp only [checkAsyncExecDDLDone_iff, hp.mem_iff])

end DDLSink

/-! ### The wait -/

/-- The keys of the map `tables` of `waitAsynExecDone`: the name of `TableInfo` and that of
`PreTableInfo`, those that are not nil, once each. -/
def waitTables (ddl : DDLEvent) : List TableName :=
  let tables := (ddl.TableInfo.map TableInfo.TableName).toList
  match ddl.PreTableInfo with
  | some pre => tables.insert pre.TableName
  | none => tables

/-- What the `select` of the ticker loop receives: the context is done, or the ticker fires and
the check it runs gets the answers of `db`. -/
inductive WaitEvent where
  | ctxDone
  | tick (db : Downstream)

/-- The ticker loop of `waitAsynExecDone`: the number of events it takes before it returns,
`none` while it still waits after the last one. -/
def waitLoop (tables : List TableName) : List WaitEvent → Option Nat
  | [] => none
  | .ctxDone :: _ => some 1
  | .tick db :: rest =>
    if DDLSink.checkAsyncExecDDLDone db tables then some 1 else (waitLoop tables rest).map (· + 1)

namespace DDLSink

variable (m : DDLSink)

/-- `waitAsynExecDone`: the number of events it takes before it returns, `0` when it returns
before its ticker loop; `db` answers the check it makes before the loop. -/
def waitAsynExecDone (ddl : DDLEvent) (db : Downstream) (events : List WaitEvent) : Option Nat :=
  if !m.needWaitAsyncExecDone ddl.«Type» then some 0 else
  let tables := waitTables ddl
  if tables.length = 0 || checkAsyncExecDDLDone db tables then some 0 else
  waitLoop tables events

end DDLSink

end Tiflow.Sink
