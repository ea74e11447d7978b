import OurSql.Execution.IndexManager
import OurSql.Expression.Update

/-! The executors of INSERT, DELETE and UPDATE: the rows of the table and the entries of
all its indexes, one row after the other. -/
namespace OurSql
namespace Execution

open Data Index Expression
open Catalog (IndexMetadata)

inductive PredicateKind
  | equal | isNull | isNotNull
  deriving DecidableEq, Repr

structure Predicate where
  kind : PredicateKind := .equal
  column : String
  value : Value
  deriving DecidableEq, Repr

variable {Query : Type} (transaction : Bool)

/-- `RequireMetadata`. -/
def requireMetadata (db : Database) (table : String) : Result Table :=
  match db.tables table with
  | some t => .ok t
  | none => fail .notFound ("Catalog 未找到表: " ++ table)

/-- Errors that a statement reports under its own name. -/
def Outcome.within {α β : Type} (layer : String) (o : Outcome α) : Outcome β :=
  match o with
  | .error e => .error (contextualize layer e)
  | _ => .throws

def schemaColumn (schema : Schema) (name : String) : Result ℕ :=
  match findColumnIndex schema name with
  | some column => .ok column
  | none => fail .notFound ("Schema 未找到列: " ++ name)

/-! ### INSERT -/

/-- `DeleteRow` of the rollbacks, whose status nobody reads. -/
def discardRow (table : String) (rid : RID) (db : Database) : Database :=
  match db.tables table with
  | none => db
  | some t =>
    match t.deleteRow rid with
    | .ok t => db.setTable table t
    | .error _ => db

/-- `rollback_direct`: the rows inserted so far, the last one first. -/
def rollbackDirect (table : String) (done : List (RID × Row)) (db : Database) : Database :=
  if transaction then db
  else done.foldl (fun db e => discardRow table e.1 (onDelete false table e.2 e.1 db).2) db

/-- The loop over the rows, `done` in reverse. -/
def insertRows (table : String) : List (RID × Row) → List (Place × Row) → Database →
    Outcome (List RID) × Database
  | done, [], db => (.ok (done.reverse.map Prod.fst),db)
  | done, (place,row)::rest, db =>
    match db.tables table with
    | none => (.throws,db)
    | some t =>
      match t.insertRow place row with
      | .error e => (.error (contextualize "InsertExecutor" e),
          rollbackDirect transaction table done (db.mark transaction))
      | .ok (rid,t) =>
        match onInsert transaction table row rid (db.setTable table t) with
        | (.ok (),db) => insertRows table ((rid,row)::done) rest db
        | (.throws,db) => (.throws,db)
        | (.error e,db) =>
          let db := if transaction then db.mark transaction else discardRow table rid db
          (.error (contextualize "InsertExecutor" e),rollbackDirect transaction table done db)

/-- `InsertExecutor::Execute`. -/
def insert (table : String) (rows : List (Place × Row)) (db : Database) :
    Outcome (List RID) × Database :=
  match requireMetadata db table with
  | .error e => (.error (contextualize "InsertExecutor" e),db)
  | .ok _ => insertRows transaction table [] rows db

/-! ### DELETE -/

/-- `delete_entry` on a row that matches. -/
def deleteEntryOf (table : String) (rid : RID) (row : Row) (db : Database) :
    Outcome Unit × Database :=
  match onDelete transaction table row rid db with
  | (.ok (),db) =>
    match db.tables table with
    | none => (.throws,db)
    | some t =>
      match t.deleteRow rid with
      | .ok t => (.ok (),db.setTable table t)
      | .error e => (.error (contextualize "DeleteExecutor" e),
          if transaction then db.mark transaction else (onInsert false table row rid db).2)
  | (o,db) => (o.within "DeleteExecutor",db)

def matchesWhere (column : Option ℕ) (value : Value) (row : Row) : Bool :=
  column.all fun c => row.getD c .null = value

/-- The loop over the scan. Its cursor may fail at any row, `cursor` counting those that are
left: the page it stands on can leave the chain with a deleted row. -/
def deleteRows (table : String) (column : Option ℕ) (value : Value)
    (cursor : ℕ → Option Failure) :
    List RID → List (RID × Row) → Database → Outcome (List RID) × Database
  | deleted, rest, db =>
    match cursor rest.length with
    | some e => (.error (contextualize "DeleteExecutor" e),db)
    | none =>
      match rest with
      | [] => (.ok deleted.reverse,db)
      | (rid,row)::rest =>
        if matchesWhere column value row then
          match deleteEntryOf transaction table rid row db with
          | (.ok (),db) => deleteRows table column value cursor (rid::deleted) rest db
          | (.error e,db) => (.error e,db)
          | (.throws,db) => (.throws,db)
        else deleteRows table column value cursor deleted rest db

/-- The loop over the RIDs that the index has offered, each row read again. -/
def deleteLookup (table : String) (column : Option ℕ) (value : Value) :
    List RID → List RID → Database → Outcome (List RID) × Database
  | deleted, [], db => (.ok deleted.reverse,db)
  | deleted, rid::rest, db =>
    match db.tables table with
    | none => (.throws,db)
    | some t =>
      match t.getRow rid with
      | .error e => (.error (contextualize "DeleteExecutor" e),db)
      | .ok row =>
        if matchesWhere column value row then
          match deleteEntryOf transaction table rid row db with
          | (.ok (),db) => deleteLookup table column value (rid::deleted) rest db
          | (.error e,db) => (.error e,db)
          | (.throws,db) => (.throws,db)
        else deleteLookup table column value deleted rest db

/-- The index that DELETE looks its rows up in. -/
def lookupIndex (db : Database) (table : String) (p : Predicate) : Option (IndexMetadata × Key) :=
  match p.kind, p.value with
  | .equal, .int n => (db.listTableIndexes table).find? (fun i => i.columnName = p.column) |>.map
      fun i => (i,n.toInt)
  | _, _ => none

/-- `DeleteExecutor::Execute`. -/
def delete (table : String) (where_ : Option Predicate) (cursor : ℕ → Option Failure)
    (db : Database) :
    Outcome (List RID) × Database :=
  match requireMetadata db table with
  | .error e => (.error (contextualize "DeleteExecutor" e),db)
  | .ok t =>
    match where_ with
    | none => deleteRows transaction table none .null cursor [] t.rows db
    | some p =>
      match schemaColumn t.schema p.column with
      | .error e => (.error (contextualize "DeleteExecutor" e),db)
      | .ok column =>
        if (t.schema.getD column ⟨"",.null,none,true⟩).type ≠ p.value.type then
          (.error ⟨.typeMismatch,"Delete WHERE 列和值类型不匹配: " ++ p.column⟩,db)
        else match lookupIndex db table p with
          | none => deleteRows transaction table (some column) p.value cursor [] t.rows db
          | some (i,key) =>
            match lookup db i.name key with
            | .error e => (.error (contextualize "DeleteExecutor" e),db)
            | .ok rids => deleteLookup transaction table (some column) p.value [] rids db

/-! ### UPDATE -/

/-- The assignments to one row, each evaluated on the row as it was. -/
def assign (schema : Schema) (original : Row) :
    List (ℕ × CompileExpr Query) → Row → Result Row
  | [], updated => .ok updated
  | (column,expression)::rest, updated =>
    match evaluateUpdateExpression schema original expression with
    | .error e => .error (contextualize "UpdateExecutor" e)
    | .ok value =>
      let c := schema.getD column ⟨"",.null,none,true⟩
      if value.type ≠ c.type then
        fail .typeMismatch ("UpdateExecutor: SET 值类型不匹配: " ++ c.name)
      else match value with
        | .varchar text =>
          if c.length.any (· < text.length) then
            fail .invalidArgument ("UpdateExecutor: SET 字符串超过列长度: " ++ c.name)
          else assign schema original rest (updated.set column value)
        | _ => assign schema original rest (updated.set column value)

structure Replacement where
  oldRid : RID
  oldRow : Row
  newRow : Row
  deriving DecidableEq, Repr

/-- The scan, before anything is changed. -/
def collect (schema : Schema) (column : Option ℕ) (value : Value)
    (assignments : List (ℕ × CompileExpr Query)) : List (RID × Row) → Result (List Replacement)
  | [] => .ok []
  | (rid,row)::rest =>
    if matchesWhere column value row then
      match assign schema row assignments row with
      | .error e => .error e
      | .ok updated => (collect schema column value assignments rest).map (⟨rid,row,updated⟩::·)
    else collect schema column value assignments rest

/-- One replacement: the new row, the entries, then the old row. -/
def replaceRow (table : String) (place : Place) (r : Replacement) (db : Database) :
    Outcome RID × Database :=
  match db.tables table with
  | none => (.throws,db)
  | some t =>
    match t.insertRow place r.newRow with
    | .error e => (.error (contextualize "UpdateExecutor" e),db)
    | .ok (newRid,t) =>
      match onUpdate transaction table r.oldRow r.oldRid r.newRow newRid (db.setTable table t) with
      | (.throws,db) => (.throws,db)
      | (.error e,db) => (.error (contextualize "UpdateExecutor" e),
          if transaction then db.mark transaction else discardRow table newRid db)
      | (.ok (),db) =>
        match db.tables table with
        | none => (.throws,db)
        | some t =>
          match t.deleteRow r.oldRid with
          | .ok t => (.ok newRid,db.setTable table t)
          | .error e => (.error (contextualize "UpdateExecutor" e),
              if transaction then db.mark transaction
              else discardRow table newRid
                (onUpdate false table r.newRow newRid r.oldRow r.oldRid db).2)

def replaceRows (table : String) (places : ℕ → Place) :
    List RID → List Replacement → Database → Outcome (List RID) × Database
  | replaced, [], db => (.ok replaced.reverse,db)
  | replaced, r::rest, db =>
    match replaceRow transaction table (places rest.length) r db with
    | (.ok rid,db) => replaceRows table places (rid::replaced) rest db
    | (.error e,db) => (.error e,db)
    | (.throws,db) => (.throws,db)

def assignmentColumns (schema : Schema) :
    List (String × CompileExpr Query) → Result (List (ℕ × CompileExpr Query))
  | [] => .ok []
  | (name,expression)::rest =>
    match schemaColumn schema name with
    | .error e => .error (contextualize "UpdateExecutor" e)
    | .ok column => (assignmentColumns schema rest).map ((column,expression)::·)

/-- `UpdateExecutor::Execute`; `places` are the rooms that the heap finds for the new rows. -/
def update (table : String) (assignments : List (String × CompileExpr Query))
    (where_ : Option Predicate) (places : ℕ → Place) (db : Database) :
    Outcome (List RID) × Database :=
  match requireMetadata db table with
  | .error e => (.error (contextualize "UpdateExecutor" e),db)
  | .ok t =>
    match assignmentColumns t.schema assignments with
    | .error e => (.error e,db)
    | .ok assignments =>
      match where_.mapM fun p => schemaColumn t.schema p.column with
      | .error e => (.error (contextualize "UpdateExecutor" e),db)
      | .ok column =>
        match collect t.schema column ((where_.map Predicate.value).getD .null) assignments
            t.rows with
        | .error e => (.error e,db)
        | .ok replacements => replaceRows transaction table places [] replacements db

end Execution
end OurSql
