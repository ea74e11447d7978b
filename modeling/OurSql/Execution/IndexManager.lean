import OurSql.Catalog.Records
import OurSql.Data.RowCodec
import OurSql.Index.Page
import OurSql.Expression.Evaluate
import OurSql.Storage.SlottedPage

/-! `IndexManager`: the trees of the indexes, kept beside the rows of their tables. A
table is the list of its rows in scan order, a tree the list of its pairs in key
order. -/
namespace OurSql
namespace Execution

open Data Index Expression
open Catalog (IndexMetadata)

/-- A call returns a value, an error, or leaves with an exception: `AsInt` throws on a value
that is no INT. -/
inductive Outcome (α : Type)
  | ok (a : α)
  | error (e : Failure)
  | throws
  deriving DecidableEq, Repr

def Outcome.ofResult {α : Type} : Result α → Outcome α
  | .ok a => .ok a
  | .error e => .error e

/-- `Contextualize`. -/
def contextualize (layer : String) (e : Failure) : Failure := ⟨e.code,layer ++ ": " ++ e.message⟩

/-! ### Rows and trees -/

structure Table where
  schema : Schema
  rows : List (RID × Row)
  deriving DecidableEq, Repr

/-- The room a heap has found for a row: its RID and its place in the scan. -/
structure Place where
  rid : RID
  position : ℕ
  deriving DecidableEq, Repr

namespace Table

def rids (t : Table) : List RID := t.rows.map Prod.fst

/-- A RID that is not live: the proposed one, unless it is taken. -/
def freeRid (t : Table) (wanted : RID) : RID :=
  if wanted ∈ t.rids then ⟨(t.rids.map RID.pageId).foldr max 0 + 1,0⟩ else wanted

/-- `HeapTable::InsertRow`. -/
def insertRow (t : Table) (place : Place) (row : Row) : Result (RID × Table) :=
  match RowCodec.encode t.schema row with
  | .error e => .error e
  | .ok record =>
    if Storage.SlottedPage.kMaxRecordSize < record.length then
      fail .recordTooLarge ("HeapTable 单行超过页面上限: " ++
        toString Storage.SlottedPage.kMaxRecordSize)
    else
      let rid := t.freeRid place.rid
      .ok (rid,{ t with rows := t.rows.insertIdx (min place.position t.rows.length) (rid,row) })

/-- `HeapTable::GetRow`. -/
def getRow (t : Table) (rid : RID) : Result Row :=
  match t.rows.lookup rid with
  | none => fail .notFound ("slot_id 不存在: " ++ toString rid.slotId)
  | some row => .ok row

/-- `HeapTable::DeleteRow`. -/
def deleteRow (t : Table) (rid : RID) : Result Table :=
  if rid ∈ t.rids then .ok { t with rows := t.rows.eraseP fun e => e.1 = rid }
  else fail .notFound ("slot_id 不存在: " ++ toString rid.slotId)

end Table

/-- `BPlusTree`. -/
abbrev Tree := List Entry

namespace Tree

def insert (tree : Tree) (key : Key) (rid : RID) : Result Tree :=
  if (key,rid) ∈ tree then fail .alreadyExists "B+树中已存在相同的Key/RID"
  else .ok (tree.orderedInsert entryLe (key,rid))

def remove (tree : Tree) (key : Key) (rid : RID) : Result Tree :=
  if (key,rid) ∈ tree then .ok (tree.erase (key,rid))
  else fail .notFound "B+树未找到指定的Key/RID"

def getValue (tree : Tree) (key : Key) : List RID :=
  (tree.filter fun e => e.1 = key).map Prod.snd

end Tree

/-- Tables and indexes of the catalog, these in the order of their names; the tree of an index
is what its root page leads to. `failed` is the mark of the transaction. -/
structure Database where
  tables : String → Option Table
  indexes : List IndexMetadata
  trees : String → Tree
  failed : Bool

namespace Database

def setTable (db : Database) (name : String) (t : Table) : Database :=
  { db with tables := Function.update db.tables name (some t) }

/-- A change of the tree, and `PersistRootIfChanged`. -/
def setTree (db : Database) (name : String) (tree : Tree) : Database :=
  { db with trees := Function.update db.trees name tree }

/-- `MarkTransactionFailed`. -/
def mark (transaction : Bool) (db : Database) : Database :=
  { db with failed := db.failed || transaction }

def findIndex (db : Database) (name : String) : Result IndexMetadata :=
  match db.indexes.find? fun i => i.name = name with
  | some i => .ok i
  | none => fail .notFound ("Catalog 未找到索引: " ++ name)

def listTableIndexes (db : Database) (table : String) : List IndexMetadata :=
  db.indexes.filter fun i => i.tableName = table

end Database

/-! ### Entries of one index -/

variable (transaction : Bool)

def lookup (db : Database) (name : String) (key : Key) : Result (List RID) :=
  match db.findIndex name with
  | .error e => .error e
  | .ok _ => .ok ((db.trees name).getValue key)

def duplicateKey : Failure := ⟨.alreadyExists,"唯一索引Key已存在"⟩

def insertEntry (name : String) (key : Key) (rid : RID) (db : Database) : Status × Database :=
  match db.findIndex name with
  | .error e => (.error e,db.mark transaction)
  | .ok metadata =>
    if metadata.isUnique ∧ (db.trees name).getValue key ≠ [] then
      (.error duplicateKey,db.mark transaction)
    else match (db.trees name).insert key rid with
      | .error e => (.error e,db.mark transaction)
      | .ok tree => (.ok (),db.setTree name tree)

def deleteEntry (name : String) (key : Key) (rid : RID) (db : Database) : Status × Database :=
  match db.findIndex name with
  | .error e => (.error e,db.mark transaction)
  | .ok _ =>
    match (db.trees name).remove key rid with
    | .error e => (.error e,db.mark transaction)
    | .ok tree => (.ok (),db.setTree name tree)

def updateEntry (name : String) (oldKey : Key) (oldRid : RID) (newKey : Key) (newRid : RID)
    (db : Database) : Status × Database :=
  if oldKey = newKey ∧ oldRid = newRid then (.ok (),db)
  else match db.findIndex name with
    | .error e => (.error e,db.mark transaction)
    | .ok metadata =>
      if metadata.isUnique ∧ ((db.trees name).getValue newKey).any (· ≠ oldRid) then
        (.error duplicateKey,db.mark transaction)
      else match (db.trees name).remove oldKey oldRid with
        | .error e => (.error e,db.mark transaction)
        | .ok removed =>
          match removed.insert newKey newRid with
          | .ok tree => (.ok (),db.setTree name tree)
          | .error e =>
            -- without a transaction the old entry goes back in, if it can
            let tree := if transaction then removed else
              match removed.insert oldKey oldRid with
              | .ok tree => tree
              | .error _ => removed
            (.error e,(db.setTree name tree).mark transaction)

/-! ### Entries of all indexes of a table -/

/-- `IndexedColumn`. -/
def indexedColumn (db : Database) (metadata : IndexMetadata) : Result ℕ :=
  match db.tables metadata.tableName with
  | none => fail .notFound ("Catalog 未找到表: " ++ metadata.tableName)
  | some t =>
    match findColumnIndex t.schema metadata.columnName with
    | none => fail .notFound ("Schema 未找到列: " ++ metadata.columnName)
    | some column =>
      if (t.schema.getD column ⟨"",.null,none,true⟩).type ≠ .int then
        fail .typeMismatch "当前B+树索引仅支持INT列"
      else .ok column

/-- `AsInt`. -/
def asInt (row : Row) (column : ℕ) : Option Key :=
  match row[column]? with
  | some (.int n) => some n.toInt
  | _ => none

def shortRow : Failure := ⟨.invalidArgument,"索引维护行列数不足"⟩

/-- The keys of one index in some rows, each long enough. -/
def keysOf (db : Database) (metadata : IndexMetadata) (rows : List Row) : Outcome (List Key) :=
  match indexedColumn db metadata with
  | .error e => .error e
  | .ok column =>
    if rows.any fun row => row.length ≤ column then .error shortRow
    else match rows.mapM fun row => asInt row column with
      | none => .throws
      | some keys => .ok keys

/-- The first loop of `OnInsert`, `OnDelete` and `OnUpdate`: the keys of every index, and the
check of a unique one. -/
def prepare (db : Database) (rows : List Row) (clash : IndexMetadata → List Key → Bool) :
    List IndexMetadata → Outcome (List (String × List Key))
  | [] => .ok []
  | metadata::rest =>
    match keysOf db metadata rows with
    | .error e => .error e
    | .throws => .throws
    | .ok keys =>
      if clash metadata keys then .error duplicateKey
      else match prepare db rows clash rest with
        | .ok prepared => .ok ((metadata.name,keys)::prepared)
        | .error e => .error e
        | .throws => .throws

/-- The second loop: what has been applied is undone when there is no transaction to do it. -/
def applyAll {β : Type} (apply undo : β → Database → Status × Database) :
    List β → List β → Database → Status × Database
  | _, [], db => (.ok (),db)
  | done, b::rest, db =>
    match apply b db with
    | (.ok (),db) => applyAll apply undo (b::done) rest db
    | (.error e,db) =>
      if transaction then (.error e,db.mark transaction)
      else (.error e,done.foldl (fun db b => (undo b db).2) db)

def maintain (rows : List Row) (clash : IndexMetadata → List Key → Bool)
    (apply undo : String × List Key → Database → Status × Database) (table : String)
    (db : Database) : Outcome Unit × Database :=
  match prepare db rows clash (db.listTableIndexes table) with
  | .error e => (.error e,db.mark transaction)
  | .throws => (.throws,db)
  | .ok prepared =>
    let (status,db) := applyAll transaction apply undo [] prepared db
    (.ofResult status,db)

def onInsert (table : String) (row : Row) (rid : RID) (db : Database) : Outcome Unit × Database :=
  maintain transaction [row]
    (fun i keys => i.isUnique ∧ keys.any fun key => (db.trees i.name).getValue key ≠ [])
    (fun p => insertEntry transaction p.1 (p.2.headD 0) rid)
    (fun p => deleteEntry false p.1 (p.2.headD 0) rid) table db

def onDelete (table : String) (row : Row) (rid : RID) (db : Database) : Outcome Unit × Database :=
  maintain transaction [row] (fun _ _ => false)
    (fun p => deleteEntry transaction p.1 (p.2.headD 0) rid)
    (fun p => insertEntry false p.1 (p.2.headD 0) rid) table db

def onUpdate (table : String) (oldRow : Row) (oldRid : RID) (newRow : Row) (newRid : RID)
    (db : Database) : Outcome Unit × Database :=
  maintain transaction [oldRow,newRow]
    (fun i keys => i.isUnique ∧ ((db.trees i.name).getValue (keys.getD 1 0)).any (· ≠ oldRid))
    (fun p => updateEntry transaction p.1 (p.2.headD 0) oldRid (p.2.getD 1 0) newRid)
    (fun p => updateEntry false p.1 (p.2.getD 1 0) newRid (p.2.headD 0) oldRid) table db

/-! ### `CreateIndex` -/

/-- The loop over the rows that are there. -/
def fillTree (isUnique : Bool) (column : ℕ) : Tree → List (RID × Row) → Outcome Tree
  | tree, [] => .ok tree
  | tree, (rid,row)::rest =>
    match asInt row column with
    | none => .throws
    | some key =>
      if isUnique ∧ tree.getValue key ≠ [] then
        .error ⟨.alreadyExists,"唯一索引列存在重复值: " ++ toString key⟩
      else match tree.insert key rid with
        | .error e => .error e
        | .ok tree => fillTree isUnique column tree rest

def createIndex (metadata : IndexMetadata) (db : Database) : Outcome Unit × Database :=
  if db.indexes.any fun i => i.name = metadata.name then
    (.error ⟨.alreadyExists,"索引已存在: " ++ metadata.name⟩,db)
  else match db.tables metadata.tableName with
    | none => (.error ⟨.notFound,"Catalog 未找到表: " ++ metadata.tableName⟩,db)
    | some t =>
      match indexedColumn db metadata with
      | .error e => (.error e,db)
      | .ok column =>
        match fillTree metadata.isUnique column [] t.rows with
        | .error e => (.error e,db)
        | .throws => (.throws,db)
        | .ok tree =>
          match Catalog.encodeIndex metadata with
          | .error e => (.error e,db)
          | .ok () => (.ok (),{ db.setTree metadata.name tree with
              indexes := db.indexes.orderedInsert (fun a b => a.name ≤ b.name) metadata })

end Execution
end OurSql
