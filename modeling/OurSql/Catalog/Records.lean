import Mathlib
import OurSql.Common

/-! Catalog metadata, the slotted pages that hold it one record a slot, and the
maps `Open` rebuilds from the page chain. Records stand for their encoded bytes:
only their lengths matter to a page. -/
namespace OurSql
namespace Catalog

inductive DataType
  | int | varchar
  deriving DecidableEq, Repr

inductive Value
  | null | int (n : ℤ) | varchar (s : String)
  deriving DecidableEq, Repr

def Value.hasType : Value → DataType → Bool
  | .null, _ => true
  | .int _, .int => true
  | .varchar _, .varchar => true
  | _, _ => false

structure Column where
  name : String
  type : DataType
  length : Option ℕ := none
  nullable : Bool := true
  primaryKey : Bool := false
  unique : Bool := false
  defaultValue : Option Value := none
  deriving DecidableEq, Repr

structure TableMetadata where
  name : String
  schema : List Column
  firstDataPageId : PageId
  deriving DecidableEq, Repr

structure IndexMetadata where
  name : String
  tableName : String
  columnName : String
  rootPageId : PageId
  isUnique : Bool
  deriving DecidableEq, Repr

inductive Record
  | table (t : TableMetadata)
  | index (i : IndexMetadata)
  deriving DecidableEq, Repr

/-- The checks `ValidateTable` makes of one column. -/
def validateColumn (c : Column) : Status :=
  if c.name = "" then fail .invalidArgument "列名不能为空"
  else if c.type = .int ∧ c.length.isSome then
    fail .invalidArgument ("INT 列不能设置长度: " ++ c.name)
  else if c.type = .varchar ∧ c.length = some 0 then
    fail .invalidArgument ("VARCHAR 长度必须大于 0: " ++ c.name)
  else if c.primaryKey ∧ (c.nullable ∨ !c.unique) then
    fail .invalidArgument ("PRIMARY KEY 必须是 NOT NULL UNIQUE: " ++ c.name)
  else match c.defaultValue with
    | none => .ok ()
    | some v =>
      if v = .null ∧ !c.nullable then
        fail .invalidArgument ("NOT NULL 列不能使用 NULL DEFAULT: " ++ c.name)
      else if !v.hasType c.type then fail .typeMismatch ("DEFAULT 类型不匹配: " ++ c.name)
      else match v, c.length with
        | .varchar s, some n =>
          if n < s.utf8ByteSize then
            fail .invalidArgument ("DEFAULT 字符串超过列长度: " ++ c.name)
          else .ok ()
        | _, _ => .ok ()

/-- `ValidateTable` walks the columns and remembers the names it has met. -/
def validateColumns (names : List String) : List Column → Status
  | [] => .ok ()
  | c::cs =>
    if c.name ≠ "" ∧ c.name ∈ names then fail .alreadyExists ("重复列名: " ++ c.name)
    else match validateColumn c with
      | .ok () => validateColumns (c.name::names) cs
      | .error e => .error e

def validateTable (t : TableMetadata) : Status :=
  if t.name = "" then fail .invalidArgument "表名不能为空"
  else if t.schema = [] then fail .invalidArgument "表结构不能为空"
  else validateColumns [] t.schema

def validateIndexShape (i : IndexMetadata) : Status :=
  if i.name = "" then fail .invalidArgument "索引名不能为空"
  else if i.tableName = "" then fail .invalidArgument "索引所属表不能为空"
  else if i.columnName = "" then fail .invalidArgument "索引列不能为空"
  else if i.rootPageId = 0 then fail .invalidArgument "索引根页面编号不能是superblock"
  else .ok ()

def defaultLength : Option Value → ℕ
  | some (.int _) => 8
  | some (.varchar s) => s.utf8ByteSize
  | _ => 0

/-- The length of what `EncodeTable` and `EncodeIndex` write. -/
def Record.size : Record → ℕ
  | .table t => 16 + t.name.utf8ByteSize +
    (t.schema.map fun c => 15 + c.name.utf8ByteSize + defaultLength c.defaultValue).sum
  | .index i => 24 + i.name.utf8ByteSize + i.tableName.utf8ByteSize + i.columnName.utf8ByteSize

def pageSize : ℕ := 4096
def headerSize : ℕ := 32
def slotSize : ℕ := 12
def maxRecordSize : ℕ := pageSize - headerSize - slotSize

/-- `EncodeTable`, as far as a caller can tell: the length check. -/
def encodeTable (t : TableMetadata) : Status :=
  if maxRecordSize < (Record.table t).size then
    fail .recordTooLarge ("Catalog 表元数据超过页面上限: " ++ toString maxRecordSize)
  else .ok ()

def encodeIndex (i : IndexMetadata) : Status :=
  match validateIndexShape i with
  | .error e => .error e
  | .ok () =>
    if maxRecordSize < (Record.index i).size then
      fail .recordTooLarge ("Catalog 索引元数据超过页面上限: " ++ toString maxRecordSize)
    else .ok ()

/-- The slot directory of a catalog page; a deleted slot stays in it. -/
abbrev Slots := List (Option Record)

namespace Slots

def records (p : Slots) : List Record := p.filterMap id

/-- Header, directory and live record bytes. -/
def used (p : Slots) : ℕ := headerSize + slotSize * p.length + (p.records.map Record.size).sum

/-- Fill the first deleted slot, or a new one at the end. -/
def place : Slots → Record → Slots
  | [], r => [some r]
  | none::p, r => some r::p
  | some x::p, r => some x::place p r

/-- `InsertRecord`; `none` is OutOfSpace. Compaction makes all free bytes contiguous. -/
def insertRecord (p : Slots) (r : Record) : Option Slots :=
  if pageSize < p.used + r.size + (if none ∈ p then 0 else slotSize) then none
  else some (p.place r)

def deleteRecord (p : Slots) (slot : ℕ) : Slots := p.set slot none

/-- The first slot whose record the caller looks for. -/
def find (p : Slots) (wanted : Record → Bool) : Option ℕ := p.findIdx? (Option.any wanted)

end Slots

def isTable (name : String) : Record → Bool
  | .table t => t.name = name
  | .index _ => false

def isIndex (name : String) : Record → Bool
  | .table _ => false
  | .index i => i.name = name

/-- The first page of the chain with a wanted record, and its slot. -/
def findRecord (wanted : Record → Bool) : List Slots → Option (ℕ × ℕ)
  | [] => none
  | p::ps =>
    match p.find wanted with
    | some slot => some (0,slot)
    | none => (findRecord wanted ps).map fun at_ => (at_.1 + 1,at_.2)

/-- `AppendCatalogRecord` walks the chain and links a new page behind the last one. -/
def appendCatalogRecord (r : Record) : List Slots → List Slots
  | [] => [[some r]]
  | p::ps =>
    match p.insertRecord r with
    | some p' => p'::ps
    | none => p::appendCatalogRecord r ps

def deleteAt (pages : List Slots) (k slot : ℕ) : List Slots :=
  pages.modify k fun p => p.deleteRecord slot

/-- The in-memory catalog: `tables_` and `indexes_` in key order. -/
structure Maps where
  tables : List TableMetadata
  indexes : List IndexMetadata
  deriving DecidableEq, Repr

namespace Maps

def empty : Maps := ⟨[],[]⟩

def findTable (c : Maps) (name : String) : Option TableMetadata :=
  c.tables.find? fun t => t.name = name

def findIndex (c : Maps) (name : String) : Option IndexMetadata :=
  c.indexes.find? fun i => i.name = name

def insertTable (c : Maps) (t : TableMetadata) : Maps :=
  { c with tables := c.tables.orderedInsert (fun x y => x.name ≤ y.name) t }

def insertIndex (c : Maps) (i : IndexMetadata) : Maps :=
  { c with indexes := c.indexes.orderedInsert (fun x y => x.name ≤ y.name) i }

def eraseTable (c : Maps) (name : String) : Maps :=
  { c with tables := c.tables.filter fun t => t.name ≠ name }

def eraseIndex (c : Maps) (name : String) : Maps :=
  { c with indexes := c.indexes.filter fun i => i.name ≠ name }

/-- `index->second.root_page_id = root_page_id`. -/
def setRoot (c : Maps) (name : String) (root : PageId) : Maps :=
  { c with indexes := c.indexes.map fun i =>
      if i.name = name then { i with rootPageId := root } else i }

end Maps

/-- `DecodeTable` rejects what the encoder never writes. -/
def decodeTable (t : TableMetadata) : Status :=
  if t.firstDataPageId = 0 ∨ t.firstDataPageId = invalidPageId then
    fail .invalidArgument "Catalog 首数据页编号非法"
  else validateTable t

/-- What `Open` does with one record: tables enter the map at once, indexes wait
until all tables are known. -/
def scanRecord (acc : Maps × List IndexMetadata) : Record → Result (Maps × List IndexMetadata)
  | .table t =>
    match decodeTable t with
    | .error e => .error e
    | .ok () =>
      if (acc.1.findTable t.name).isSome then
        fail .alreadyExists ("Catalog 出现重复表: " ++ t.name)
      else .ok (acc.1.insertTable t,acc.2)
  | .index i =>
    match validateIndexShape i with
    | .error e => .error e
    | .ok () => .ok (acc.1,acc.2 ++ [i])

def scanRecords (acc : Maps × List IndexMetadata) :
    List Record → Result (Maps × List IndexMetadata)
  | [] => .ok acc
  | r::rs =>
    match scanRecord acc r with
    | .error e => .error e
    | .ok acc => scanRecords acc rs

/-- `SlottedPage::Validate`, then the records of one page after the other. -/
def scanPages (acc : Maps × List IndexMetadata) : List Slots → Result (Maps × List IndexMetadata)
  | [] => .ok acc
  | p::ps =>
    if pageSize < p.used then fail .invalidArgument "Slotted Page 空闲区边界非法"
    else match scanRecords acc p.records with
      | .error e => .error e
      | .ok acc => scanPages acc ps

def attachIndexes (c : Maps) : List IndexMetadata → Result Maps
  | [] => .ok c
  | i::is =>
    if (c.findIndex i.name).isSome then
      fail .alreadyExists ("Catalog 出现重复索引: " ++ i.name)
    else match c.findTable i.tableName with
      | none => fail .invalidArgument ("Catalog 索引引用不存在的表: " ++ i.tableName)
      | some t =>
        if t.schema.any fun col => col.name = i.columnName then attachIndexes (c.insertIndex i) is
        else fail .invalidArgument ("Catalog 索引引用不存在的列: " ++ i.columnName)

/-- `Catalog::Open` on a chain that exists. -/
def openPages (pages : List Slots) : Result Maps :=
  match scanPages (Maps.empty,[]) pages with
  | .error e => .error e
  | .ok (c,is) => attachIndexes c is

end Catalog
end OurSql
