import OurSql.Data.RowCodec
import OurSql.Lib.Chain
import OurSql.Storage.SlottedPage

/-! `HeapTable`: the rows of a table in a chain of slotted pages. A row goes to the first
page with room or to a new one at the end; a page that loses its last row leaves the
chain, the first page excepted. -/
namespace OurSql
namespace Storage.HeapTable

open Memory SlottedPage Data

/-- What a heap table needs of its metadata. -/
structure TableMetadata where
  schema : Schema
  firstDataPageId : PageId
  deriving DecidableEq, Repr

/-- A buffer pool whose disk and log do not fail: the allocated pages, and those
whose deletion has begun. -/
structure Pool where
  pages : PageId → Option Mem
  deletePending : List PageId

namespace Pool

def fetchPage (s : Pool) (id : PageId) : Result Mem :=
  if id = invalidPageId ∨ id = 0 then
    fail .invalidArgument ("缓冲池不能操作该页面编号: " ++ toString id)
  else if id ∈ s.deletePending then fail .notFound ("页面正在删除: " ++ toString id)
  else match s.pages id with
    | some data => .ok data
    | none => fail .ioError ("页面未分配: " ++ toString id)

/-- The release of a write guard. -/
def writePage (s : Pool) (id : PageId) (data : Mem) : Pool :=
  { s with pages := Function.update s.pages id (some data) }

/-- `NewPage`, for a page the disk has handed out. -/
def newPage (s : Pool) (fresh : PageId) : Pool := s.writePage fresh fun _ => 0

def beginPageDeletion (s : Pool) (id : PageId) : Status × Pool :=
  if id = invalidPageId ∨ id = 0 then
    (fail .invalidArgument ("缓冲池不能操作该页面编号: " ++ toString id),s)
  else if id ∈ s.deletePending then
    (fail .alreadyExists ("页面已经处于删除预留状态: " ++ toString id),s)
  else (.ok (),{ s with deletePending := id::s.deletePending })

def cancelPageDeletion (s : Pool) (id : PageId) : Status × Pool :=
  if id ∉ s.deletePending then (fail .notFound ("页面没有删除预留: " ++ toString id),s)
  else (.ok (),{ s with deletePending := s.deletePending.erase id })

def finalizePageDeletion (s : Pool) (id : PageId) : Status × Pool :=
  if id ∉ s.deletePending then (fail .notFound ("页面没有删除预留: " ++ toString id),s)
  else (.ok (),⟨Function.update s.pages id none,s.deletePending.erase id⟩)

/-- A transaction frees its pages when it commits: until then they stay pending. -/
def deletePage (transaction : Bool) (s : Pool) (id : PageId) : Status × Pool :=
  if transaction then
    if id ∈ s.deletePending then (.ok (),s) else s.beginPageDeletion id
  else match s.beginPageDeletion id with
    | (.error e,s) => (.error e,s)
    | (.ok (),s) => s.finalizePageDeletion id

end Pool

variable (t : TableMetadata)

/-- No walk makes more turns: a page that comes up again stops it. -/
def pageTurns : ℕ := invalidPageId + 1

def damaged {α : Type} : Result α := fail .invalidArgument "数据页链表损坏或成环"

/-! ### `InsertRow` -/

/-- `INVALID_PAGE_ID`, the default of `Initialize`. -/
def noPage : UInt32 := 4294967295

/-- The tail page has no room: a new page with the row, then the link to it. -/
def extend (next : UInt32) (transaction : Bool) (fresh : PageId) (record : List UInt8) (s : Pool)
    (tail : PageId) (data : Mem) : Result RID × Pool :=
  let s := s.newPage fresh
  match initializePage (fun _ => 0) next with
  | (_,.error e) => (.error e,(s.deletePage transaction fresh).2)
  | (page,.ok ()) =>
    match insertRecord page record with
    | (_,.error e) => (.error e,(s.deletePage transaction fresh).2)
    | (page,.ok slot) =>
      let s := s.writePage fresh page
      match setNextPageId data (UInt32.ofNat fresh) with
      | (_,.error e) => (.error e,(s.deletePage transaction fresh).2)
      | (data,.ok ()) => (.ok ⟨fresh,slot⟩,s.writePage tail data)

def insertWalk (transaction : Bool) (fresh : PageId) (record : List UInt8) (s : Pool) :
    ℕ → List PageId → PageId → Result RID × Pool
  | 0, _, _ => (damaged,s)
  | n+1, visited, current =>
    if current = 0 ∨ current = invalidPageId ∨ current ∈ visited then (damaged,s)
    else match s.fetchPage current with
      | .error e => (.error e,s)
      | .ok data =>
        match insertRecord data record with
        | (data,.ok slot) => (.ok ⟨current,slot⟩,s.writePage current data)
        | (data,.error e) =>
          let s := s.writePage current data
          if e.code ≠ .outOfSpace then (.error e,s)
          else match nextPageId data with
            | .error e => (.error e,s)
            | .ok next =>
              if next ≠ invalidPageId then
                match s.fetchPage next with
                | .error e => (.error e,s)
                | .ok _ => insertWalk transaction fresh record s n (current::visited) next
              else extend noPage transaction fresh record s current data

def insertRow (transaction : Bool) (fresh : PageId) (row : Row) (s : Pool) :
    Result RID × Pool :=
  if t.firstDataPageId = invalidPageId ∨ t.firstDataPageId = 0 then
    (fail .invalidArgument "HeapTable 缺少首数据页",s)
  else match RowCodec.encode t.schema row with
    | .error e => (.error e,s)
    | .ok record =>
      if kMaxRecordSize < record.length then
        (fail .recordTooLarge ("HeapTable 单行超过页面上限: " ++ toString kMaxRecordSize),s)
      else insertWalk transaction fresh record s pageTurns [] t.firstDataPageId

/-! ### `GetRow` -/

/-- The walk of `ValidateRidPage`. -/
def ownerWalk (s : Pool) (id : PageId) : ℕ → List PageId → PageId → Status
  | 0, _, _ => damaged
  | n+1, visited, current =>
    if current = invalidPageId then
      fail .notFound ("RID 页面不属于当前表: " ++ toString id)
    else if current = 0 ∨ current ∈ visited then damaged
    else match s.fetchPage current with
      | .error e => .error e
      | .ok data =>
        match nextPageId data with
        | .error e => .error e
        | .ok next =>
          if current = id then .ok ()
          else if next = invalidPageId then ownerWalk s id n (current::visited) next
          else match s.fetchPage next with
            | .error e => .error e
            | .ok _ => ownerWalk s id n (current::visited) next

def validateRidPage (s : Pool) (id : PageId) : Status :=
  if id = 0 ∨ id = invalidPageId then fail .notFound ("RID 页面编号非法: " ++ toString id)
  else if t.firstDataPageId = 0 ∨ t.firstDataPageId = invalidPageId then
    fail .invalidArgument "HeapTable 缺少首数据页"
  else ownerWalk s id pageTurns [] t.firstDataPageId

def getRow (s : Pool) (rid : RID) : Result Row :=
  match validateRidPage t s rid.pageId with
  | .error e => .error e
  | .ok () =>
    match s.fetchPage rid.pageId with
    | .error e => .error e
    | .ok data =>
      match getRecord data rid.slotId with
      | .error e => .error e
      | .ok record => RowCodec.decode t.schema record

/-! ### `DeleteRow` -/

/-- The walk to the page before `id`; the end of the chain stands for none. -/
def predecessorWalk (s : Pool) (id : PageId) : ℕ → List PageId → PageId → Result PageId
  | 0, _, _ => damaged
  | n+1, visited, current =>
    if current = invalidPageId ∨ current = id then .ok invalidPageId
    else if current = 0 ∨ current ∈ visited then damaged
    else match s.fetchPage current with
      | .error e => .error e
      | .ok data =>
        match nextPageId data with
        | .error e => .error e
        | .ok next =>
          if next = id then .ok current
          else if next = invalidPageId then .ok invalidPageId
          else match s.fetchPage next with
            | .error e => .error e
            | .ok _ => predecessorWalk s id n (current::visited) next

/-- The loop that looks for a record in the slots from `slot` on. -/
def anyRecord (data : Mem) : ℕ → ℕ → Result Bool
  | _, 0 => .ok false
  | slot, n+1 =>
    match getRecord data slot with
    | .ok _ => .ok true
    | .error e => if e.code ≠ .notFound then .error e else anyRecord data (slot + 1) n

/-- The end of `DeleteRow`: page `id` is empty and leaves the chain. -/
def unlink (transaction : Bool) (s : Pool) (id predecessor next : PageId) (data : Mem) :
    Status × Pool :=
  match s.beginPageDeletion id with
  | (.error e,s) => (.error e,s)
  | (.ok (),s) =>
    match setNextPageId data (UInt32.ofNat next) with
    | (_,.error e) => (.error e,(s.cancelPageDeletion id).2)
    | (data,.ok ()) =>
      let s := s.writePage predecessor data
      if transaction then
        match s.deletePage transaction id with
        | (.error e,s) => (.error e,(s.cancelPageDeletion id).2)
        | (.ok (),s) => (.ok (),s)
      else s.finalizePageDeletion id

/-- `DeleteRow` after the record is gone from a page other than the first. -/
def releasePage (transaction : Bool) (s : Pool) (id : PageId) : Status × Pool :=
  match predecessorWalk s id pageTurns [] t.firstDataPageId with
  | .error e => (.error e,s)
  | .ok predecessor =>
    if predecessor = invalidPageId then
      (fail .internalError ("已确认归属的数据页找不到前驱: " ++ toString id),s)
    else match s.fetchPage predecessor with
      | .error e => (.error e,s)
      | .ok before =>
        match nextPageId before with
        | .error e => (.error e,s)
        | .ok next =>
          if next ≠ id then (fail .invalidArgument "删除空数据页时发现链表已变化",s)
          else match s.fetchPage id with
            | .error e => (.error e,s)
            | .ok data =>
              match nextPageId data, slotCount data with
              | .error e, _ => (.error e,s)
              | .ok _, .error e => (.error e,s)
              | .ok next, .ok count =>
                match anyRecord data 0 count with
                | .error e => (.error e,s)
                | .ok true => (.ok (),s)
                | .ok false => unlink transaction s id predecessor next before

def deleteRow (transaction : Bool) (rid : RID) (s : Pool) : Status × Pool :=
  match validateRidPage t s rid.pageId with
  | .error e => (.error e,s)
  | .ok () =>
    match s.fetchPage rid.pageId with
    | .error e => (.error e,s)
    | .ok data =>
      match nextPageId data with
      | .error e => (.error e,s)
      | .ok _ =>
        match deleteRecord data rid.slotId with
        | (data,.error e) => (.error e,s.writePage rid.pageId data)
        | (data,.ok ()) =>
          let s := s.writePage rid.pageId data
          if rid.pageId = t.firstDataPageId then (.ok (),s)
          else releasePage t transaction s rid.pageId

/-! ### `Scan` -/

structure ScanCursor where
  currentPage : PageId
  nextSlot : ℕ := 0
  pageGuard : Option Mem := none
  pageLoaded : Bool := false
  slotCount : ℕ := 0
  visitedPages : List PageId := []

namespace ScanCursor

/-- A page under its guard is validated and its slots counted. -/
def count (c : ScanCursor) (data : Mem) : Result (Mem × ScanCursor) :=
  match validateBytes data with
  | .error e => .error e
  | .ok () =>
    match SlottedPage.slotCount data with
    | .error e => .error e
    | .ok n => .ok (data,{ c with pageGuard := some data, slotCount := n, pageLoaded := true })

/-- The page to read from, `none` at the end of the chain. -/
def load (s : Pool) (c : ScanCursor) : Result (Option (Mem × ScanCursor)) :=
  match c.pageGuard with
  | some data =>
    if c.pageLoaded then .ok (some (data,c)) else (c.count data).map some
  | none =>
    if c.currentPage = invalidPageId then .ok none
    else if !c.pageLoaded ∧ (c.currentPage = 0 ∨ c.currentPage ∈ c.visitedPages) then
      fail .invalidArgument ("数据页链表损坏或成环: " ++ toString c.currentPage)
    else match s.fetchPage c.currentPage with
      | .error e => .error e
      | .ok data =>
        let c := if c.pageLoaded then c
          else { c with visitedPages := c.currentPage::c.visitedPages }
        (c.count data).map some

/-- The loop over the slots of the page, a deleted slot skipped. -/
def nextRecord (data : Mem) : ℕ → ℕ → Result (Option (ℕ × List UInt8))
  | _, 0 => .ok none
  | slot, n+1 =>
    match getRecord data slot with
    | .ok record => .ok (some (slot,record))
    | .error e => if e.code = .notFound then nextRecord data (slot + 1) n else .error e

/-- `Next`. -/
def next (s : Pool) : ℕ → ScanCursor → Result (Option ((RID × Row) × ScanCursor))
  | 0, _ => damaged
  | n+1, c =>
    match c.load s with
    | .error e => .error e
    | .ok none => .ok none
    | .ok (some (data,c)) =>
      match nextRecord data c.nextSlot (c.slotCount - c.nextSlot) with
      | .error e => .error e
      | .ok (some (slot,record)) =>
        (RowCodec.decode t.schema record).map fun row =>
          some ((⟨c.currentPage,slot⟩,row),{ c with nextSlot := slot + 1, pageGuard := none })
      | .ok none =>
        match nextPageId data with
        | .error e => .error e
        | .ok following =>
          let c := { c with currentPage := following, pageLoaded := false, nextSlot := 0 }
          if following ≠ invalidPageId then
            match s.fetchPage following with
            | .error e => .error e
            | .ok data => next s n { c with pageGuard := some data }
          else next s n { c with pageGuard := none }

end ScanCursor

/-- Pages times slots: no scan returns more rows. -/
def rowTurns : ℕ := pageTurns * pageTurns

def scanRows (s : Pool) : ℕ → ScanCursor → Result (List (RID × Row))
  | 0, _ => damaged
  | n+1, c =>
    match c.next t s pageTurns with
    | .error e => .error e
    | .ok none => .ok []
    | .ok (some (entry,c)) => (scanRows s n c).map fun rows => entry::rows

def scan (s : Pool) : Result (List (RID × Row)) :=
  if t.firstDataPageId = invalidPageId ∨ t.firstDataPageId = 0 then
    fail .invalidArgument "HeapTable 缺少首数据页"
  else scanRows t s rowTurns { currentPage := t.firstDataPageId }

end Storage.HeapTable
end OurSql
