import OurSql.Storage.Log
import OurSql.Lib.Chain
import OurSql.Lib.Crash
import Mathlib.Data.Finset.Basic
import Mathlib.Data.Finset.Dedup

/-! The disk manager: a file of pages whose page 0 is the superblock, and a free
list threaded through the first bytes of the freed pages. Each page write and
each extension of the file is one effect. -/
namespace OurSql
namespace Storage

open Crash Chain

/-- The file, and what the open manager keeps in memory about it. `fileSize` is
counted in pages. -/
structure DiskManager where
  isOpen : Bool
  pageCount : ℕ
  freeListHead : PageId
  catalogHead : PageId
  freePages : Finset PageId
  file : PageId → Page
  fileSize : ℕ

/-- Everything that survives a crash lies in these two. -/
structure Store where
  disk : DiskManager
  log : LogManager

def Store.mapDisk (f : DiskManager → DiskManager) (s : Store) : Store := { s with disk := f s.disk }

def Store.push (s : Store) (record : LogRecord) : Store := { s with log := s.log.push record }

def Store.setDurable (s : Store) (lsn : Lsn) : Store :=
  { s with log := { s.log with durableLsn := max s.log.durableLsn lsn } }

def DiskManager.writePage (d : DiskManager) (p : PageId) (page : Page) : DiskManager :=
  { d with file := Function.update d.file p page, fileSize := max d.fileSize (p+1) }

/-- Growing the file fills it with zero bytes. -/
def DiskManager.extend (d : DiskManager) (count : ℕ) : DiskManager :=
  { d with file := fun p => if p < d.fileSize then d.file p else Page.zero, fileSize := count }

def kMagic : List UInt8 := [79,85,82,83,81,76,0,0]
def kFormatVersionOffset : ℕ := 8
def kPageSizeOffset : ℕ := 12
def kPageCountOffset : ℕ := 16
def kFreeListHeadOffset : ℕ := 20
def kCatalogHeadOffset : ℕ := 24
def kFormatVersion : ℕ := 1

def storeMagic (page : Page) : Page := fun i => kMagic.getD i.val (page i)

def sameMagic (page : Page) : Bool :=
  (List.range 8).all fun i => page.byte i = (kMagic.getD i 0).toNat

/-- The bytes `PersistSuperblockUnlocked` writes. -/
def superblock (pageCount : ℕ) (freeListHead catalogHead : PageId) : Page :=
  let page := storeMagic Page.zero
  let page := storeU32 page kFormatVersionOffset kFormatVersion
  let page := storeU32 page kPageSizeOffset pageSize
  let page := storePageId page kPageCountOffset pageCount
  let page := storePageId page kFreeListHeadOffset freeListHead
  storePageId page kCatalogHeadOffset catalogHead

def notOpen : Failure := ⟨.invalidArgument,"DiskManager 尚未打开"⟩

def DiskManager.readPhysicalPage (d : DiskManager) (p : PageId) : Result Page :=
  if !d.isOpen then .error notOpen
  else if d.pageCount ≤ p then fail .notFound ("页面不存在: " ++ toString p)
  else if d.fileSize ≤ p then fail .ioError ("短读页面: " ++ toString p)
  else .ok (d.file p)

def writePhysicalPage (p : PageId) (page : Page) : Prog Store Status := do
  let s ← get
  if !s.disk.isOpen then return .error notOpen
  else if s.disk.pageCount ≤ p then return fail .notFound ("页面不存在: " ++ toString p)
  else
    effect (Store.mapDisk (·.writePage p page))
    return .ok ()

def persistSuperblock : Prog Store Status := do
  let s ← get
  if !s.disk.isOpen then return .error notOpen
  else writePhysicalPage 0 (superblock s.disk.pageCount s.disk.freeListHead s.disk.catalogHead)

/-- `WritePage` takes any page of the file, a freed one as well. -/
def writePage (p : PageId) (page : Page) : Prog Store Status := writePhysicalPage p page

def ensureFileSize (count : ℕ) : Prog Store Status := do
  let s ← get
  if count ≤ s.disk.fileSize then return .ok ()
  else
    effect (Store.mapDisk (·.extend count))
    return .ok ()

def popFreePage : Prog Store (Result PageId) := do
  let s ← get
  let p := s.disk.freeListHead
  if p = invalidPageId then return fail .notFound "没有可复用的空闲页"
  else if p ∉ s.disk.freePages then return fail .ioError "空闲页链表与内存状态不一致"
  else match s.disk.readPhysicalPage p with
    | .error e => return .error e
    | .ok page =>
      let nextFree := loadPageId page 0
      if nextFree ≠ invalidPageId && s.disk.pageCount ≤ nextFree then
        return fail .ioError "空闲页链表损坏"
      else if nextFree ≠ invalidPageId && nextFree = 0 then
        return fail .ioError "空闲页链表指向非法页面"
      else
        modify (Store.mapDisk fun d => { d with freeListHead := nextFree })
        match ← persistSuperblock with
        | .error e =>
          modify (Store.mapDisk fun d =>
            { d with freeListHead := p, freePages := s.disk.freePages })
          return .error e
        | .ok () =>
          modify (Store.mapDisk fun d => { d with freePages := d.freePages.erase p })
          return .ok p

def pushFreePage (p : PageId) : Prog Store Status := do
  let s ← get
  if !s.disk.isOpen then return .error notOpen
  else if p = 0 || p = invalidPageId || s.disk.pageCount ≤ p then
    return fail .invalidArgument "释放的页面编号非法"
  else if p ∈ s.disk.freePages then
    return fail .alreadyExists ("页面已经释放: " ++ toString p)
  else match ← writePhysicalPage p (storePageId Page.zero 0 s.disk.freeListHead) with
    | .error e => return .error e
    | .ok () =>
      modify (Store.mapDisk fun d => { d with freeListHead := p })
      match ← persistSuperblock with
      | .error e =>
        modify (Store.mapDisk fun d =>
          { d with freeListHead := s.disk.freeListHead, freePages := s.disk.freePages })
        return .error e
      | .ok () =>
        modify (Store.mapDisk fun d => { d with freePages := insert p d.freePages })
        return .ok ()

def allocatePage : Prog Store (Result PageId) := do
  let s ← get
  if !s.disk.isOpen then return .error notOpen
  else if s.disk.freeListHead ≠ invalidPageId then popFreePage
  else
    let newPageId := s.disk.pageCount
    let newPageCount := (s.disk.pageCount + 1) % 4294967296
    match ← ensureFileSize newPageCount with
    | .error e => return .error e
    | .ok () =>
      modify (Store.mapDisk fun d => { d with pageCount := newPageCount })
      match ← persistSuperblock with
      | .error e =>
        modify (Store.mapDisk fun d => { d with pageCount := newPageId })
        return .error e
      | .ok () => return .ok newPageId

def deallocatePage (p : PageId) : Prog Store Status := pushFreePage p

/-- The loop of `ValidateMetadataUnlocked`; it ends by itself, as each turn adds a
page of the file to `seen`. -/
def walkFreeList (d : DiskManager) : ℕ → PageId → Finset PageId → Result (Finset PageId)
  | 0, _, _ => fail .ioError "空闲页链表出现重复或环"
  | fuel+1, current, seen =>
    if current = invalidPageId then .ok seen
    else if current = 0 || d.pageCount ≤ current then fail .ioError "空闲页链表越界"
    else if current ∈ seen then fail .ioError "空闲页链表出现重复或环"
    else match d.readPhysicalPage current with
      | .error e => .error e
      | .ok page => walkFreeList d fuel (loadPageId page 0) (insert current seen)

def validateMetadata (d : DiskManager) : Result DiskManager :=
  if d.freeListHead ≠ invalidPageId && (d.freeListHead = 0 || d.pageCount ≤ d.freeListHead) then
    fail .ioError "空闲页头非法"
  else if d.catalogHead ≠ invalidPageId && (d.catalogHead = 0 || d.pageCount ≤ d.catalogHead) then
    fail .ioError "目录头非法"
  else match walkFreeList d (d.pageCount+1) d.freeListHead ∅ with
    | .error e => .error e
    | .ok free => .ok { d with freePages := free }

/-- `OpenExistingFileUnlocked` on the file an earlier run left. -/
def openExistingFile (d : DiskManager) : Result DiskManager :=
  let d := { d with isOpen := true, pageCount := 1 }
  match d.readPhysicalPage 0 with
  | .error e => .error e
  | .ok page =>
    if !sameMagic page then fail .invalidArgument "数据库文件魔数不匹配"
    else if loadU32 page kFormatVersionOffset ≠ kFormatVersion then
      fail .notImplemented "不支持的数据库文件格式版本"
    else if loadU32 page kPageSizeOffset ≠ pageSize then
      fail .invalidArgument "数据库文件页面大小不匹配"
    else
      let d := { d with
        pageCount := loadPageId page kPageCountOffset
        freeListHead := loadPageId page kFreeListHeadOffset
        catalogHead := loadPageId page kCatalogHeadOffset
        freePages := ∅ }
      if d.pageCount = 0 then fail .invalidArgument "数据库文件页数非法"
      else if d.fileSize ≠ d.pageCount then fail .ioError "数据库文件大小与页数不一致"
      else validateMetadata d

end Storage
end OurSql
