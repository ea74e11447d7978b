import OurSql.Storage.FreeList

/-! `DeallocatePage` with a file whose writes may fail, and what it then leaves of the page. -/
namespace OurSql
namespace Storage

open Crash Chain

/-- How a page write fails: before it, or behind some bytes that have reached the file. -/
inductive Fault
  | seek | write (written : ℕ)
  deriving DecidableEq, Repr

def Fault.written : Fault → ℕ
  | .seek => 0
  | .write n => n

def Fault.message (p : PageId) : Fault → String
  | .seek => "定位写入位置失败: " ++ toString p
  | .write _ => "写入页面失败: " ++ toString p

namespace DiskManager

/-- Only the first bytes of the page have reached the file. -/
def writeTorn (d : DiskManager) (p : PageId) (page : Page) (written : ℕ) : DiskManager :=
  { d with file := Function.update d.file p fun i => if i.val < written then page i else d.file p i }

/-- `WritePhysicalPageUnlocked`. -/
def writePhysicalPage (d : DiskManager) (fault : Option Fault) (p : PageId) (page : Page) :
    Status × DiskManager :=
  if !d.isOpen then (.error notOpen,d)
  else if d.pageCount ≤ p then (fail .notFound ("页面不存在: " ++ toString p),d)
  else match fault with
    | none => (.ok (),d.writePage p page)
    | some f => (fail .ioError (f.message p),d.writeTorn p page f.written)

/-- `PersistSuperblockUnlocked`. -/
def persistSuperblock (d : DiskManager) (fault : Option Fault) : Status × DiskManager :=
  if !d.isOpen then (.error notOpen,d)
  else d.writePhysicalPage fault 0 (superblock d.pageCount d.freeListHead d.catalogHead)

/-- `DeallocatePage` is `PushFreePageUnlocked`: a write of the page, then one of the superblock. -/
def deallocatePage (d : DiskManager) (onPage onSuperblock : Option Fault) (p : PageId) :
    Status × DiskManager :=
  if !d.isOpen then (.error notOpen,d)
  else if p = 0 || p = invalidPageId || d.pageCount ≤ p then
    (fail .invalidArgument "释放的页面编号非法",d)
  else if p ∈ d.freePages then (fail .alreadyExists ("页面已经释放: " ++ toString p),d)
  else match d.writePhysicalPage onPage p (storePageId Page.zero 0 d.freeListHead) with
    | (.error e,d) => (.error e,d)
    | (.ok (),written) =>
      match { written with freeListHead := p }.persistSuperblock onSuperblock with
      | (.error e,failed) =>
        (.error e,{ failed with freeListHead := d.freeListHead, freePages := d.freePages })
      | (.ok (),done) => (.ok (),{ done with freePages := insert p done.freePages })

end DiskManager

variable {d : DiskManager} {p : PageId} {free : List PageId} {onPage onSuperblock : Option Fault}

/-- The first `n` bytes of two pages are the same. -/
def Agree (page page' : Page) (n : ℕ) : Prop := ∀ i : Fin pageSize, i.val < n → page i = page' i

/-- The bytes that a failed write has put into the file were there before. -/
def Rewrites (d : DiskManager) (p : PageId) : Option Fault → Option Fault → Prop
  | some f, _ => Agree (storePageId Page.zero 0 d.freeListHead) (d.file p) f.written
  | none, some f => storePageId Page.zero 0 d.freeListHead = d.file p ∧
      Agree (superblock d.pageCount p d.catalogHead)
        (superblock d.pageCount d.freeListHead d.catalogHead) f.written
  | none, none => True

theorem writeTorn_eq_iff {page : Page} {n : ℕ} :
    d.writeTorn p page n = d ↔ Agree page (d.file p) n := by
  constructor
  · intro h i hi
    have hp := congrFun (congrFun (congrArg DiskManager.file h) p) i
    simpa [DiskManager.writeTorn,hi] using hp
  · intro h
    have hfile : (fun i : Fin pageSize => if i.val < n then page i else d.file p i) = d.file p := by
      funext i
      split
      · next hi => exact h i hi
      · rfl
    rw [DiskManager.writeTorn,hfile,Function.update_eq_self]

/-- The write of the superblock has failed, and the memory is as before the call. -/
def DiskManager.linkTorn (d : DiskManager) (p : PageId) (written : ℕ) : DiskManager :=
  { (d.linkPage p).writeTorn 0 (superblock d.pageCount p d.catalogHead) written with
    freeListHead := d.freeListHead
    freePages := d.freePages }

theorem linkTorn_eq_iff {n : ℕ} (h : Mounted d free) (hp : 0 < p ∧ p < d.pageCount) :
    d.linkTorn p n = d ↔ storePageId Page.zero 0 d.freeListHead = d.file p ∧
      Agree (superblock d.pageCount p d.catalogHead)
        (superblock d.pageCount d.freeListHead d.catalogHead) n := by
  have hne : 0 ≠ p := (Nat.pos_iff_ne_zero.mp hp.1).symm
  have hzero : (d.linkPage p).file 0 =
      superblock d.pageCount d.freeListHead d.catalogHead := by
    rw [← h.onFile.superblock]
    exact Function.update_of_ne hne ..
  constructor
  · intro he
    have hlink : storePageId Page.zero 0 d.freeListHead = d.file p := by
      have hfile := congrFun (congrArg DiskManager.file he) p
      simpa [DiskManager.linkTorn,DiskManager.writeTorn,DiskManager.linkPage,
        DiskManager.writePage,hne.symm] using hfile
    refine ⟨hlink,fun i hi => ?_⟩
    have hbyte := congrFun (congrFun (congrArg DiskManager.file he) 0) i
    rw [← h.onFile.superblock]
    simpa [DiskManager.linkTorn,DiskManager.writeTorn,hi] using hbyte
  · rintro ⟨hlink,hagree⟩
    have htorn := (writeTorn_eq_iff (d := d.linkPage p) (p := 0)).mpr (hzero ▸ hagree)
    have hfile : (d.linkPage p).file = d.file := by
      change Function.update d.file p (storePageId Page.zero 0 d.freeListHead) = d.file
      rw [hlink,Function.update_eq_self]
    have hsize : max d.fileSize (p + 1) = d.fileSize := by
      rw [h.onFile.size]
      exact max_eq_left hp.2
    rw [DiskManager.linkTorn,htorn]
    simp only [DiskManager.linkPage,DiskManager.writePage] at hfile ⊢
    rw [hfile,hsize]

theorem writePhysicalPage_good {page : Page} (ho : d.isOpen = true) (hp : p < d.pageCount) :
    d.writePhysicalPage none p page = (.ok (),d.writePage p page) := by
  simp only [DiskManager.writePhysicalPage,ho,Bool.not_true,Bool.false_eq_true,if_false,
    if_neg (Nat.not_le.mpr hp)]

theorem writePhysicalPage_fault {page : Page} (ho : d.isOpen = true) (hp : p < d.pageCount)
    (f : Fault) :
    d.writePhysicalPage (some f) p page =
      (fail .ioError (f.message p),d.writeTorn p page f.written) := by
  simp only [DiskManager.writePhysicalPage,ho,Bool.not_true,Bool.false_eq_true,if_false,
    if_neg (Nat.not_le.mpr hp)]

theorem persistSuperblock_good (ho : d.isOpen = true) (hp : 0 < d.pageCount) :
    d.persistSuperblock none =
      (.ok (),d.writePage 0 (superblock d.pageCount d.freeListHead d.catalogHead)) := by
  rw [DiskManager.persistSuperblock,if_neg (by simp [ho]),writePhysicalPage_good ho hp]

theorem persistSuperblock_fault (ho : d.isOpen = true) (hp : 0 < d.pageCount) (f : Fault) :
    d.persistSuperblock (some f) = (fail .ioError (f.message 0),
      d.writeTorn 0 (superblock d.pageCount d.freeListHead d.catalogHead) f.written) := by
  rw [DiskManager.persistSuperblock,if_neg (by simp [ho]),writePhysicalPage_fault ho hp]

section allocated

variable (h : Mounted d free) (hp : 0 < p ∧ p < d.pageCount) (hfree : p ∉ free)

include h hp hfree

/-- A page in use passes the checks. -/
theorem deallocatePage_inUse : d.deallocatePage onPage onSuperblock p =
    match d.writePhysicalPage onPage p (storePageId Page.zero 0 d.freeListHead) with
    | (.error e,d) => (.error e,d)
    | (.ok (),written) =>
      match { written with freeListHead := p }.persistSuperblock onSuperblock with
      | (.error e,failed) =>
        (.error e,{ failed with freeListHead := d.freeListHead, freePages := d.freePages })
      | (.ok (),done) => (.ok (),{ done with freePages := insert p done.freePages }) := by
  have hne : p ≠ invalidPageId := Nat.ne_of_lt (Nat.lt_of_lt_of_le hp.2 h.onFile.bound)
  have hmem : p ∉ d.freePages := by rwa [h.freePages,List.mem_toFinset]
  rw [DiskManager.deallocatePage,h.isOpen,if_neg (by simp),
    if_neg (by simp [hne,hp.2,Nat.pos_iff_ne_zero.mp hp.1]),if_neg hmem]

theorem deallocatePage_pageFault (f : Fault) : d.deallocatePage (some f) onSuperblock p =
    (fail .ioError (f.message p),
      d.writeTorn p (storePageId Page.zero 0 d.freeListHead) f.written) := by
  rw [deallocatePage_inUse h hp hfree,writePhysicalPage_fault h.isOpen hp.2]
  rfl

theorem deallocatePage_superblockFault (f : Fault) : d.deallocatePage none (some f) p =
    (fail .ioError (f.message 0),d.linkTorn p f.written) := by
  rw [deallocatePage_inUse h hp hfree,writePhysicalPage_good h.isOpen hp.2]
  dsimp only
  rw [persistSuperblock_fault]
  · rfl
  · exact h.isOpen
  · exact h.onFile.pos

theorem deallocatePage_ok : d.deallocatePage none none p = (.ok (),d.release p) := by
  rw [deallocatePage_inUse h hp hfree,writePhysicalPage_good h.isOpen hp.2]
  dsimp only
  rw [persistSuperblock_good]
  · rfl
  · exact h.isOpen
  · exact h.onFile.pos

/-- Without a fault this is the release that the file sees. -/
theorem run_deallocatePage {s : Store} (hs : s.disk = d) :
    (Storage.deallocatePage p).run s =
      (some (d.deallocatePage none none p).1,
        s.mapDisk fun _ => (d.deallocatePage none none p).2) := by
  subst hs
  have hmem : p ∉ s.disk.freePages := by rwa [h.freePages,List.mem_toFinset]
  obtain ⟨r,t,hr,rfl,rfl⟩ := Spec.run (spec_deallocatePage (R := fun _ => True) h.isOpen hp
    h.onFile.bound hmem trivial trivial) rfl
  rw [hr,deallocatePage_ok h hp hfree]
  rfl

end allocated

/-! One page in use, every byte of it one. -/

def samplePage : Page := fun _ => 1

def sampleDisk : DiskManager where
  isOpen := true
  pageCount := 2
  freeListHead := invalidPageId
  catalogHead := invalidPageId
  freePages := ∅
  file p := if p = 0 then superblock 2 invalidPageId invalidPageId else samplePage
  fileSize := 2

theorem sampleDisk_mounted : Mounted sampleDisk [] where
  isOpen := rfl
  onFile := ⟨rfl,rfl,by decide,by decide,.inl rfl,rfl,by simp⟩
  freePages := rfl

theorem sampleDisk_first : 0 < 1 ∧ 1 < sampleDisk.pageCount := by decide

end Storage
end OurSql
