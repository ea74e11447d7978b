import OurSql.Buffer.Replacer

/-! The buffer pool. Every operation drops the pool mutex around its disk I/O, so
each is written as the sections that run under the mutex; what the disk and the log
answered in between is handed to the section that commits it. -/
namespace OurSql
namespace Buffer

inductive FrameState
  | empty | loading | valid | evicting | flushing | deletePending
  deriving DecidableEq, Repr

inductive FlushPolicy
  | writeBack | writeThrough
  deriving DecidableEq, Repr

/-- The page bytes are of any type: nothing in the pool looks into them. -/
structure Frame (β : Type) where
  page : β
  pageId : PageId
  pinCount : ℕ
  isDirty : Bool
  pageLsn : Lsn
  state : FrameState
  deriving DecidableEq, Repr

def Frame.free {β : Type} [Zero β] : Frame β := ⟨0,invalidPageId,0,false,invalidLsn,.empty⟩

structure FrameSelection where
  frameId : FrameId
  fromFreeList : Bool
  deriving DecidableEq, Repr

/-- Statistics and the closed flag are left out. -/
structure BufferPool (β ρ : Type) where
  frames : FrameId → Frame β
  freeFrames : List FrameId
  pageTable : PageId → Option FrameId
  loadFailures : PageId → Option Failure
  loadingWaiters : PageId → Option ℕ
  deletePending : PageId → Bool
  replacer : ρ
  flushPolicy : FlushPolicy

variable {β ρ : Type} [Replacer ρ]

namespace BufferPool

def create [Zero β] (poolSize : ℕ) (flushPolicy : FlushPolicy) : BufferPool β ρ where
  frames := fun _ => .free
  freeFrames := List.range poolSize
  pageTable := fun _ => none
  loadFailures := fun _ => none
  loadingWaiters := fun _ => none
  deletePending := fun _ => false
  replacer := Replacer.create poolSize
  flushPolicy := flushPolicy

def setFrame (b : BufferPool β ρ) (f : FrameId) (x : Frame β) : BufferPool β ρ :=
  { b with frames := Function.update b.frames f x }

def map (b : BufferPool β ρ) (p : PageId) (f : FrameId) : BufferPool β ρ :=
  { b with pageTable := Function.update b.pageTable p (some f) }

def unmap (b : BufferPool β ρ) (p : PageId) : BufferPool β ρ :=
  { b with pageTable := Function.update b.pageTable p none }

def mapReplacer (b : BufferPool β ρ) (g : ρ → ρ) : BufferPool β ρ :=
  { b with replacer := g b.replacer }

def setPending (b : BufferPool β ρ) (p : PageId) (x : Bool) : BufferPool β ρ :=
  { b with deletePending := Function.update b.deletePending p x }

def setFailure (b : BufferPool β ρ) (p : PageId) (e : Option Failure) : BufferPool β ρ :=
  { b with loadFailures := Function.update b.loadFailures p e }

def setWaiters (b : BufferPool β ρ) (p : PageId) (n : Option ℕ) : BufferPool β ρ :=
  { b with loadingWaiters := Function.update b.loadingWaiters p n }

def validateDataPageId (p : PageId) : Status :=
  if p = invalidPageId ∨ p = 0 then
    fail .invalidArgument ("缓冲池不能操作该页面编号: " ++ toString p)
  else .ok ()

/-! ### Choosing a frame -/

def selectFrame (b : BufferPool β ρ) : Result FrameSelection × BufferPool β ρ :=
  match b.freeFrames with
  | f::rest =>
    let b := { b with freeFrames := rest }
    if (b.frames f).pageId ≠ invalidPageId then
      (fail .internalError "BufferPool 空闲 frame 状态损坏",b)
    else (.ok ⟨f,true⟩,b.setFrame f { b.frames f with state := .loading })
  | [] =>
    match Replacer.victim b.replacer with
    | none => (fail .notFound "没有可淘汰的 frame，所有页面都被 pin",b)
    | some (f,r) =>
      let b := { b with replacer := r }
      let x := b.frames f
      if x.pinCount ≠ 0 ∨ x.pageId = invalidPageId ∨ x.state ≠ .valid then
        (fail .internalError "替换器返回了无效的 frame",b)
      else (.ok ⟨f,false⟩,b.setFrame f { x with state := .evicting, pinCount := x.pinCount + 1 })

def returnFreeFrame (b : BufferPool β ρ) (f : FrameId) : Status × BufferPool β ρ :=
  if (b.frames f).pageId ≠ invalidPageId ∨ (b.frames f).pinCount ≠ 0 then
    (fail .internalError ("只能归还未占用的 free frame: " ++ toString f),b)
  else if f ∈ b.freeFrames then (fail .internalError ("free frame 重复归还: " ++ toString f),b)
  else (.ok (),{ b with freeFrames := b.freeFrames ++ [f] })

/-! ### FetchPage and FetchPageWrite -/

inductive Fetch
  | failed (e : Failure)
  | hit (f : FrameId)
  | wait
  | load (sel : FrameSelection) (oldPage : PageId)
  deriving DecidableEq

def beingDeleted (p : PageId) : Failure := ⟨.notFound,"页面正在删除: " ++ toString p⟩

/-- One turn of the loop of `FetchPage`, up to the next wait or unlock. -/
def lookup (b : BufferPool β ρ) (p : PageId) : Fetch × BufferPool β ρ :=
  if b.deletePending p then (.failed (beingDeleted p),b)
  else match b.pageTable p with
    | some f =>
      let x := b.frames f
      match x.state with
      | .valid =>
        (.hit f,(b.mapReplacer fun r => Replacer.recordAccess (Replacer.pin r f) f).setFrame f
          { x with pinCount := x.pinCount + 1 })
      | .deletePending => (.failed (beingDeleted p),b)
      | _ => (.wait,b.setWaiters p (some ((b.loadingWaiters p).getD 0 + 1)))
    | none =>
      match b.loadFailures p with
      | some e => (.failed e,if b.loadingWaiters p = none then b.setFailure p none else b)
      | none =>
        match b.selectFrame with
        | (.error e,b) => (.failed e,b)
        | (.ok sel,b) =>
          let x := b.frames sel.frameId
          let b := if sel.fromFreeList then
              b.setFrame sel.frameId { x with pageId := p, pinCount := 1 } else b
          (.load sel x.pageId,b.map p sel.frameId)

def fetchPage (b : BufferPool β ρ) (p : PageId) : Fetch × BufferPool β ρ :=
  match validateDataPageId p with
  | .error e => (.failed e,b)
  | .ok () => b.lookup p

/-- What `state_changed_.wait` of a fetch waits for. -/
def canWake (b : BufferPool β ρ) (p : PageId) : Bool :=
  match b.pageTable p with
  | none => true
  | some f => (b.frames f).state = .valid ∨ (b.frames f).state = .deletePending

def wake (b : BufferPool β ρ) (p : PageId) : Fetch × BufferPool β ρ :=
  match b.loadFailures p with
  | some e =>
    match b.loadingWaiters p with
    | none => (.failed e,b)
    | some n =>
      if n - 1 = 0 then (.failed e,(b.setWaiters p none).setFailure p none)
      else (.failed e,b.setWaiters p (some (n - 1)))
  | none => ((b.loadingWaiters p).elim b fun n => b.setWaiters p (some (n - 1))).lookup p

/-- The write-back of a dirty victim, without the mutex. -/
def evictIo (b : BufferPool β ρ) (sel : FrameSelection) (write : Status) :
    Status × BufferPool β ρ :=
  let x := b.frames sel.frameId
  if !sel.fromFreeList && x.isDirty then
    match write with
    | .ok () => (.ok (),b.setFrame sel.frameId { x with pageLsn := invalidLsn })
    | .error e => (.error e,b)
  else (.ok (),b)

/-- The write-back, then the read into the frame. -/
def loadIo [Zero β] (b : BufferPool β ρ) (sel : FrameSelection) (write : Status)
    (loaded : Result β) : Status × BufferPool β ρ :=
  match b.evictIo sel write with
  | (.error e,b) => (.error e,b)
  | (.ok (),b) =>
    let x := b.frames sel.frameId
    match loaded with
    | .ok page => (.ok (),b.setFrame sel.frameId { x with page := page })
    | .error e =>
      (.error e,if sel.fromFreeList then b.setFrame sel.frameId { x with page := 0 } else b)

/-- A victim whose page could not be replaced goes back to the candidates. -/
def unevict (b : BufferPool β ρ) (f : FrameId) : BufferPool β ρ :=
  (b.setFrame f { b.frames f with pinCount := 0, state := .valid }).mapReplacer
    fun r => Replacer.unpin r f

/-- The frame belongs to a new page, pinned once and clean. -/
def install (b : BufferPool β ρ) (f : FrameId) (p : PageId) : BufferPool β ρ :=
  (b.setFrame f { b.frames f with
    pageId := p, pinCount := 1, isDirty := false, pageLsn := invalidLsn, state := .valid
    }).mapReplacer fun r => Replacer.recordAccess (Replacer.remove r f) f

def finishLoad [Zero β] (b : BufferPool β ρ) (p : PageId) (sel : FrameSelection)
    (oldPage : PageId) : Status → Result FrameId × BufferPool β ρ
  | .error e =>
    let b := b.unmap p
    let x := b.frames sel.frameId
    let b := if sel.fromFreeList then
        ((b.setFrame sel.frameId { x with
          page := 0, pageId := invalidPageId, pinCount := 0, isDirty := false, state := .empty
          }).returnFreeFrame sel.frameId).2
      else b.unevict sel.frameId
    (.error e,b.setFailure p (some e))
  | .ok () =>
    let b := if sel.fromFreeList then b else b.unmap oldPage
    (.ok sel.frameId,b.install sel.frameId p)

/-! ### NewPage -/

def newPage (b : BufferPool β ρ) : Result (FrameSelection × PageId) × BufferPool β ρ :=
  match b.selectFrame with
  | (.error e,b) => (.error e,b)
  | (.ok sel,b) =>
    let x := b.frames sel.frameId
    let b := if sel.fromFreeList then b.setFrame sel.frameId { x with pinCount := 1 } else b
    (.ok (sel,x.pageId),b)

/-- The write-back, then what `AllocatePage`, the page lock and the PageAllocate
record came to. -/
def newIo [Zero β] (b : BufferPool β ρ) (sel : FrameSelection) (write : Status)
    (allocated : Result PageId) : Result PageId × BufferPool β ρ :=
  match b.evictIo sel write with
  | (.error e,b) => (.error e,b)
  | (.ok (),b) =>
    match allocated with
    | .ok p => (.ok p,b)
    | .error e =>
      (.error e,if sel.fromFreeList then
          b.setFrame sel.frameId { b.frames sel.frameId with page := 0 } else b)

def finishNew [Zero β] (b : BufferPool β ρ) (sel : FrameSelection) (oldPage : PageId) :
    Result PageId → Result FrameId × BufferPool β ρ
  | .error e =>
    let x := b.frames sel.frameId
    (.error e,if sel.fromFreeList then
        ((b.setFrame sel.frameId { x with
          pageId := invalidPageId, pinCount := 0, isDirty := false, state := .empty
          }).returnFreeFrame sel.frameId).2
      else b.unevict sel.frameId)
  | .ok p =>
    let b := b.setFrame sel.frameId { b.frames sel.frameId with page := 0 }
    let b := if sel.fromFreeList then b else b.unmap oldPage
    (.ok sel.frameId,(b.map p sel.frameId).install sel.frameId p)

/-! ### Releasing a guard and flushing -/

inductive Release
  | done (status : Status)
  | writeThrough
  deriving DecidableEq

/-- Give up one pin; the last one makes the frame a candidate. -/
def unpinFrame (b : BufferPool β ρ) (f : FrameId) : Status × BufferPool β ρ :=
  let x := b.frames f
  let b := b.setFrame f { x with pinCount := x.pinCount - 1 }
  if x.pinCount - 1 = 0 ∧ x.state ≠ .deletePending then
    (unpinStatus b.replacer f,b.mapReplacer fun r => Replacer.unpin r f)
  else (.ok (),b)

def releaseGuard (b : BufferPool β ρ) (f : FrameId) (p : PageId) (dirty : Bool) :
    Release × BufferPool β ρ :=
  let x := b.frames f
  if x.pageId ≠ p then (.done (fail .internalError "PageGuard 对应的 frame 已失效"),b)
  else if x.pinCount = 0 then
    (.done (fail .invalidArgument ("页面 pin_count 已经为 0: " ++ toString p)),b)
  else
    let x := { x with isDirty := x.isDirty || dirty }
    let b := b.setFrame f x
    if x.state = .valid ∧ b.flushPolicy = .writeThrough ∧ x.isDirty ∧ x.pinCount = 1 then
      (.writeThrough,b.setFrame f { x with state := .flushing })
    else
      let (status,b) := b.unpinFrame f
      (.done status,b)

/-- After a write of the frame: clean if it worked, valid, and one pin less. -/
def finishFlush (b : BufferPool β ρ) (f : FrameId) (write : Status) : BufferPool β ρ :=
  let x := b.frames f
  let x := match write with
    | .ok () => { x with isDirty := false, pageLsn := invalidLsn }
    | .error _ => x
  ((b.setFrame f { x with state := .valid }).unpinFrame f).2

inductive Flush
  | done (status : Status)
  | blocked (f : FrameId)
  | waiting (f : FrameId)
  deriving DecidableEq

def flushDeleted (p : PageId) : Status := fail .notFound ("页面正在删除，无法 Flush: " ++ toString p)

/-- `FlushPage` once the frame is Valid. -/
def flushPin (b : BufferPool β ρ) (f : FrameId) : Flush × BufferPool β ρ :=
  let x := b.frames f
  let b := if x.pinCount = 0 then b.mapReplacer fun r => Replacer.pin r f else b
  if !x.isDirty && decide (1 < x.pinCount + 1) then (.done (.ok ()),b)
  else (.waiting f,b.setFrame f { x with state := .flushing, pinCount := x.pinCount + 1 })

def flushPage (b : BufferPool β ρ) (p : PageId) : Flush × BufferPool β ρ :=
  match b.pageTable p with
  | none => (.done (fail .notFound ("页面不在 BufferPool 中，无法 Flush: " ++ toString p)),b)
  | some f =>
    match (b.frames f).state with
    | .deletePending => (.done (flushDeleted p),b)
    | .valid => b.flushPin f
    | _ => (.blocked f,b)

/-- The wait of `FlushPage` looks at the frame it found first. -/
def flushWake (b : BufferPool β ρ) (p : PageId) (f : FrameId) : Flush × BufferPool β ρ :=
  match b.pageTable p with
  | none => (.done (fail .notFound ("页面加载失败，无法 Flush: " ++ toString p)),b)
  | some _ =>
    match (b.frames f).state with
    | .deletePending => (.done (flushDeleted p),b)
    | .valid => b.flushPin f
    | _ => (.blocked f,b)

/-! ### Deleting and restoring a page -/

def beginPageDeletion (b : BufferPool β ρ) (p : PageId) (expectedPins : ℕ) :
    Status × BufferPool β ρ :=
  match validateDataPageId p with
  | .error e => (.error e,b)
  | .ok () =>
    if b.deletePending p then
      (fail .alreadyExists ("页面已经处于删除预留状态: " ++ toString p),b)
    else match b.pageTable p with
      | none => (.ok (),b.setPending p true)
      | some f =>
        let x := b.frames f
        if x.state ≠ .valid ∨ x.pinCount ≠ expectedPins then
          (fail .invalidArgument ("被 pin 的页面不能删除: " ++ toString p),b)
        else (.ok (),((b.setPending p true).mapReplacer fun r => Replacer.pin r f).setFrame f
          { x with state := .deletePending })

def cancelPageDeletion (b : BufferPool β ρ) (p : PageId) : Status × BufferPool β ρ :=
  if !b.deletePending p then (fail .notFound ("页面没有删除预留: " ++ toString p),b)
  else match b.pageTable p with
    | none => (.ok (),b.setPending p false)
    | some f =>
      let x := b.frames f
      if x.state ≠ .deletePending ∨ x.pinCount ≠ 0 then
        (fail .invalidArgument ("页面删除预留正在使用: " ++ toString p),b)
      else (.ok (),((b.setPending p false).mapReplacer fun r => Replacer.unpin r f).setFrame f
        { x with state := .valid })

inductive Finalize
  | done (status : Status)
  | uncached
  | cached (f : FrameId)
  deriving DecidableEq

def finalizePageDeletion (b : BufferPool β ρ) (p : PageId) : Finalize × BufferPool β ρ :=
  if !b.deletePending p then (.done (fail .notFound ("页面没有删除预留: " ++ toString p)),b)
  else match b.pageTable p with
    | none => (.uncached,b)
    | some f =>
      let x := b.frames f
      if x.state ≠ .deletePending ∨ x.pinCount ≠ 0 then
        (.done (fail .invalidArgument ("页面删除预留仍有引用: " ++ toString p)),b)
      else (.cached f,b.setFrame f { x with pinCount := 1 })

/-- A page that is free already counts as deallocated. -/
def deallocated : Status → Status
  | .ok () => .ok ()
  | .error e => if e.code = .alreadyExists then .ok () else .error e

def finishUncached (b : BufferPool β ρ) (p : PageId) (deallocate : Status) :
    Status × BufferPool β ρ :=
  match deallocated deallocate with
  | .ok () => (.ok (),b.setPending p false)
  | .error e => (.error e,b)

def finalizeIo [Zero β] (b : BufferPool β ρ) (f : FrameId) (write deallocate : Status) :
    Status × BufferPool β ρ :=
  let x := b.frames f
  let status := if x.isDirty then write else .ok ()
  match deallocated (status.bind fun _ => deallocate) with
  | .ok () => (.ok (),b.setFrame f { x with page := 0 })
  | .error e => (.error e,b)

def finishFinalize (b : BufferPool β ρ) (p : PageId) (f : FrameId) :
    Status → Status × BufferPool β ρ
  | .error e => (.error e,b.setFrame f { b.frames f with pinCount := 0, state := .deletePending })
  | .ok () =>
    let b := b.unmap p
    let b := b.setFrame f { b.frames f with
      pageId := invalidPageId, pinCount := 0, isDirty := false, state := .empty }
    ((b.setPending p false).mapReplacer fun r => Replacer.remove r f).returnFreeFrame f

inductive Restore
  | done (status : Status)
  | uncached
  | cached (f : FrameId)
  deriving DecidableEq

def restorePage (b : BufferPool β ρ) (p : PageId) : Restore × BufferPool β ρ :=
  if p = invalidPageId ∨ p = 0 then
    (.done (fail .invalidArgument "RestorePage requires a data page id"),b)
  else match b.pageTable p with
    | none => (.uncached,b)
    | some f =>
      let x := b.frames f
      if x.state ≠ .valid ∨ x.pinCount ≠ 0 then
        (.done (fail .invalidArgument "RestorePage requires an unpinned valid frame"),b)
      else (.cached f,(b.mapReplacer fun r => Replacer.pin r f).setFrame f { x with pinCount := 1 })

def restoreIo (b : BufferPool β ρ) (f : FrameId) (image : β) (write : Status) :
    BufferPool β ρ :=
  match write with
  | .ok () => b.setFrame f { b.frames f with page := image }
  | .error _ => b

/-- The frame stayed Valid during the write, and its pin count is set, not lowered. -/
def finishRestore (b : BufferPool β ρ) (f : FrameId) (write : Status) : BufferPool β ρ :=
  let x := b.frames f
  let x := match write with
    | .ok () => { x with isDirty := false, pageLsn := invalidLsn }
    | .error _ => x
  (b.setFrame f { x with pinCount := 0 }).mapReplacer fun r => Replacer.unpin r f

end BufferPool
end Buffer
end OurSql
