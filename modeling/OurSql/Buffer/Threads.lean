import OurSql.Buffer.Pool
import OurSql.Lib.Transition

/-! Threads inside the buffer pool. A thread in the middle of an operation is an
entry of `ops`, a page guard somebody holds is an entry of `guards`; each step is
one section under the pool mutex, one piece of I/O, or one step of a guard. -/
namespace OurSql
namespace Buffer

open BufferPool (Fetch Flush Release Finalize Restore)

/-- What a fetch will use the page for. -/
structure Access where
  writer : Bool
  transactional : Bool
  deriving DecidableEq, Repr

/-- How far a guard has come: waiting for the latch, holding it, holding it with its
update in the log and then in `page_lsn`, or past it on the way to `ReleaseGuard`. -/
inductive Hold
  | waiting | latched | logged (lsn : Lsn) | recorded | closed
  deriving DecidableEq, Repr

def Hold.hasLatch : Hold → Bool
  | .waiting | .closed => false
  | _ => true

structure Guard (β : Type) where
  frame : FrameId
  page : PageId
  access : Access
  hold : Hold
  dirty : Bool
  before : Option β
  deriving DecidableEq

/-- `Reset` records the update of such a guard in the log. -/
def Guard.logs {β : Type} (g : Guard β) : Bool :=
  g.access.writer && g.access.transactional && g.dirty

/-- A thread that has left the mutex in the middle of an operation. -/
inductive Op (β : Type)
  | fetchWait (p : PageId) (k : Access)
  | load (p : PageId) (sel : FrameSelection) (oldPage : PageId) (k : Access)
  | loaded (p : PageId) (sel : FrameSelection) (oldPage : PageId) (k : Access) (outcome : Status)
  | alloc (sel : FrameSelection) (oldPage : PageId) (k : Access)
  | allocated (sel : FrameSelection) (oldPage : PageId) (k : Access) (outcome : Result PageId)
  | flushBlocked (p : PageId) (f : FrameId)
  | flushing (p : PageId) (f : FrameId)
  | writeThrough (p : PageId) (f : FrameId)
  | flushed (f : FrameId) (outcome : Status)
  | finalizing (p : PageId) (f : FrameId)
  | finalized (p : PageId) (f : FrameId) (outcome : Status)
  | finalizingUncached (p : PageId)
  | restoring (f : FrameId) (image : β)
  | restored (f : FrameId) (outcome : Status)

instance : DecidableEq (Result PageId) := fun x y =>
  match x, y with
  | .ok p, .ok q => decidable_of_iff (p = q) (by simp)
  | .error e, .error e' => decidable_of_iff (e = e') (by simp)
  | .ok _, .error _ => .isFalse (by simp)
  | .error _, .ok _ => .isFalse (by simp)

deriving instance DecidableEq for Op

/-- The frame whose pin the operation holds in transit. -/
def Op.frame? {β : Type} : Op β → Option FrameId
  | .load _ sel _ _ | .loaded _ sel _ _ _ | .alloc sel _ _ | .allocated sel _ _ _ =>
    some sel.frameId
  | .flushing _ f | .writeThrough _ f | .flushed f _ | .finalizing _ f | .finalized _ f _
  | .restoring f _ | .restored f _ => some f
  | .fetchWait _ _ | .flushBlocked _ _ | .finalizingUncached _ => none

def Op.isRestore {β : Type} : Op β → Bool
  | .restoring _ _ | .restored _ _ => true
  | _ => false

/-- `included` and `onDisk` remember which logged updates a frame's bytes and a page
of the data file contain. -/
structure Threads (β ρ : Type) where
  pool : BufferPool β ρ
  guards : List (Guard β)
  ops : List (Op β)
  appendLsn : Lsn
  durableLsn : Lsn
  included : FrameId → List Lsn
  onDisk : PageId → List Lsn

variable {β ρ : Type} [Zero β] [DecidableEq β] [Replacer ρ]

namespace Threads

/-- `lsn` is the end of the log the database was opened with. -/
def initial (poolSize : ℕ) (flushPolicy : FlushPolicy) (lsn : Lsn) : Threads β ρ where
  pool := .create poolSize flushPolicy
  guards := []
  ops := []
  appendLsn := lsn
  durableLsn := lsn
  included := fun _ => []
  onDisk := fun _ => []

def setPool (s : Threads β ρ) (b : BufferPool β ρ) : Threads β ρ := { s with pool := b }

def frame (s : Threads β ρ) (f : FrameId) : Frame β := s.pool.frames f

def addOp (s : Threads β ρ) (o : Op β) : Threads β ρ := { s with ops := o::s.ops }

def dropOp (s : Threads β ρ) (o : Op β) : Threads β ρ := { s with ops := s.ops.erase o }

def addGuard (s : Threads β ρ) (g : Guard β) : Threads β ρ := { s with guards := g::s.guards }

def dropGuard (s : Threads β ρ) (g : Guard β) : Threads β ρ :=
  { s with guards := s.guards.erase g }

def setGuard (s : Threads β ρ) (g g' : Guard β) : Threads β ρ := (s.dropGuard g).addGuard g'

def newGuard (f : FrameId) (p : PageId) (k : Access) : Guard β := ⟨f,p,k,.waiting,false,none⟩

def setIncluded (s : Threads β ρ) (f : FrameId) (ls : List Lsn) : Threads β ρ :=
  { s with included := Function.update s.included f ls }

def setPage (s : Threads β ρ) (f : FrameId) (page : β) : Threads β ρ :=
  s.setPool (s.pool.setFrame f { s.frame f with page := page })

/-- Nobody is inside the frame's latch. -/
def latchFree (s : Threads β ρ) (f : FrameId) : Bool :=
  s.guards.all fun g => !(g.frame = f && g.hold.hasLatch)

/-- A writer needs the latch alone, a reader only without a writer. -/
def canLatch (s : Threads β ρ) (g : Guard β) : Bool :=
  s.guards.all fun h => !(h.frame = g.frame && h.hold.hasLatch &&
    (g.access.writer || h.access.writer))

def fetched (s : Threads β ρ) (p : PageId) (k : Access) : Fetch × BufferPool β ρ → Threads β ρ
  | (.failed _,b) => s.setPool b
  | (.hit f,b) => (s.setPool b).addGuard (newGuard f p k)
  | (.wait,b) => (s.setPool b).addOp (.fetchWait p k)
  | (.load sel oldPage,b) => (s.setPool b).addOp (.load p sel oldPage k)

def flushed (s : Threads β ρ) (p : PageId) : Flush × BufferPool β ρ → Threads β ρ
  | (.done _,b) => s.setPool b
  | (.blocked f,b) => (s.setPool b).addOp (.flushBlocked p f)
  | (.waiting f,b) => (s.setPool b).addOp (.flushing p f)

/-- `FlushFrameToDisk`: the log first, up to the frame's LSN, then the data page. -/
def flushFrameToDisk (s : Threads β ρ) (p : PageId) (f : FrameId) (wal write : Status) :
    Status × Threads β ρ :=
  let lsn := (s.frame f).pageLsn
  match if lsn = invalidLsn then .ok () else wal with
  | .error e => (fail .ioError ("WAL-before-data failed: " ++ e.message),s)
  | .ok () =>
    let s := { s with durableLsn := max s.durableLsn lsn }
    match write with
    | .error e => (.error e,s)
    | .ok () => (.ok (),{ s with onDisk := Function.update s.onDisk p (s.included f) })

/-- The write-back of a victim, when it is dirty. -/
def flushVictim (s : Threads β ρ) (sel : FrameSelection) (oldPage : PageId) (wal write : Status) :
    Status × Threads β ρ :=
  if !sel.fromFreeList && (s.frame sel.frameId).isDirty then
    s.flushFrameToDisk oldPage sel.frameId wal write
  else (.ok (),s)

/-- The write of a flush, when there is something to write. -/
def flushDirty (s : Threads β ρ) (p : PageId) (f : FrameId) (wal write : Status) :
    Status × Threads β ρ :=
  if (s.frame f).isDirty then s.flushFrameToDisk p f wal write else (.ok (),s)

end Threads

inductive Action (β : Type)
  | fetch (p : PageId) (k : Access)
  | wakeFetch (p : PageId) (k : Access)
  | loadIo (p : PageId) (sel : FrameSelection) (oldPage : PageId) (k : Access)
      (wal write : Status) (loaded : Result β)
  | loadDone (p : PageId) (sel : FrameSelection) (oldPage : PageId) (k : Access)
      (outcome : Status)
  | newPage (k : Access)
  | newIo (sel : FrameSelection) (oldPage : PageId) (k : Access) (wal write : Status)
      (allocated : Result PageId)
  | newDone (sel : FrameSelection) (oldPage : PageId) (k : Access) (outcome : Result PageId)
  | latch (g : Guard β)
  | write (g : Guard β) (page : β)
  | markDirty (g : Guard β)
  | append (g : Guard β) (works : Bool)
  | record (g : Guard β) (lsn : Lsn)
  | unlatch (g : Guard β)
  | release (g : Guard β)
  | flushPage (p : PageId)
  | wakeFlush (p : PageId) (f : FrameId)
  | flushIo (p : PageId) (f : FrameId) (wal write : Status)
  | writeThroughIo (p : PageId) (f : FrameId) (wal write : Status)
  | flushDone (f : FrameId) (outcome : Status)
  | beginDeletion (p : PageId) (expectedPins : ℕ)
  | cancelDeletion (p : PageId)
  | finalize (p : PageId)
  | finalizeIo (p : PageId) (f : FrameId) (wal write deallocate : Status)
  | finalizeDone (p : PageId) (f : FrameId) (outcome : Status)
  | finalizeUncached (p : PageId) (deallocate : Status)
  | restorePage (p : PageId) (image : β)
  | restoreIo (f : FrameId) (image : β) (write : Status)
  | restoreDone (f : FrameId) (outcome : Status)

namespace Threads

def next (s : Threads β ρ) : Action β → Option (Threads β ρ)
  | .fetch p k => some (s.fetched p k (s.pool.fetchPage p))
  | .wakeFetch p k =>
    if .fetchWait p k ∈ s.ops ∧ s.pool.canWake p then
      some ((s.dropOp (.fetchWait p k)).fetched p k (s.pool.wake p))
    else none
  | .loadIo p sel oldPage k wal write loaded =>
    if .load p sel oldPage k ∈ s.ops ∧ s.latchFree sel.frameId then
      let (status,s) := (s.dropOp (.load p sel oldPage k)).flushVictim sel oldPage wal write
      let (outcome,b) := s.pool.loadIo sel status loaded
      let s := if outcome = .ok () then s.setIncluded sel.frameId (s.onDisk p) else s
      some ((s.setPool b).addOp (.loaded p sel oldPage k outcome))
    else none
  | .loadDone p sel oldPage k outcome =>
    if .loaded p sel oldPage k outcome ∈ s.ops then
      let s := s.dropOp (.loaded p sel oldPage k outcome)
      match s.pool.finishLoad p sel oldPage outcome with
      | (.ok f,b) => some ((s.setPool b).addGuard (newGuard f p k))
      | (.error _,b) => some (s.setPool b)
    else none
  | .newPage k =>
    match s.pool.newPage with
    | (.ok (sel,oldPage),b) => some ((s.setPool b).addOp (.alloc sel oldPage k))
    | (.error _,b) => some (s.setPool b)
  | .newIo sel oldPage k wal write allocated =>
    -- the disk manager has no page of that number to give
    if allocated = .ok invalidPageId then none
    else if .alloc sel oldPage k ∈ s.ops ∧ s.latchFree sel.frameId then
      let (status,s) := (s.dropOp (.alloc sel oldPage k)).flushVictim sel oldPage wal write
      let (outcome,b) := s.pool.newIo sel status allocated
      some ((s.setPool b).addOp (.allocated sel oldPage k outcome))
    else none
  | .newDone sel oldPage k outcome =>
    if .allocated sel oldPage k outcome ∈ s.ops then
      let s := s.dropOp (.allocated sel oldPage k outcome)
      match outcome, s.pool.finishNew sel oldPage outcome with
      | .ok p, (_,b) =>
        some (((s.setPool b).setIncluded sel.frameId []).addGuard
          (newGuard sel.frameId p { k with writer := true }))
      | .error _, (_,b) => some (s.setPool b)
    else none
  | .latch g =>
    if g ∈ s.guards ∧ g.hold = .waiting ∧ s.canLatch g then
      some (s.setGuard g { g with hold := .latched, before := some (s.frame g.frame).page })
    else none
  | .write g page =>
    if g ∈ s.guards ∧ g.hold = .latched ∧ g.access.writer then some (s.setPage g.frame page)
    else none
  | .markDirty g =>
    if g ∈ s.guards ∧ g.hold = .latched ∧ g.access.writer then
      some (s.setGuard g { g with dirty := true })
    else none
  | .append g works =>
    if g ∈ s.guards ∧ g.hold = .latched ∧ g.logs then
      if works then
        let lsn := s.appendLsn + 1
        some (({ s with appendLsn := lsn }.setIncluded g.frame (lsn::s.included g.frame)).setGuard g
          { g with hold := .logged lsn })
      else
        some ((s.setPage g.frame (g.before.getD 0)).setGuard g
          { g with hold := .recorded, dirty := false })
    else none
  | .record g lsn =>
    if g ∈ s.guards ∧ g.hold = .logged lsn then
      if (s.frame g.frame).pageId = g.page then
        some ((s.setPool (s.pool.setFrame g.frame { s.frame g.frame with pageLsn := lsn })).setGuard g
          { g with hold := .recorded })
      else some (s.setGuard g { g with hold := .recorded, dirty := false })
    else none
  | .unlatch g =>
    if g ∈ s.guards ∧ (g.hold = .recorded ∨ g.hold = .latched ∧ !g.logs) then
      some (s.setGuard g { g with hold := .closed })
    else none
  | .release g =>
    if g ∈ s.guards ∧ g.hold = .closed then
      let s := s.dropGuard g
      match s.pool.releaseGuard g.frame g.page g.dirty with
      | (.done _,b) => some (s.setPool b)
      | (.writeThrough,b) => some ((s.setPool b).addOp (.writeThrough g.page g.frame))
    else none
  | .flushPage p => some (s.flushed p (s.pool.flushPage p))
  | .wakeFlush p f =>
    if .flushBlocked p f ∈ s.ops then
      some ((s.dropOp (.flushBlocked p f)).flushed p (s.pool.flushWake p f))
    else none
  | .flushIo p f wal write =>
    if .flushing p f ∈ s.ops ∧ s.latchFree f then
      if (s.frame f).state ≠ .flushing then some (s.dropOp (.flushing p f))
      else if (s.frame f).pinCount = 1 then
        let (status,s) := (s.dropOp (.flushing p f)).flushDirty p f wal write
        some (s.addOp (.flushed f status))
      else none
    else none
  | .writeThroughIo p f wal write =>
    if .writeThrough p f ∈ s.ops ∧ s.latchFree f then
      let (status,s) := (s.dropOp (.writeThrough p f)).flushFrameToDisk p f wal write
      some (s.addOp (.flushed f status))
    else none
  | .flushDone f outcome =>
    if .flushed f outcome ∈ s.ops then
      some ((s.dropOp (.flushed f outcome)).setPool (s.pool.finishFlush f outcome))
    else none
  | .beginDeletion p expectedPins => some (s.setPool (s.pool.beginPageDeletion p expectedPins).2)
  | .cancelDeletion p => some (s.setPool (s.pool.cancelPageDeletion p).2)
  | .finalize p =>
    match s.pool.finalizePageDeletion p with
    | (.done _,b) => some (s.setPool b)
    | (.uncached,b) => some ((s.setPool b).addOp (.finalizingUncached p))
    | (.cached f,b) => some ((s.setPool b).addOp (.finalizing p f))
  | .finalizeIo p f wal write deallocate =>
    if .finalizing p f ∈ s.ops ∧ s.latchFree f then
      let (status,s) := (s.dropOp (.finalizing p f)).flushDirty p f wal write
      let (outcome,b) := s.pool.finalizeIo f status deallocate
      let s := if outcome = .ok () then s.setIncluded f [] else s
      some ((s.setPool b).addOp (.finalized p f outcome))
    else none
  | .finalizeDone p f outcome =>
    if .finalized p f outcome ∈ s.ops then
      some ((s.dropOp (.finalized p f outcome)).setPool (s.pool.finishFinalize p f outcome).2)
    else none
  | .finalizeUncached p deallocate =>
    if .finalizingUncached p ∈ s.ops then
      some ((s.dropOp (.finalizingUncached p)).setPool (s.pool.finishUncached p deallocate).2)
    else none
  | .restorePage p image =>
    match s.pool.restorePage p with
    | (.cached f,b) => some ((s.setPool b).addOp (.restoring f image))
    | (_,b) => some (s.setPool b)
  | .restoreIo f image write =>
    if .restoring f image ∈ s.ops ∧ s.latchFree f then
      some (((s.dropOp (.restoring f image)).setPool (s.pool.restoreIo f image write)).addOp
        (.restored f write))
    else none
  | .restoreDone f outcome =>
    if .restored f outcome ∈ s.ops then
      some ((s.dropOp (.restored f outcome)).setPool (s.pool.finishRestore f outcome))
    else none

end Threads
end Buffer
end OurSql
