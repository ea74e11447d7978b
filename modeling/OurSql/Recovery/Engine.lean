import OurSql.Recovery.Actions
import OurSql.Lib.Transition

/-! Transactions on top of the log, the cached pages and the file, one step at a time:
what a crash finds, and what recovery is handed. Page locks are exclusive and held
to the end; a record reaches the log before its page can reach the file. -/
namespace OurSql
namespace Recovery

open Crash Storage

inductive Phase
  | idle
  | active
  | committing (lsn : Lsn)
  | committed
  | aborting (next : Lsn)
  | aborted (lsn : Lsn)
  deriving DecidableEq

/-- `frame` is the cached image of a page and `pageLsn` its last logged update not yet
on the file; `taken` is a page fresh from the disk manager, before its log record. -/
structure Engine where
  store : Store
  frame : PageId → Option Page
  pageLsn : PageId → Lsn
  phase : TxnId → Phase
  lastLsn : TxnId → Lsn
  deferred : TxnId → List PageId
  taken : TxnId → Option PageId
  owner : PageId → Option TxnId
  nextTxn : TxnId
  up : Bool

/-- The engine over an opened file and the log it comes with. -/
def Engine.start (store : Store) (nextTxn : TxnId) : Engine where
  store := store
  frame := fun _ => none
  pageLsn := fun _ => invalidLsn
  phase := fun _ => .idle
  lastLsn := fun _ => invalidLsn
  deferred := fun _ => []
  taken := fun _ => none
  owner := fun _ => none
  nextTxn := nextTxn
  up := true

def Engine.image (e : Engine) (p : PageId) : Page := (e.frame p).getD (e.store.disk.file p)

/-- `AppendFor`: the record joins the chain of its transaction. -/
def Engine.appendFor (e : Engine) (t : TxnId) (record : LogRecord) : Engine :=
  { e with
    store := e.store.push { record with txnId := t, prevLsn := e.lastLsn t }
    lastLsn := Function.update e.lastLsn t (e.store.log.appendLsn + 1) }

/-- A `Transaction` object with the next free number. -/
def Engine.newTransaction (e : Engine) : Engine :=
  { e with
    lastLsn := Function.update e.lastLsn e.nextTxn invalidLsn
    nextTxn := e.nextTxn + 1 }

/-- What the release of a changed write guard logs. -/
def updateRecord (p : PageId) (before after : Page) : LogRecord where
  type := .pageUpdate
  pageId := p
  beforeImage := some before
  afterImage := some after

def Engine.setPhase (e : Engine) (t : TxnId) (phase : Phase) : Engine :=
  { e with phase := Function.update e.phase t phase }

def Engine.setFrame (e : Engine) (p : PageId) (frame : Option Page) (pageLsn : Lsn) : Engine :=
  { e with
    frame := Function.update e.frame p frame
    pageLsn := Function.update e.pageLsn p pageLsn }

def Engine.lock (e : Engine) (p : PageId) (t : TxnId) : Engine :=
  { e with owner := Function.update e.owner p (some t) }

def Engine.unlockAll (e : Engine) (t : TxnId) : Engine :=
  { e with owner := fun p => if e.owner p = some t then none else e.owner p }

def Engine.setDurable (e : Engine) (lsn : Lsn) : Engine := { e with store := e.store.setDurable lsn }

/-- `FlushFrameToDisk`: first the log up to the page's last update, then the page. -/
def Engine.flushFrame (e : Engine) (p : PageId) (page : Page) : Engine :=
  { (e.setDurable (e.pageLsn p)).setFrame p (some page) invalidLsn with
    store := ((e.store.setDurable (e.pageLsn p)).mapDisk (·.writePage p page)) }

/-- Drop a page: a dirty frame goes to the file first, then the page to the free list. -/
def Engine.deletePage (e : Engine) (p : PageId) : Engine :=
  let e := match e.frame p with
    | some page => if e.pageLsn p = invalidLsn then e else e.flushFrame p page
    | none => e
  { e.setFrame p none invalidLsn with store := ((deallocatePage p).run e.store).2 }

/-- `RestorePage`: the image goes to the file, and to the frame if there is one. -/
def Engine.restorePage (e : Engine) (p : PageId) (page : Page) : Engine :=
  { e.setFrame p ((e.frame p).map fun _ => page) invalidLsn with
    store := e.store.mapDisk (·.writePage p page) }

/-- A data page that is in use: neither free nor just taken nor about to be dropped. -/
def Engine.Usable (e : Engine) (p : PageId) : Prop :=
  0 < p ∧ p < e.store.disk.pageCount ∧ p ∉ e.store.disk.freePages ∧
    (∀ t, e.taken t ≠ some p) ∧ ∀ t, p ∉ e.deferred t

def Engine.Lockable (e : Engine) (p : PageId) (t : TxnId) : Prop :=
  e.owner p = none ∨ e.owner p = some t

/-- The log that a crash leaves: some records after the durable ones may be lost. -/
def crashLog (log : LogManager) (k : ℕ) : LogManager :=
  let records := log.records.take k
  ⟨records,appendLsnOf records⟩

/-- `GetNextTransactionIdSeed`. -/
def nextTransactionId (records : List LogRecord) : TxnId :=
  (records.map (·.txnId)).foldl max invalidTxnId + 1

/-- A crash may keep any number of records that includes the durable ones. -/
def LogManager.Keeps (log : LogManager) (k : ℕ) : Prop :=
  ∀ r ∈ log.records, r.lsn ≤ log.durableLsn → r ∈ log.records.take k

inductive Action
  | begin
  | takePage (t : TxnId)
  | logAllocate (t : TxnId) (p : PageId)
  | update (t : TxnId) (p : PageId) (page : Page)
  | free (t : TxnId) (p : PageId)
  | flushLog (lsn : Lsn)
  | flushPage (p : PageId) (page : Page)
  | evict (p : PageId)
  | commit (t : TxnId)
  | commitFlush (t : TxnId) (lsn : Lsn)
  | cleanup (t : TxnId) (p : PageId) (rest : List PageId)
  | finish (t : TxnId)
  | abort (t : TxnId)
  | undo (t : TxnId) (record : LogRecord)
  | abortAppend (t : TxnId)
  | abortFlush (t : TxnId) (lsn : Lsn)
  | crash (k : ℕ)
  | recoverCut (order : List TxnId → List TxnId) (n k : ℕ)
  | recover (order : List TxnId → List TxnId)

/-- What undoing a record at run time does to the pages. -/
def Engine.undoRecord (e : Engine) (t : TxnId) (r : LogRecord) : Engine :=
  match r.type, r.beforeImage with
  | .pageUpdate, some before => e.restorePage r.pageId before
  | .pageAllocate, _ => e.deletePage r.pageId
  | .pageFree, _ =>
    { e with deferred := Function.update e.deferred t ((e.deferred t).erase r.pageId) }
  | _, _ => e

/-- The steps of the running engine. -/
inductive Step (e : Engine) : Action → Engine → Prop
  | begin : Step e .begin
      ((e.newTransaction.appendFor e.nextTxn { type := .begin }).setPhase e.nextTxn .active)
  | takePage {t : TxnId} {p : PageId} {store : Store} :
      e.phase t = .active → e.taken t = none → e.store.disk.pageCount < 4294967295 →
      allocatePage.run e.store = (some (.ok p),store) →
      Step e (.takePage t) { e with store := store, taken := Function.update e.taken t (some p) }
  | logAllocate {t : TxnId} {p : PageId} : e.phase t = .active → e.taken t = some p →
      e.Lockable p t →
      Step e (.logAllocate t p)
        { ((e.appendFor t { type := .pageAllocate, pageId := p }).setFrame p (some Page.zero)
            invalidLsn).lock p t with taken := Function.update e.taken t none }
  | update {t : TxnId} {p : PageId} {page : Page} : e.phase t = .active → e.Usable p →
      e.Lockable p t →
      Step e (.update t p page)
        (((e.appendFor t (updateRecord p (e.image p) page)).setFrame p (some page)
            (e.store.log.appendLsn + 1)).lock p t)
  | free {t : TxnId} {p : PageId} : e.phase t = .active → e.Usable p → e.Lockable p t →
      Step e (.free t p)
        { ((e.appendFor t { type := .pageFree, pageId := p }).lock p t) with
          deferred := Function.update e.deferred t (e.deferred t ++ [p]) }
  | flushLog {lsn : Lsn} : lsn ≤ e.store.log.appendLsn → Step e (.flushLog lsn) (e.setDurable lsn)
  | flushPage {p : PageId} {page : Page} : e.frame p = some page → e.pageLsn p ≠ invalidLsn →
      (∀ t, p ∉ e.deferred t) → Step e (.flushPage p page) (e.flushFrame p page)
  | evict {p : PageId} : e.pageLsn p = invalidLsn → Step e (.evict p) (e.setFrame p none invalidLsn)
  | commit {t : TxnId} : e.phase t = .active → e.taken t = none →
      Step e (.commit t) ((e.appendFor t { type := .commit }).setPhase t
        (.committing (e.store.log.appendLsn + 1)))
  | commitFlush {t : TxnId} {lsn : Lsn} : e.phase t = .committing lsn →
      Step e (.commitFlush t lsn) ((e.setDurable lsn).setPhase t .committed)
  | cleanup {t : TxnId} {p : PageId} {rest : List PageId} : e.phase t = .committed →
      e.deferred t = p :: rest →
      Step e (.cleanup t p rest)
        { e.deletePage p with deferred := Function.update e.deferred t rest }
  | finish {t : TxnId} : e.phase t = .committed → e.deferred t = [] →
      Step e (.finish t) ((e.unlockAll t).setPhase t .idle)
  | abort {t : TxnId} : e.phase t = .active → e.taken t = none →
      -- the scan of the log repositions its stream, which writes out what it buffers
      Step e (.abort t) ((e.setDurable e.store.log.appendLsn).setPhase t (.aborting (e.lastLsn t)))
  | undo {t : TxnId} {r : LogRecord} : r ∈ e.store.log.records → r.txnId = t →
      e.phase t = .aborting r.lsn →
      Step e (.undo t r) ((e.undoRecord t r).setPhase t (.aborting r.prevLsn))
  | abortAppend {t : TxnId} : e.phase t = .aborting invalidLsn →
      Step e (.abortAppend t) ((e.appendFor t { type := .abort }).setPhase t
        (.aborted (e.store.log.appendLsn + 1)))
  | abortFlush {t : TxnId} {lsn : Lsn} : e.phase t = .aborted lsn →
      Step e (.abortFlush t lsn) (((e.setDurable lsn).unlockAll t).setPhase t .idle)

/-- The whole life of the system: steps while it is up, crashes, and recoveries that
end or are themselves cut off. -/
inductive Life (e : Engine) : Action → Engine → Prop
  | step {a : Action} {e' : Engine} : e.up = true → Step e a e' → Life e a e'
  | crash {k : ℕ} : e.up = true → LogManager.Keeps e.store.log k →
      Life e (.crash k)
        { Engine.start ⟨e.store.disk,crashLog e.store.log k⟩ invalidTxnId with up := false }
  | recoverCut {order : List TxnId → List TxnId} {n k : ℕ} {d : DiskManager} :
      e.up = false → IsOrder order → openExistingFile e.store.disk = .ok d →
      LogManager.Keeps ((recover order).cut n ⟨d,e.store.log⟩).2.log k →
      Life e (.recoverCut order n k)
        { Engine.start ⟨((recover order).cut n ⟨d,e.store.log⟩).2.disk,
            crashLog ((recover order).cut n ⟨d,e.store.log⟩).2.log k⟩ invalidTxnId with up := false }
  | recover {order : List TxnId → List TxnId} {d : DiskManager} {store : Store} :
      e.up = false → IsOrder order → openExistingFile e.store.disk = .ok d →
      (Recovery.recover order).run ⟨d,e.store.log⟩ = (some (.ok ()),store) →
      Life e (.recover order) (Engine.start store (nextTransactionId store.log.records))

end Recovery
end OurSql
