import OurSql.Lock.TwoPhase
import OurSql.Storage.Log

/-! The transaction manager. `Commit` and `Abort` drop every mutex between the
sections that change shared state, so each is a chain of stages and any number
of threads may stand at one. What the storage layer does inside a stage either
works or fails. -/
namespace OurSql
namespace Transaction

open Lock Storage

/-- The manager, the log, and the parts of each `Transaction` that outlive a
stage. `undone` remembers that an undo of the transaction ran to its end. -/
structure Manager where
  locks : Owed
  log : LogManager
  nextTxnId : TxnId
  owned : TxnId → Bool
  lastLsn : TxnId → Lsn
  commitLsn : TxnId → Lsn
  activeWriteGuards : TxnId → ℕ
  undone : TxnId → Bool

def Manager.initial : Manager where
  locks := Owed.initial
  log := LogManager.empty
  nextTxnId := 1
  owned := fun _ => false
  lastLsn := fun _ => invalidLsn
  commitLsn := fun _ => invalidLsn
  activeWriteGuards := fun _ => 0
  undone := fun _ => false

/-- The next section a thread inside `Commit` or `Abort` enters. -/
inductive Stage
  | commitGuards | commitAppend | commitFlush (lsn : Lsn) | commitRetry (lsn : Lsn)
  | commitCleanup | commitUnlock | commitRemove
  | abortUndo | abortAppend | abortFlush (lsn : Lsn) | abortUnlock | abortRemove
  deriving DecidableEq, Repr

/-- A section either leads on to the next one or returns. -/
inductive Progress
  | stage (next : Stage)
  | done (status : Status)
  deriving DecidableEq

def Manager.state (m : Manager) (t : TxnId) : TransactionState := m.locks.sys.lm.txnState t

/-- Every change of the locks and of a transaction's state is a step of the lock system. -/
def Manager.lock (m : Manager) (a : Lock.Action) : Manager :=
  { m with locks := (m.locks.next a).getD m.locks }

def Manager.setState (m : Manager) (t : TxnId) (x : TransactionState) : Manager :=
  m.lock (.transition t x)

/-- `AppendFor` with a log that takes the record. -/
def Manager.appendFor (m : Manager) (t : TxnId) (type : LogRecordType) : Manager :=
  { m with
    log := m.log.push { type := type, txnId := t, prevLsn := m.lastLsn t }
    lastLsn := Function.update m.lastLsn t (m.log.appendLsn + 1) }

/-- A successful `Flush` up to `lsn`. -/
def Manager.flush (m : Manager) (lsn : Lsn) : Manager :=
  { m with log := { m.log with durableLsn := max m.log.durableLsn lsn } }

/-- The fields of a new `Transaction` object. -/
def Manager.newTransaction (m : Manager) (t : TxnId) : Manager :=
  { m.setState t .active with
    lastLsn := Function.update m.lastLsn t invalidLsn
    commitLsn := Function.update m.commitLsn t invalidLsn
    activeWriteGuards := Function.update m.activeWriteGuards t 0 }

/-- `BeginInternal`: a new transaction, its Begin record, then the entry in the
table of active transactions. -/
def Manager.begin (m : Manager) (answer : Status) : Result TxnId × Manager :=
  let t := m.nextTxnId
  let m := { m.newTransaction t with nextTxnId := t + 1 }
  match answer with
  | .ok () => (.ok t,{ m.appendFor t .begin with owned := Function.update m.owned t true })
  | .error e => (.error e,m)

/-- `Commit` up to the change of state that reserves the transaction. -/
def Manager.commit (m : Manager) (t : TxnId) : Progress × Manager :=
  if !m.owned t then
    (.done (fail .notFound "transaction is not active in this manager"),m)
  else match m.state t with
    | .committed => (.stage .commitCleanup,m)
    | .commitUncertain =>
      if m.commitLsn t = invalidLsn then
        (.done (fail .internalError "CommitUncertain transaction has no commit LSN"),m)
      else (.stage (.commitRetry (m.commitLsn t)),m)
    | .failed => (.done (fail .invalidArgument "a Failed transaction must be aborted"),m)
    | .active => (.stage .commitGuards,m.setState t .committing)
    | _ => (.done (fail .invalidArgument "only one Active transaction can commit"),m)

/-- `Abort` up to the change of state that reserves the transaction. -/
def Manager.abort (m : Manager) (t : TxnId) : Progress × Manager :=
  if !m.owned t then
    (.done (fail .notFound "transaction is not active in this manager"),m)
  else match m.state t with
    | .committed | .commitUncertain =>
      (.done (fail .invalidArgument
        "a committed or CommitUncertain transaction cannot roll back"),m)
    | .aborted => (.done (fail .invalidArgument "transaction has already been aborted"),m)
    | .committing | .aborting =>
      if m.activeWriteGuards t ≠ 0 then
        (.done (fail .invalidArgument
          "cannot roll back while a write page guard is still held"),m)
      else (.done (fail .invalidArgument "transaction is already being finalized"),m)
    | .active | .failed =>
      if m.activeWriteGuards t ≠ 0 then
        (.done (fail .invalidArgument
          "cannot roll back while a write page guard is still held"),m)
      else (.stage .abortUndo,m.setState t .aborting)

/-- One section of `Commit`, `FinalizeCommittedCleanup` or `Abort`; `answer` is what
the log, the undo or the page frees it needs come back with. -/
def Manager.advance (m : Manager) (t : TxnId) (answer : Status) : Stage → Progress × Manager
  | .commitGuards =>
    if m.activeWriteGuards t ≠ 0 then
      (.done (fail .invalidArgument "cannot commit while a write page guard is still held"),
        m.setState t .active)
    else (.stage .commitAppend,m)
  | .commitAppend =>
    match answer with
    | .ok () =>
      let lsn := m.log.appendLsn + 1
      let m := m.appendFor t .commit
      (.stage (.commitFlush lsn),{ m with commitLsn := Function.update m.commitLsn t lsn })
    | .error e => (.done (.error e),m.setState t .failed)
  | .commitFlush lsn =>
    match answer with
    | .ok () => (.stage .commitCleanup,(m.flush lsn).setState t .committed)
    | .error e =>
      (.done (fail .ioError ("COMMIT WAL durability is uncertain; retry COMMIT: " ++ e.message)),
        m.setState t .commitUncertain)
  | .commitRetry lsn =>
    match answer with
    | .ok () => (.stage .commitCleanup,(m.flush lsn).setState t .committed)
    | .error e =>
      (.done (fail .ioError ("COMMIT WAL durability is still uncertain: " ++ e.message)),m)
  | .commitCleanup =>
    if !m.owned t || m.state t ≠ .committed then
      (.done (fail .invalidArgument "committed cleanup requires a committed transaction"),m)
    else match answer with
      | .ok () => (.stage .commitUnlock,m)
      | .error e =>
        (.done (fail .ioError ("transaction committed; cleanup pending for page " ++ e.message)),m)
  | .commitUnlock => (.stage .commitRemove,m.lock (.unlockAll t))
  | .commitRemove => (.done (.ok ()),{ m with owned := Function.update m.owned t false })
  | .abortUndo =>
    match answer with
    | .ok () => (.stage .abortAppend,{ m with undone := Function.update m.undone t true })
    | .error e =>
      (.done (fail .ioError ("transaction undo failed: " ++ e.message)),m.setState t .failed)
  | .abortAppend =>
    match answer with
    | .ok () => (.stage (.abortFlush (m.log.appendLsn + 1)),m.appendFor t .abort)
    | .error e => (.done (.error e),m.setState t .failed)
  | .abortFlush lsn =>
    match answer with
    | .ok () => (.stage .abortUnlock,(m.flush lsn).setState t .aborted)
    | .error e =>
      (.done (fail .ioError ("ABORT WAL was not durable: " ++ e.message)),m.setState t .failed)
  | .abortUnlock => (.stage .abortRemove,m.lock (.unlockAll t))
  | .abortRemove => (.done (.ok ()),{ m with owned := Function.update m.owned t false })

section Fields

variable (m : Manager) (t u : TxnId)

@[simp] theorem lock_log (a : Lock.Action) : (m.lock a).log = m.log := rfl
@[simp] theorem lock_owned (a : Lock.Action) : (m.lock a).owned = m.owned := rfl
@[simp] theorem lock_undone (a : Lock.Action) : (m.lock a).undone = m.undone := rfl
@[simp] theorem lock_commitLsn (a : Lock.Action) : (m.lock a).commitLsn = m.commitLsn := rfl
@[simp] theorem lock_activeWriteGuards (a : Lock.Action) :
    (m.lock a).activeWriteGuards = m.activeWriteGuards := rfl
@[simp] theorem lock_nextTxnId (a : Lock.Action) : (m.lock a).nextTxnId = m.nextTxnId := rfl
@[simp] theorem setState_log (x : TransactionState) : (m.setState t x).log = m.log := rfl
@[simp] theorem setState_owned (x : TransactionState) : (m.setState t x).owned = m.owned := rfl
@[simp] theorem setState_undone (x : TransactionState) : (m.setState t x).undone = m.undone := rfl
@[simp] theorem setState_commitLsn (x : TransactionState) :
    (m.setState t x).commitLsn = m.commitLsn := rfl
@[simp] theorem setState_activeWriteGuards (x : TransactionState) :
    (m.setState t x).activeWriteGuards = m.activeWriteGuards := rfl
@[simp] theorem setState_nextTxnId (x : TransactionState) :
    (m.setState t x).nextTxnId = m.nextTxnId := rfl
@[simp] theorem setState_owed (x : TransactionState) :
    (m.setState t x).locks.owed = m.locks.owed := rfl
@[simp] theorem appendFor_locks (k : LogRecordType) : (m.appendFor t k).locks = m.locks := rfl
@[simp] theorem appendFor_owned (k : LogRecordType) : (m.appendFor t k).owned = m.owned := rfl
@[simp] theorem appendFor_undone (k : LogRecordType) : (m.appendFor t k).undone = m.undone := rfl
@[simp] theorem appendFor_state (k : LogRecordType) : (m.appendFor t k).state = m.state := rfl
@[simp] theorem flush_locks (lsn : Lsn) : (m.flush lsn).locks = m.locks := rfl
@[simp] theorem flush_state (lsn : Lsn) : (m.flush lsn).state = m.state := rfl

theorem setState_state (x : TransactionState) :
    (m.setState t x).state = Function.update m.state t x := rfl

end Fields

/-- The outcome of `t` is in the log for good: its Commit record, or its undo and
its Abort record. -/
def Manager.Finished (m : Manager) (t : TxnId) : Prop :=
  (∃ r ∈ m.log.records, r.txnId = t ∧ r.type = .commit ∧ r.lsn ≤ m.log.durableLsn) ∨
    (m.undone t = true ∧
      ∃ r ∈ m.log.records, r.txnId = t ∧ r.type = .abort ∧ r.lsn ≤ m.log.durableLsn)

end Transaction
end OurSql
