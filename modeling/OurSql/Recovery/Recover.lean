import OurSql.Storage.FreeList

/-! `RecoveryManager::Recover`: analysis of the log, redo of the winners and of the
compensation records of unfinished losers, undo of the losers from one heap of
log numbers, and the Abort records. -/
namespace OurSql
namespace Recovery

open Crash Storage

structure RecoveryTransaction where
  lastLsn : Lsn := invalidLsn
  terminal : Bool := false
  terminalType : LogRecordType := .checkpoint
  terminalLsn : Lsn := invalidLsn

def RecoveryTransaction.note (transaction : RecoveryTransaction) (record : LogRecord) :
    RecoveryTransaction :=
  let transaction := { transaction with lastLsn := max transaction.lastLsn record.lsn }
  if (record.type = .commit || record.type = .abort) && transaction.terminalLsn ≤ record.lsn then
    { transaction with
      terminal := true, terminalType := record.type, terminalLsn := record.lsn }
  else transaction

abbrev Transactions := TxnId → Option RecoveryTransaction

def noteRecord (transactions : Transactions) (record : LogRecord) : Transactions :=
  if record.txnId = invalidTxnId then transactions
  else Function.update transactions record.txnId
    (some (((transactions record.txnId).getD {}).note record))

def analyze (records : List LogRecord) : Transactions := records.foldl noteRecord fun _ => none

def isWinner (transactions : Transactions) (t : TxnId) : Bool :=
  match transactions t with
  | some transaction => transaction.terminal && transaction.terminalType = .commit
  | none => false

def isLoser (transactions : Transactions) (t : TxnId) : Bool :=
  match transactions t with
  | some transaction => !transaction.terminal
  | none => false

/-- The keys of the transaction table. -/
def transactionIds (records : List LogRecord) : List TxnId :=
  ((records.map (·.txnId)).filter (· ≠ invalidTxnId)).dedup

def writeImage (p : PageId) (image : Option Page) : Prog Store Status :=
  match image with
  | none => return fail .invalidArgument "recovery requires one full page image"
  | some page => writePage p page

def deallocateIdempotent (p : PageId) : Prog Store Status := do
  match ← deallocatePage p with
  | .error ⟨.alreadyExists,_⟩ => return .ok ()
  | status => return status

/-- `PageFree` is deferred until the cleanup after a commit, so a loser never applied it. -/
def redoCompensation (record : LogRecord) : Prog Store Status :=
  match record.compensationType with
  | .pageUpdate => writeImage record.pageId record.afterImage
  | .pageAllocate => deallocateIdempotent record.pageId
  | .pageFree => return .ok ()
  | _ => return fail .invalidArgument "recovery CLR target type is invalid"

def redoRecord (transactions : Transactions) (record : LogRecord) : Prog Store Status :=
  if !isWinner transactions record.txnId &&
      !(isLoser transactions record.txnId && record.type = .compensation) then
    return .ok ()
  else match record.type with
    | .pageUpdate => writeImage record.pageId record.afterImage
    | .pageFree => deallocateIdempotent record.pageId
    | .compensation => redoCompensation record
    | _ => return .ok ()

def redo (transactions : Transactions) : List LogRecord → Prog Store Status
  | [] => return .ok ()
  | record::rest => do
    match ← redoRecord transactions record with
    | .error e =>
      return fail .ioError ("committed redo failed at LSN " ++ toString record.lsn ++ ": " ++
        e.message)
    | .ok () => redo transactions rest

def append (record : LogRecord) : Prog Store (Result Lsn) := do
  match encodeCheck record with
  | .error e => return .error e
  | .ok () =>
    let s ← get
    effect (Store.push · record)
    return .ok (s.log.appendLsn + 1)

def flush (target : Lsn) : Prog Store Status := do
  let s ← get
  if s.log.appendLsn < target then
    return fail .invalidArgument "WAL flush target exceeds append LSN"
  else if target ≤ s.log.durableLsn then return .ok ()
  else
    effect (Store.setDurable · target)
    return .ok ()

/-- The larger of two heap entries, which order by number and then by transaction. -/
def pairLess (a b : Lsn × TxnId) : Bool := a.1 < b.1 || (a.1 = b.1 && a.2 < b.2)

def top : List (Lsn × TxnId) → Option (Lsn × TxnId)
  | [] => none
  | x::xs =>
    match top xs with
    | none => some x
    | some y => if pairLess x y then some y else some x

/-- `transactions[..].last_lsn` of the losers, and `recovery_last_lsn`. -/
structure Progress where
  lastLsn : TxnId → Lsn
  recoveryLastLsn : Lsn

def Progress.advance (pr : Progress) (t : TxnId) (lsn : Lsn) : Progress :=
  ⟨Function.update pr.lastLsn t lsn,max pr.recoveryLastLsn lsn⟩

structure UndoState where
  pending : List (Lsn × TxnId)
  nextLsn : TxnId → Lsn
  progress : Progress

def UndoState.follow (u : UndoState) (t : TxnId) (followingLsn : Lsn) : UndoState :=
  { u with
    nextLsn := Function.update u.nextLsn t followingLsn
    pending := if followingLsn = invalidLsn then u.pending else (followingLsn,t) :: u.pending }

/-- The compensation record of `record`. -/
def compensationOf (pr : Progress) (record : LogRecord) : LogRecord where
  type := .compensation
  txnId := record.txnId
  prevLsn := pr.lastLsn record.txnId
  pageId := record.pageId
  undoNextLsn := record.prevLsn
  compensationType := record.type
  afterImage := if record.type = .pageUpdate then record.beforeImage else none

def undoImage (record : LogRecord) : Prog Store Status :=
  match record.type with
  | .pageUpdate => writeImage record.pageId record.beforeImage
  | .pageAllocate => deallocateIdempotent record.pageId
  | _ => return .ok ()

/-- Log the compensation of one record first, then undo it on the file. -/
def undoRecord (pr : Progress) (record : LogRecord) : Prog Store (Result Progress) := do
  match ← append (compensationOf pr record) with
  | .error e =>
    return fail .ioError ("recovery CLR append failed for transaction " ++
      toString record.txnId ++ ": " ++ e.message)
  | .ok lsn =>
    match ← undoImage record with
    | .error e =>
      return fail .ioError ("loser undo failed at LSN " ++ toString record.lsn ++ ": " ++ e.message)
    | .ok () => return .ok (pr.advance record.txnId lsn)

def isUndoable (record : LogRecord) : Bool :=
  record.type = .pageUpdate || record.type = .pageAllocate || record.type = .pageFree

/-- `records_by_lsn`. -/
def recordsByLsn (records : List LogRecord) (lsn : Lsn) : Option LogRecord :=
  records.find? (·.lsn = lsn)

/-- The undo loop. A turn takes the largest number off the heap; the numbers go
down, so a turn for each record and one more are enough. -/
def undoLoop (records : List LogRecord) : ℕ → UndoState → Prog Store (Result Progress)
  | 0, _ => return fail .internalError "undo did not come to an end"
  | fuel+1, u =>
    match top u.pending with
    | none => return .ok u.progress
    | some (currentLsn,t) =>
      let u := { u with pending := u.pending.erase (currentLsn,t) }
      if u.nextLsn t ≠ currentLsn then undoLoop records fuel u
      else match recordsByLsn records currentLsn with
        | none =>
          return fail .ioError ("loser transaction WAL chain is broken at LSN " ++
            toString currentLsn)
        | some record =>
          if record.txnId ≠ t then
            return fail .ioError ("loser transaction WAL chain is broken at LSN " ++
              toString currentLsn)
          else if record.type = .compensation then
            undoLoop records fuel (u.follow t record.undoNextLsn)
          else if isUndoable record then do
            match ← undoRecord u.progress record with
            | .error e => return .error e
            | .ok pr => undoLoop records fuel ({ u with progress := pr }.follow t record.prevLsn)
          else undoLoop records fuel (u.follow t record.prevLsn)

def abortOf (pr : Progress) (t : TxnId) : LogRecord where
  type := .abort
  txnId := t
  prevLsn := pr.lastLsn t

def appendAborts (pr : Progress) : List TxnId → Lsn → Prog Store (Result Lsn)
  | [], last => return .ok last
  | t::rest, last => do
    match ← append (abortOf pr t) with
    | .error e =>
      return fail .ioError ("recovery Abort append failed for transaction " ++ toString t ++ ": " ++
        e.message)
    | .ok lsn => appendAborts pr rest (max last lsn)

def startUndo (transactions : Transactions) (losers : List TxnId) : UndoState :=
  let last := fun t => ((transactions t).getD {}).lastLsn
  { pending := (losers.filter fun t => last t ≠ invalidLsn).map fun t => (last t,t)
    nextLsn := fun t => if t ∈ losers then last t else invalidLsn
    progress := ⟨last,invalidLsn⟩ }

/-- The losers, in the order in which their hash set is visited. -/
def losersOf (order : List TxnId → List TxnId) (records : List LogRecord) : List TxnId :=
  order ((transactionIds records).filter (isLoser (analyze records)))

/-- `order` is the order in which the hash set of the losers is visited. -/
def recover (order : List TxnId → List TxnId) : Prog Store Status := do
  let s ← get
  match s.log.scan with
  | .error e => return fail .ioError ("WAL recovery scan failed: " ++ e.message)
  | .ok records =>
    let transactions := analyze records
    let losers := losersOf order records
    match ← redo transactions records with
    | .error e => return .error e
    | .ok () =>
      match ← undoLoop records (records.length+1) (startUndo transactions losers) with
      | .error e => return .error e
      | .ok pr =>
        match ← appendAborts pr losers pr.recoveryLastLsn with
        | .error e => return .error e
        | .ok last =>
          let s ← get
          match ← flush (max last s.log.appendLsn) with
          | .error e => return fail .ioError ("recovery WAL flush failed: " ++ e.message)
          | .ok () => return .ok ()

end Recovery
end OurSql
