import OurSql.Lock.Modes
import OurSql.Lib.Transition
import Mathlib.Data.List.Basic

/-! The lock manager: one request queue for each resource, all of them under one
mutex. A call of `LockInternal` validates its transaction outside the mutex,
enters the queue in one critical section and then, each time it wakes, looks at
its own request once more in a critical section of its own. -/
namespace OurSql
namespace Lock

inductive TransactionState
  | active | failed | committing | commitUncertain | committed | aborting | aborted
  deriving DecidableEq, Repr

structure LockRequest where
  txnId : TxnId
  tableMode : Bool
  tableLockMode : TableLockMode := .IS
  lockMode : LockMode := .S
  granted : Bool := false
  upgrading : Bool := false
  cancelled : Bool := false
  deriving DecidableEq, Repr

abbrev LockRequestQueue := List LockRequest

/-- The mode the request stands for now; an upgrade overwrites it in place. -/
def LockRequest.mode (r : LockRequest) : Mode :=
  if r.tableMode then .table r.tableLockMode else .page r.lockMode

/-- The request that a call appends to the queue. -/
def LockRequest.new (t : TxnId) : Mode → LockRequest
  | .table m => { txnId := t, tableMode := true, tableLockMode := m }
  | .page m => { txnId := t, tableMode := false, lockMode := m }

def LockRequest.setMode (r : LockRequest) : Mode → LockRequest
  | .table m => { r with tableLockMode := m }
  | .page m => { r with lockMode := m }

/-- `queues_`, `transactions_` and the parts of each `Transaction` that locking
uses. A resource without a queue and one with an empty queue are the same. -/
structure LockState where
  queues : LockId → LockRequestQueue
  registered : TxnId → Bool
  txnState : TxnId → TransactionState
  grantedLocks : TxnId → List LockId

def LockState.initial : LockState :=
  ⟨fun _ => [],fun _ => false,fun _ => .active,fun _ => []⟩

def LockState.isUsableForWork (s : LockState) (t : TxnId) : Bool := s.txnState t = .active

def LockState.setQueue (s : LockState) (l : LockId) (q : LockRequestQueue) : LockState :=
  { s with queues := Function.update s.queues l q }

def LockState.setTxnState (s : LockState) (t : TxnId) (x : TransactionState) : LockState :=
  { s with txnState := Function.update s.txnState t x }

def LockState.setGrantedLocks (s : LockState) (t : TxnId) (ls : List LockId) : LockState :=
  { s with grantedLocks := Function.update s.grantedLocks t ls }

def LockState.register (s : LockState) (t : TxnId) (b : Bool) : LockState :=
  { s with registered := Function.update s.registered t b }

@[simp] theorem setQueue_queues (s : LockState) (l : LockId) (q : LockRequestQueue) :
    (s.setQueue l q).queues = Function.update s.queues l q := rfl
@[simp] theorem setTxnState_queues (s : LockState) (t : TxnId) (x : TransactionState) :
    (s.setTxnState t x).queues = s.queues := rfl
@[simp] theorem setGrantedLocks_queues (s : LockState) (t : TxnId) (ls : List LockId) :
    (s.setGrantedLocks t ls).queues = s.queues := rfl
@[simp] theorem register_queues (s : LockState) (t : TxnId) (b : Bool) :
    (s.register t b).queues = s.queues := rfl

/-- `MarkFailed` leaves every state but `Active` alone. -/
def LockState.markFailed (s : LockState) (t : TxnId) : LockState :=
  if s.txnState t = .active then s.setTxnState t .failed else s

@[simp] theorem markFailed_queues (s : LockState) (t : TxnId) :
    (s.markFailed t).queues = s.queues := by
  unfold LockState.markFailed
  split <;> rfl

def LockState.addGrantedLock (s : LockState) (t : TxnId) (l : LockId) : LockState :=
  s.setGrantedLocks t (if l ∈ s.grantedLocks t then s.grantedLocks t else l :: s.grantedLocks t)

def LockState.removeGrantedLock (s : LockState) (t : TxnId) (l : LockId) : LockState :=
  s.setGrantedLocks t ((s.grantedLocks t).filter (· ≠ l))

@[simp] theorem addGrantedLock_queues (s : LockState) (t : TxnId) (l : LockId) :
    (s.addGrantedLock t l).queues = s.queues := rfl
@[simp] theorem removeGrantedLock_queues (s : LockState) (t : TxnId) (l : LockId) :
    (s.removeGrantedLock t l).queues = s.queues := rfl

def requestConflicts (request other : LockRequest) : Bool :=
  if request.tableMode ≠ other.tableMode then true
  else if request.tableMode then tableModesConflict request.tableLockMode other.tableLockMode
  else lockModesConflict request.lockMode other.lockMode

theorem requestConflicts_eq (r o : LockRequest) :
    requestConflicts r o = r.mode.conflict o.mode := by
  unfold requestConflicts LockRequest.mode
  cases r.tableMode <;> cases o.tableMode <;> simp [Mode.conflict]

def sameRequestedMode (request : LockRequest) : Mode → Bool
  | .table m => request.tableMode && request.tableLockMode = m
  | .page m => !request.tableMode && request.lockMode = m

/-- The two `CanUpgrade` overloads, each on the mode field of its own kind. -/
def canUpgrade (request : LockRequest) : Mode → Bool
  | .table m => canUpgradeTable request.tableLockMode m
  | .page m => canUpgradePage request.lockMode m

def isWaiting (request : LockRequest) : Bool :=
  !request.cancelled && (!request.granted || request.upgrading)

/-- `find_if` by transaction id: the position of the transaction's request. -/
def findRequest (q : LockRequestQueue) (t : TxnId) : Option ℕ := q.findIdx? (·.txnId = t)

/-- Nobody waits in front of the request, and no granted request conflicts with it. -/
def canGrant (q : LockRequestQueue) (i : ℕ) (request : LockRequest) : Bool :=
  (q.take i).all (fun it => it.txnId = request.txnId || !isWaiting it) &&
  q.all (fun it => it.txnId = request.txnId || !it.granted || !requestConflicts request it)

/-- What one critical section of a lock call comes to: it returns, or it waits. -/
inductive Outcome
  | returned (status : Status)
  | waits
  deriving DecidableEq

/-- One turn of the wait loop for the request of `t` at position `i`. -/
def waitLoop (s : LockState) (t : TxnId) (l : LockId) (i : ℕ) (request : LockRequest) :
    Outcome × LockState :=
  let q := s.queues l
  if request.cancelled then
    (.returned (fail .invalidArgument "lock request was cancelled"),s.setQueue l (q.eraseIdx i))
  else if !s.isUsableForWork t then
    (.returned (fail .invalidArgument "transaction was aborted while waiting for a lock"),
      s.setQueue l (q.eraseIdx i))
  else if canGrant q i request then
    (.returned (.ok ()),
      (s.setQueue l (q.set i { request with granted := true, upgrading := false })).addGrantedLock t l)
  else (.waits,s)

/-- The texts by which the two `LockInternal` overloads differ. -/
def invalidUpgrade : Mode → String
  | .table _ => "requested table lock is not a valid upgrade"
  | .page _ => "requested page/key lock is not a valid upgrade"

/-- The first critical section of a call: register the transaction, find or append
its request and take the first turn of the wait loop. -/
def enterQueue (s : LockState) (t : TxnId) (l : LockId) (mode : Mode) : Outcome × LockState :=
  let s := s.register t true
  let q := s.queues l
  match findRequest q t with
  | some i =>
    match q[i]? with
    | none => (.waits,s)
    | some request =>
      if request.granted && !request.upgrading && sameRequestedMode request mode then
        (.returned (.ok ()),s)
      else if !request.granted && !request.upgrading then
        (.returned (fail .alreadyExists "transaction already waits for this lock"),s)
      else if request.upgrading then
        (.returned (fail .alreadyExists "transaction already has a lock upgrade pending"),s)
      else if !canUpgrade request mode then
        (.returned (fail .invalidArgument (invalidUpgrade mode)),s)
      else
        let request := { request.setMode mode with upgrading := true }
        waitLoop (s.setQueue l (q.set i request)) t l i request
  | none =>
    let request := LockRequest.new t mode
    waitLoop (s.setQueue l (q ++ [request])) t l q.length request

/-- A waiting call that wakes up takes one more turn. Its request is the one that
is not granted or is being upgraded; a request of any other kind has no waiter. -/
def wake (s : LockState) (t : TxnId) (l : LockId) : Option (Outcome × LockState) :=
  match findRequest (s.queues l) t with
  | none => none
  | some i =>
    match (s.queues l)[i]? with
    | none => none
    | some request =>
      if !request.granted || request.upgrading then some (waitLoop s t l i request) else none

/-- What both `LockInternal` overloads check before they take the mutex. -/
def validateCall (s : LockState) (t : TxnId) (l : LockId) (mode : Mode) : Status :=
  if !s.isUsableForWork t then
    fail .invalidArgument "lock request requires an Active transaction"
  else match mode with
    | .table _ =>
      if !isTableResource l.type then
        fail .invalidArgument "table lock mode used for a non-table resource"
      else .ok ()
    | .page _ =>
      if isTableResource l.type then
        fail .invalidArgument "page/key lock mode used for a table resource"
      else .ok ()

/-- A waiting request keeps its entry and is only marked, a granted one is erased. -/
def LockRequest.cancel (r : LockRequest) : LockRequest :=
  { r with cancelled := true, granted := false, upgrading := false }

def releaseAt (q : LockRequestQueue) (i : ℕ) (request : LockRequest) : LockRequestQueue :=
  if !request.granted || request.upgrading then q.set i request.cancel else q.eraseIdx i

def unlock (s : LockState) (t : TxnId) (l : LockId) : Status × LockState :=
  match s.queues l with
  | [] => (fail .notFound "lock resource is not present",s)
  | q =>
    match findRequest q t with
    | none => (fail .notFound "transaction does not hold the requested lock",s)
    | some i =>
      match q[i]? with
      | none => (fail .notFound "transaction does not hold the requested lock",s)
      | some request =>
        (.ok (),(s.setQueue l (releaseAt q i request)).removeGrantedLock t l)

/-- `UnlockAll` on one queue. -/
def releaseAll (t : TxnId) (q : LockRequestQueue) : LockRequestQueue :=
  q.filterMap fun r =>
    if r.txnId = t then
      if !r.granted || r.upgrading then some r.cancel else none
    else some r

def unlockAll (s : LockState) (t : TxnId) : LockState :=
  ({ s with queues := fun l => releaseAll t (s.queues l) }.register t false).setGrantedLocks t []

/-- The edges a waiting request at position `i` adds to the wait-for graph. -/
def blockers (q : LockRequestQueue) (i : ℕ) (request : LockRequest) : List TxnId :=
  q.zipIdx.filterMap fun (other,j) =>
    if other.txnId ≠ request.txnId && requestConflicts request other && (other.granted || j < i)
    then some other.txnId else none

def queueEdges (s : LockState) (q : LockRequestQueue) : List (TxnId × List TxnId) :=
  q.zipIdx.filterMap fun (request,i) =>
    if isWaiting request && s.isUsableForWork request.txnId
    then some (request.txnId,blockers q i request) else none

/-- The wait-for graph over the queues, in the order in which the hash map visits them. -/
def waitForGraph (s : LockState) (order : List LockId) : List (TxnId × List TxnId) :=
  order.flatMap fun l => queueEdges s (s.queues l)

def successors (graph : List (TxnId × List TxnId)) (t : TxnId) : List TxnId :=
  (graph.filter (·.1 = t)).flatMap (·.2)

/-- Colours of the depth-first search: 0 unseen, 1 on the path, 2 finished. -/
structure Search where
  color : TxnId → ℕ
  path : List TxnId

def visitEach (visit : Search → TxnId → Option TxnId × Search) :
    List TxnId → Search → Option TxnId × Search
  | [], st => (none,st)
  | next::rest, st =>
    let r := if st.color next = 0 then visit st next else (none,st)
    match r.1 with
    | some victim => (some victim,r.2)
    | none =>
      if r.2.color next = 1 then
        (some ((r.2.path.dropWhile (· ≠ next)).foldl max 0),r.2)
      else visitEach visit rest r.2

def visit (graph : List (TxnId × List TxnId)) : ℕ → Search → TxnId → Option TxnId × Search
  | 0, st, _ => (none,st)
  | fuel+1, st, node =>
    let st := ⟨Function.update st.color node 1,st.path ++ [node]⟩
    let r := visitEach (visit graph fuel) (successors graph node) st
    match r.1 with
    | some victim => (some victim,r.2)
    | none => (none,⟨Function.update r.2.color node 2,r.2.path.dropLast⟩)

def visitRoots (graph : List (TxnId × List TxnId)) (fuel : ℕ) :
    List TxnId → Search → Option TxnId
  | [], _ => none
  | node::rest, st =>
    if st.color node = 0 then
      let r := visit graph fuel st node
      match r.1 with
      | some victim => some victim
      | none => visitRoots graph fuel rest r.2
    else visitRoots graph fuel rest st

/-- Every recursive call colours one more node, so the nodes bound the depth. -/
def findDeadlockVictim (s : LockState) (order : List LockId) : Option TxnId :=
  let graph := waitForGraph s order
  let fuel := graph.length + (graph.flatMap (·.2)).length + 1
  visitRoots graph fuel (graph.map (·.1)) ⟨fun _ => 0,[]⟩

def detectDeadlocks (s : LockState) (order : List LockId) : List TxnId × LockState :=
  match findDeadlockVictim s order with
  | none => ([],s)
  | some victim => if s.registered victim then ([victim],s.markFailed victim) else ([],s)

/-- A call that passed its checks and has not entered the queue yet. -/
structure Call where
  txnId : TxnId
  lockId : LockId
  mode : Mode
  deriving DecidableEq, Repr

structure System where
  lm : LockState
  pending : List Call

/-- The steps of any number of threads. `transition` is whatever the transaction
manager does to a transaction's own state between two critical sections. -/
inductive Action
  | call (c : Call)
  | enter (c : Call)
  | wake (t : TxnId) (l : LockId)
  | unlock (t : TxnId) (l : LockId)
  | unlockAll (t : TxnId)
  | detectDeadlocks (order : List LockId)
  | transition (t : TxnId) (x : TransactionState)

def System.next (s : System) : Action → Option System
  | .call c =>
    match validateCall s.lm c.txnId c.lockId c.mode with
    | .ok () => some { s with pending := c :: s.pending }
    | .error _ => some s
  | .enter c =>
    if c ∈ s.pending then
      some ⟨(enterQueue s.lm c.txnId c.lockId c.mode).2,s.pending.erase c⟩
    else none
  | .wake t l => (OurSql.Lock.wake s.lm t l).map fun r => { s with lm := r.2 }
  | .unlock t l => some { s with lm := (OurSql.Lock.unlock s.lm t l).2 }
  | .unlockAll t => some { s with lm := OurSql.Lock.unlockAll s.lm t }
  | .detectDeadlocks order => some { s with lm := (OurSql.Lock.detectDeadlocks s.lm order).2 }
  | .transition t x => some { s with lm := s.lm.setTxnState t x }

def System.initial : System := ⟨.initial,[]⟩

end Lock
end OurSql
