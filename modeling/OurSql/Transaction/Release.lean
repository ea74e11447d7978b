import OurSql.Transaction.Manager

/-! Any number of threads inside `Commit` and `Abort`, beside lock calls and the
deadlock detector. Locks go only once the outcome of their transaction is in the
log: after its durable Commit record, or after its undo and durable Abort record. -/
namespace OurSql
namespace Transaction

open Transition Lock Storage

/-- The manager and the threads that stand inside `Commit` or `Abort`. -/
structure Threads where
  manager : Manager
  jobs : List (TxnId × Stage)

def Threads.initial : Threads := ⟨.initial,[]⟩

inductive Event
  | call (c : Lock.Call)
  | enter (c : Lock.Call)
  | wake (t : TxnId) (l : LockId)
  | detectDeadlocks (order : List LockId)
  | begin (answer : Status)
  | work (t : TxnId) (type : LogRecordType)
  | guards (t : TxnId) (count : ℕ)
  | markFailed (t : TxnId)
  | commit (t : TxnId)
  | abort (t : TxnId)
  | advance (t : TxnId) (stage : Stage) (answer : Status)

def Threads.spawn (x : Threads) (t : TxnId) (r : Progress × Manager) : Threads :=
  match r.1 with
  | .stage next => ⟨r.2,(t,next) :: x.jobs⟩
  | .done _ => ⟨r.2,x.jobs⟩

def isPageRecord (type : LogRecordType) : Bool :=
  type = .pageUpdate || type = .pageAllocate || type = .pageFree

def Threads.lock (x : Threads) (a : Lock.Action) : Option Threads :=
  (x.manager.locks.next a).map fun locks => { x with manager := { x.manager with locks := locks } }

def Threads.next (x : Threads) : Event → Option Threads
  | .call c => x.lock (.call c)
  | .enter c => x.lock (.enter c)
  | .wake t l => x.lock (.wake t l)
  | .detectDeadlocks order => x.lock (.detectDeadlocks order)
  | .begin answer => some { x with manager := (x.manager.begin answer).2 }
  | .work t type =>
    if x.manager.state t = .active && isPageRecord type then
      some { x with manager := x.manager.appendFor t type }
    else none
  | .guards t count =>
    some { x with manager := { x.manager with
      activeWriteGuards := Function.update x.manager.activeWriteGuards t count } }
  | .markFailed t =>
    if x.manager.state t = .active then some { x with manager := x.manager.setState t .failed }
    else some x
  | .commit t => some (x.spawn t (x.manager.commit t))
  | .abort t => some (x.spawn t (x.manager.abort t))
  | .advance t stage answer =>
    if (t,stage) ∈ x.jobs then
      some (({ x with jobs := x.jobs.erase (t,stage) } : Threads).spawn t
        (x.manager.advance t answer stage))
    else none

def Logged (m : Manager) (t : TxnId) (type : LogRecordType) (lsn : Lsn) : Prop :=
  ∃ r ∈ m.log.records, r.txnId = t ∧ r.type = type ∧ r.lsn = lsn

def Durable (m : Manager) (t : TxnId) (type : LogRecordType) : Prop :=
  ∃ r ∈ m.log.records, r.txnId = t ∧ r.type = type ∧ r.lsn ≤ m.log.durableLsn

/-- What is known about the transaction of a thread at a stage. -/
def Ready (m : Manager) (t : TxnId) : Stage → Prop
  | .commitFlush lsn | .commitRetry lsn => Logged m t .commit lsn
  | .commitUnlock | .commitRemove => Durable m t .commit
  | .abortAppend => m.undone t = true
  | .abortFlush lsn => m.undone t = true ∧ Logged m t .abort lsn
  | .abortUnlock | .abortRemove => m.undone t = true ∧ Durable m t .abort
  | _ => True

structure Facts (m : Manager) : Prop where
  committed : ∀ t, m.state t = .committed → Durable m t .commit
  commitLsn : ∀ t, m.commitLsn t ≠ invalidLsn → Logged m t .commit (m.commitLsn t)

/-- Nothing is ever taken from the log, made less durable or undone less. -/
structure Extends (m m' : Manager) : Prop where
  records : ∀ r ∈ m.log.records, r ∈ m'.log.records
  durable : m.log.durableLsn ≤ m'.log.durableLsn
  undone : ∀ t, m.undone t = true → m'.undone t = true

theorem Extends.of_eq {m m' : Manager} (hl : m'.log = m.log) (hu : m'.undone = m.undone) :
    Extends m m' :=
  ⟨fun r hr => hl ▸ hr,by rw [hl],fun t ht => hu ▸ ht⟩

theorem extends_appendFor (m : Manager) (t : TxnId) (k : LogRecordType) :
    Extends m (m.appendFor t k) :=
  ⟨fun r hr => by simp [Manager.appendFor,LogManager.push,hr],le_rfl,fun _ h => h⟩

theorem extends_flush (m : Manager) (lsn : Lsn) : Extends m (m.flush lsn) :=
  ⟨fun _ hr => hr,le_max_left _ _,fun _ h => h⟩

section Extends

variable {m m' : Manager} {t : TxnId} {k : LogRecordType} {lsn : Lsn}

theorem Logged.extends (h : Logged m t k lsn) (he : Extends m m') : Logged m' t k lsn := by
  obtain ⟨r,hr,hrest⟩ := h
  exact ⟨r,he.records r hr,hrest⟩

theorem Durable.extends (h : Durable m t k) (he : Extends m m') : Durable m' t k := by
  obtain ⟨r,hr,ht,hk,hl⟩ := h
  exact ⟨r,he.records r hr,ht,hk,hl.trans he.durable⟩

theorem Ready.extends {s : Stage} (h : Ready m t s) (he : Extends m m') : Ready m' t s := by
  cases s with
  | commitFlush lsn => exact Logged.extends h he
  | commitRetry lsn => exact Logged.extends h he
  | commitUnlock => exact Durable.extends h he
  | commitRemove => exact Durable.extends h he
  | abortAppend => exact he.undone t h
  | abortFlush lsn => exact ⟨he.undone t h.1,h.2.extends he⟩
  | abortUnlock => exact ⟨he.undone t h.1,h.2.extends he⟩
  | abortRemove => exact ⟨he.undone t h.1,h.2.extends he⟩
  | _ => trivial

theorem logged_appendFor (m : Manager) (t : TxnId) (k : LogRecordType) :
    Logged (m.appendFor t k) t k (m.log.appendLsn + 1) :=
  ⟨_,by simp only [Manager.appendFor,LogManager.push,List.mem_append,List.mem_singleton]
        exact .inr rfl,rfl,rfl,rfl⟩

theorem Logged.flush (h : Logged m t k lsn) : Durable (m.flush lsn) t k := by
  obtain ⟨r,hr,ht,hk,hl⟩ := h
  exact ⟨r,hr,ht,hk,hl.le.trans (le_max_right _ _)⟩

theorem Facts.extends (h : Facts m) (he : Extends m m')
    (hs : ∀ t, m'.state t = .committed → m.state t = .committed)
    (hc : m'.commitLsn = m.commitLsn) : Facts m' where
  committed t ht := (h.committed t (hs t ht)).extends he
  commitLsn t ht := by
    rw [hc] at ht ⊢
    exact (h.commitLsn t ht).extends he

/-- A change of one state to anything but `Committed`. -/
theorem Facts.setState {x : TransactionState} (h : Facts m) (hx : x ≠ .committed) :
    Facts (m.setState t x) := by
  refine h.extends (.of_eq rfl rfl) (fun u hu => ?_) rfl
  rw [setState_state] at hu
  by_cases ht : u = t
  · subst ht
    simp [hx] at hu
  · simpa [ht] using hu

end Extends

theorem waitLoop_txnState (s : LockState) (t : TxnId) (l : LockId) (i : ℕ) (r : LockRequest) :
    (waitLoop s t l i r).2.txnState = s.txnState := by
  unfold waitLoop
  simp only
  split
  · rfl
  split
  · rfl
  split <;> rfl

theorem enterQueue_txnState (s : LockState) (t : TxnId) (l : LockId) (mode : Mode) :
    (enterQueue s t l mode).2.txnState = s.txnState := by
  unfold enterQueue
  simp only
  split
  · split
    · rfl
    split
    · rfl
    split
    · rfl
    split
    · rfl
    split
    · rfl
    · exact waitLoop_txnState _ _ _ _ _
  · exact waitLoop_txnState _ _ _ _ _

theorem markFailed_txnState (s : LockState) (v t : TxnId) :
    (s.markFailed v).txnState t = s.txnState t ∨
      (s.txnState t = .active ∧ (s.markFailed v).txnState t = .failed) := by
  unfold LockState.markFailed
  split
  · rename_i hv
    by_cases ht : t = v
    · subst ht
      exact .inr ⟨hv,by simp [LockState.setTxnState]⟩
    · exact .inl (by simp [LockState.setTxnState,ht])
  · exact .inl rfl

/-- The lock manager itself only ever turns an active transaction into a failed one. -/
theorem next_txnState {s s' : System} {a : Lock.Action} (h : s.next a = some s')
    (ha : ∀ t x, a ≠ .transition t x) (t : TxnId) :
    s'.lm.txnState t = s.lm.txnState t ∨
      (s.lm.txnState t = .active ∧ s'.lm.txnState t = .failed) := by
  cases a with
  | call c =>
    simp only [System.next] at h
    split at h <;> cases h <;> exact .inl rfl
  | enter c =>
    simp only [System.next] at h
    split at h
    · cases h
      exact .inl (by rw [enterQueue_txnState])
    · cases h
  | wake u l =>
    simp only [System.next,Option.map_eq_some_iff] at h
    obtain ⟨r,hr,rfl⟩ := h
    unfold Lock.wake at hr
    split at hr
    · cases hr
    split at hr
    · cases hr
    split at hr
    · cases hr
      exact .inl (by rw [waitLoop_txnState])
    · cases hr
  | unlock u l =>
    cases h
    refine .inl ?_
    simp only [Lock.unlock]
    split
    · rfl
    split
    · rfl
    split <;> rfl
  | unlockAll u => cases h; exact .inl rfl
  | detectDeadlocks order =>
    cases h
    simp only [Lock.detectDeadlocks]
    split
    · exact .inl rfl
    split
    · exact markFailed_txnState _ _ _
    · exact .inl rfl
  | transition u x => exact absurd rfl (ha u x)

theorem Manager.lock_state {m : Manager} {a : Lock.Action} (ha : ∀ t x, a ≠ .transition t x)
    (t : TxnId) : (m.lock a).state t = m.state t ∨
      (m.state t = .active ∧ (m.lock a).state t = .failed) := by
  unfold Manager.lock Manager.state
  cases hn : m.locks.next a with
  | none => exact .inl rfl
  | some o =>
    simp only [Owed.next,Option.map_eq_some_iff] at hn
    obtain ⟨s,hs,rfl⟩ := hn
    exact next_txnState hs ha t

theorem Facts.lock {m : Manager} {a : Lock.Action} (h : Facts m)
    (ha : ∀ t x, a ≠ .transition t x) : Facts (m.lock a) := by
  refine h.extends (.of_eq rfl rfl) (fun t ht => ?_) rfl
  rcases Manager.lock_state ha t with hs | ⟨-,hs⟩
  · exact hs ▸ ht
  · rw [hs] at ht
    cases ht

/-- What holds after a section: more of the log, and whatever the next one needs. -/
structure Progressed (m : Manager) (t : TxnId) (r : Progress × Manager) : Prop where
  extend : Extends m r.2
  facts : Facts r.2
  ready : ∀ s, r.1 = .stage s → Ready r.2 t s

theorem commit_progressed {m : Manager} (h : Facts m) (t : TxnId) :
    Progressed m t (m.commit t) := by
  have hsame : Extends m m := .of_eq rfl rfl
  unfold Manager.commit
  split
  · exact ⟨hsame,h,by simp⟩
  split
  · exact ⟨hsame,h,fun s hs => by cases hs; trivial⟩
  · split
    · exact ⟨hsame,h,by simp⟩
    · rename_i hl
      exact ⟨hsame,h,fun s hs => by cases hs; exact h.commitLsn t hl⟩
  · exact ⟨hsame,h,by simp⟩
  · exact ⟨.of_eq rfl rfl,h.setState (by simp),fun s hs => by cases hs; trivial⟩
  · exact ⟨hsame,h,by simp⟩

theorem abort_progressed {m : Manager} (h : Facts m) (t : TxnId) :
    Progressed m t (m.abort t) := by
  have hsame : Extends m m := .of_eq rfl rfl
  unfold Manager.abort
  split
  · exact ⟨hsame,h,by simp⟩
  split
  all_goals first
    | exact ⟨hsame,h,by simp⟩
    | (split <;> first
        | exact ⟨hsame,h,by simp⟩
        | exact ⟨.of_eq rfl rfl,h.setState (by simp),fun s hs => by cases hs; trivial⟩)

/-- A durable Commit record is what makes a transaction `Committed`. -/
theorem committed_progressed {m : Manager} {t : TxnId} {lsn : Lsn} (h : Facts m)
    (hl : Logged m t .commit lsn) :
    Progressed m t (.stage .commitCleanup,(m.flush lsn).setState t .committed) := by
  have he : Extends m ((m.flush lsn).setState t .committed) :=
    ⟨(extends_flush m lsn).records,(extends_flush m lsn).durable,(extends_flush m lsn).undone⟩
  refine ⟨he,⟨fun u hu => ?_,fun u hu => (h.commitLsn u hu).extends he⟩,fun s hs => by cases hs; trivial⟩
  by_cases ht : u = t
  · subst ht
    exact hl.flush
  · have hu' : m.state u = .committed := by simpa [setState_state,ht] using hu
    exact (h.committed u hu').extends he

/-- Appending the Commit record also notes its number in the transaction. -/
theorem commitLogged_progressed {m : Manager} (h : Facts m) (t : TxnId) :
    Progressed m t (m.advance t (.ok ()) .commitAppend) := by
  have he : Extends m (m.advance t (.ok ()) .commitAppend).2 :=
    ⟨(extends_appendFor m t .commit).records,le_rfl,fun _ hu => hu⟩
  have hlog : Logged (m.advance t (.ok ()) .commitAppend).2 t .commit (m.log.appendLsn + 1) :=
    logged_appendFor m t .commit
  refine ⟨he,⟨fun u hu => (h.committed u hu).extends he,fun u hu => ?_⟩,
    fun s hs => by cases hs; exact hlog⟩
  have hc : (m.advance t (.ok ()) .commitAppend).2.commitLsn =
      Function.update m.commitLsn t (m.log.appendLsn + 1) := rfl
  rw [hc] at hu ⊢
  by_cases ht : u = t
  · subst ht
    rw [Function.update_self]
    exact hlog
  · rw [Function.update_of_ne ht] at hu ⊢
    exact (h.commitLsn u hu).extends he

theorem advance_progressed {m : Manager} {t : TxnId} {s : Stage} (h : Facts m)
    (hr : Ready m t s) (answer : Status) : Progressed m t (m.advance t answer s) := by
  have hsame : Extends m m := .of_eq rfl rfl
  have hdone : ∀ (st : Status) (x : TransactionState), x ≠ .committed →
      Progressed m t (.done st,m.setState t x) :=
    fun st x hx => ⟨.of_eq rfl rfl,h.setState hx,by simp⟩
  have hquit : ∀ st : Status, Progressed m t (.done st,m) := fun st => ⟨hsame,h,by simp⟩
  cases s with
  | commitGuards =>
    simp only [Manager.advance]
    split
    · exact hdone _ _ (by simp)
    · exact ⟨hsame,h,fun s hs => by cases hs; trivial⟩
  | commitAppend =>
    cases answer with
    | error e => exact hdone _ _ (by simp)
    | ok _ => exact commitLogged_progressed h t
  | commitFlush lsn =>
    cases answer with
    | error e => exact hdone _ _ (by simp)
    | ok _ => exact committed_progressed h hr
  | commitRetry lsn =>
    cases answer with
    | error e => exact hquit _
    | ok _ => exact committed_progressed h hr
  | commitCleanup =>
    simp only [Manager.advance]
    split
    · exact hquit _
    · rename_i hc
      have hst : m.state t = .committed := by
        by_contra hno
        simp [hno] at hc
      cases answer with
      | error e => exact hquit _
      | ok _ => exact ⟨hsame,h,fun s hs => by cases hs; exact h.committed t hst⟩
  | commitUnlock =>
    exact ⟨.of_eq rfl rfl,h.lock (by simp),fun s hs => by cases hs; exact hr⟩
  | commitRemove => exact ⟨.of_eq rfl rfl,h.extends (.of_eq rfl rfl) (fun _ hu => hu) rfl,by simp [Manager.advance]⟩
  | abortUndo =>
    cases answer with
    | error e => exact hdone _ _ (by simp)
    | ok _ =>
      have he : Extends m { m with undone := Function.update m.undone t true } := by
        refine ⟨fun _ hr => hr,le_rfl,fun u hu => ?_⟩
        by_cases ht : u = t
        · simp [ht]
        · simpa [ht] using hu
      exact ⟨he,h.extends he (fun _ hu => hu) rfl,fun s hs => by cases hs; simp [Ready,Manager.advance]⟩
  | abortAppend =>
    cases answer with
    | error e => exact hdone _ _ (by simp)
    | ok _ =>
      have he : Extends m (m.appendFor t .abort) := extends_appendFor m t .abort
      exact ⟨he,h.extends he (fun _ hu => hu) rfl,
        fun s hs => by cases hs; exact ⟨hr,logged_appendFor m t .abort⟩⟩
  | abortFlush lsn =>
    cases answer with
    | error e => exact hdone _ _ (by simp)
    | ok _ =>
      have he : Extends m (m.flush lsn) := extends_flush m lsn
      have hf : Facts (m.flush lsn) := h.extends he (fun _ hu => hu) rfl
      exact ⟨⟨he.records,he.durable,he.undone⟩,hf.setState (by simp),
        fun s hs => by cases hs; exact ⟨hr.1,hr.2.flush⟩⟩
  | abortUnlock =>
    exact ⟨.of_eq rfl rfl,h.lock (by simp),fun s hs => by cases hs; exact hr⟩
  | abortRemove => exact ⟨.of_eq rfl rfl,h.extends (.of_eq rfl rfl) (fun _ hu => hu) rfl,by simp [Manager.advance]⟩

theorem begin_extends (m : Manager) (answer : Status) : Extends m (m.begin answer).2 := by
  cases answer with
  | error e => exact .of_eq rfl rfl
  | ok _ =>
    exact ⟨fun r hr => by simp [Manager.begin,Manager.appendFor,LogManager.push,
      Manager.newTransaction,hr],le_rfl,fun _ hu => hu⟩

theorem begin_facts {m : Manager} (h : Facts m) (answer : Status) : Facts (m.begin answer).2 := by
  have he := begin_extends m answer
  have hstate : (m.begin answer).2.state = Function.update m.state m.nextTxnId .active := by
    cases answer <;> rfl
  have hlsn : (m.begin answer).2.commitLsn = Function.update m.commitLsn m.nextTxnId invalidLsn := by
    cases answer <;> rfl
  constructor
  · intro t ht
    rw [hstate] at ht
    by_cases hn : t = m.nextTxnId
    · subst hn
      simp at ht
    · exact (h.committed t (by simpa [hn] using ht)).extends he
  · intro t ht
    rw [hlsn] at ht ⊢
    by_cases hn : t = m.nextTxnId
    · subst hn
      simp at ht
    · rw [Function.update_of_ne hn] at ht ⊢
      exact (h.commitLsn t ht).extends he

structure Threads.Inv (x : Threads) : Prop where
  facts : Facts x.manager
  ready : ∀ j ∈ x.jobs, Ready x.manager j.1 j.2

theorem Threads.inv_initial : Threads.initial.Inv where
  facts := ⟨(fun _ ht => nomatch ht),(fun _ ht => absurd rfl ht)⟩
  ready j hj := by simp [Threads.initial] at hj

theorem Threads.Inv.spawn {x : Threads} {t : TxnId} {r : Progress × Manager}
    (h : ∀ j ∈ x.jobs, Ready x.manager j.1 j.2) (hp : Progressed x.manager t r) :
    (x.spawn t r).Inv := by
  have hold : ∀ j ∈ x.jobs, Ready r.2 j.1 j.2 := fun j hj => (h j hj).extends hp.extend
  unfold Threads.spawn
  split
  · rename_i s hs
    refine ⟨hp.facts,fun j hj => ?_⟩
    rcases List.mem_cons.mp hj with rfl | hj
    · exact hp.ready s hs
    · exact hold j hj
  · exact ⟨hp.facts,hold⟩

/-- A step that ends no job and changes no outcome. -/
theorem Threads.Inv.keep {x : Threads} (h : x.Inv) {m : Manager} (he : Extends x.manager m)
    (hf : Facts m) : (Threads.mk m x.jobs).Inv :=
  ⟨hf,fun j hj => (h.ready j hj).extends he⟩

theorem Threads.Inv.lock {x x' : Threads} (h : x.Inv) {a : Lock.Action}
    (ha : ∀ t y, a ≠ .transition t y) (hn : x.lock a = some x') : x'.Inv := by
  simp only [Threads.lock,Option.map_eq_some_iff] at hn
  obtain ⟨o,ho,rfl⟩ := hn
  have hm : x.manager.lock a = { x.manager with locks := o } := by
    simp [Manager.lock,ho]
  exact h.keep (.of_eq rfl rfl) (hm ▸ h.facts.lock ha)

theorem Threads.Inv.next {x x' : Threads} (h : x.Inv) {v : Event} (hn : x.next v = some x') :
    x'.Inv := by
  cases v with
  | call c => exact h.lock (by simp) hn
  | enter c => exact h.lock (by simp) hn
  | wake t l => exact h.lock (by simp) hn
  | detectDeadlocks order => exact h.lock (by simp) hn
  | begin answer =>
    cases hn
    exact h.keep (begin_extends x.manager answer) (begin_facts h.facts answer)
  | work t type =>
    simp only [Threads.next] at hn
    split at hn
    · cases hn
      have he := extends_appendFor x.manager t type
      exact h.keep he (h.facts.extends he (fun _ hu => hu) rfl)
    · cases hn
  | guards t count =>
    cases hn
    exact h.keep (.of_eq rfl rfl) (h.facts.extends (.of_eq rfl rfl) (fun _ hu => hu) rfl)
  | markFailed t =>
    simp only [Threads.next] at hn
    split at hn
    · cases hn
      exact h.keep (.of_eq rfl rfl) (h.facts.setState (by simp))
    · cases hn
      exact h
  | commit t =>
    cases hn
    exact .spawn h.ready (commit_progressed h.facts t)
  | abort t =>
    cases hn
    exact .spawn h.ready (abort_progressed h.facts t)
  | advance t stage answer =>
    simp only [Threads.next] at hn
    split at hn
    · rename_i hj
      cases hn
      refine Threads.Inv.spawn (fun j hj => h.ready j (List.mem_of_mem_erase hj)) ?_
      exact advance_progressed h.facts (h.ready _ hj) answer
    · cases hn

theorem Threads.inv_of_reach {x : Threads}
    (h : Reach (· = Threads.initial) (StepOf Threads.next) x) : x.Inv :=
  h.invariant (P := Threads.Inv) (fun s (hs : s = Threads.initial) => hs ▸ Threads.inv_initial)
    fun _ _ _ hi hn => hi.next hn

/-- Only the two release steps of the lock manager take from the books. -/
theorem owed_lock {m : Manager} {a : Lock.Action} {l : LockId} {u : TxnId} {mode : Mode}
    (hm : mode ∈ m.locks.owed l u) (h : mode ∉ (m.lock a).locks.owed l u) :
    (∃ k, a = .unlock u k) ∨ a = .unlockAll u := by
  unfold Manager.lock at h
  cases hn : m.locks.next a with
  | none => exact absurd hm (by simpa [hn] using h)
  | some o =>
    simp only [Owed.next,Option.map_eq_some_iff] at hn
    obtain ⟨s,hs,rfl⟩ := hn
    have hn' : m.locks.next a = some ⟨s,m.locks.after a⟩ := by simp [Owed.next,hs]
    rw [hn'] at h
    have hno : mode ∉ m.locks.after a l u := h
    cases a with
    | unlock t k =>
      by_cases ht : k = l ∧ t = u
      · exact .inl ⟨k,by rw [ht.2]⟩
      · exact absurd hm (by simpa [Owed.after,ht] using hno)
    | unlockAll t =>
      by_cases ht : t = u
      · exact .inr (by rw [ht])
      · exact absurd hm (by simpa [Owed.after,ht] using hno)
    | _ =>
      refine absurd hm fun hm => hno ?_
      simp only [Owed.after]
      split
      · split
        · exact List.mem_cons_of_mem _ hm
        · exact hm
      · exact hm

theorem owed_advance {m : Manager} {t u : TxnId} {s : Stage} {answer : Status} {l : LockId}
    {mode : Mode} (hm : mode ∈ m.locks.owed l u)
    (h : mode ∉ (m.advance t answer s).2.locks.owed l u) :
    t = u ∧ (s = .commitUnlock ∨ s = .abortUnlock) := by
  have hrelease : mode ∉ (m.lock (.unlockAll t)).locks.owed l u → t = u := by
    intro hno
    rcases owed_lock hm hno with ⟨k,hk⟩ | hk
    · cases hk
    · exact Lock.Action.unlockAll.inj hk
  cases s with
  | commitUnlock => exact ⟨hrelease h,.inl rfl⟩
  | abortUnlock => exact ⟨hrelease h,.inr rfl⟩
  | commitGuards =>
    simp only [Manager.advance] at h
    split at h <;> exact absurd hm h
  | commitCleanup =>
    simp only [Manager.advance] at h
    split at h
    · exact absurd hm h
    · cases answer <;> exact absurd hm h
  | commitRemove => exact absurd hm h
  | abortRemove => exact absurd hm h
  | _ => cases answer <;> exact absurd hm h

theorem owed_spawn {x : Threads} {t u : TxnId} {r : Progress × Manager} {l : LockId} :
    (x.spawn t r).manager.locks.owed l u = r.2.locks.owed l u := by
  unfold Threads.spawn
  split <;> rfl

theorem commit_owed (m : Manager) (t : TxnId) : (m.commit t).2.locks.owed = m.locks.owed := by
  unfold Manager.commit
  split
  · rfl
  split
  · rfl
  · split <;> rfl
  all_goals rfl

theorem abort_owed (m : Manager) (t : TxnId) : (m.abort t).2.locks.owed = m.locks.owed := by
  unfold Manager.abort
  split
  · rfl
  split
  all_goals first
    | rfl
    | (split <;> rfl)

/-- The step that takes a granted lock back is the `UnlockAll` of a thread whose
transaction is finished. -/
theorem released_finished {x x' : Threads} (hx : x.Inv) {v : Event} (hn : x.next v = some x')
    {l : LockId} {u : TxnId} {mode : Mode} (hm : mode ∈ x.manager.locks.owed l u)
    (hno : mode ∉ x'.manager.locks.owed l u) :
    (∃ stage answer, v = .advance u stage answer ∧
      (stage = .commitUnlock ∨ stage = .abortUnlock)) ∧ x.manager.Finished u := by
  have hlock : ∀ a : Lock.Action, (∀ t k, a ≠ .unlock t k) → (∀ t, a ≠ .unlockAll t) →
      x.lock a ≠ some x' := by
    intro a hu hua hl
    simp only [Threads.lock,Option.map_eq_some_iff] at hl
    obtain ⟨o,ho,rfl⟩ := hl
    have hmo : x.manager.lock a = { x.manager with locks := o } := by simp [Manager.lock,ho]
    rcases owed_lock (a := a) hm (by rw [hmo]; exact hno) with ⟨k,hk⟩ | hk
    · exact hu u k hk
    · exact hua u hk
  cases v with
  | call c => exact absurd hn (hlock _ (by simp) (by simp))
  | enter c => exact absurd hn (hlock _ (by simp) (by simp))
  | wake t l => exact absurd hn (hlock _ (by simp) (by simp))
  | detectDeadlocks order => exact absurd hn (hlock _ (by simp) (by simp))
  | begin answer =>
    cases hn
    cases answer <;> exact absurd hm hno
  | work t type =>
    simp only [Threads.next] at hn
    split at hn
    · cases hn
      exact absurd hm hno
    · cases hn
  | guards t count => cases hn; exact absurd hm hno
  | markFailed t =>
    simp only [Threads.next] at hn
    split at hn <;> cases hn <;> exact absurd hm hno
  | commit t =>
    cases hn
    rw [owed_spawn,commit_owed] at hno
    exact absurd hm hno
  | abort t =>
    cases hn
    rw [owed_spawn,abort_owed] at hno
    exact absurd hm hno
  | advance t stage answer =>
    simp only [Threads.next] at hn
    split at hn
    · rename_i hj
      cases hn
      rw [owed_spawn] at hno
      obtain ⟨rfl,hs⟩ := owed_advance hm hno
      refine ⟨⟨stage,answer,rfl,hs⟩,?_⟩
      have hready := hx.ready _ hj
      rcases hs with rfl | rfl
      · exact .inl hready
      · exact .inr hready
    · cases hn

/-- A writer of page 7 up to the release of its locks. -/
def committingRun : List Event :=
  [.begin (.ok ()),.call ⟨1,.page 7,.page .X⟩,.enter ⟨1,.page 7,.page .X⟩,.work 1 .pageUpdate,
    .commit 1,.advance 1 .commitGuards (.ok ()),.advance 1 .commitAppend (.ok ()),
    .advance 1 (.commitFlush 3) (.ok ()),.advance 1 .commitCleanup (.ok ())]

def committing : Threads := (exec Threads.next .initial committingRun).get rfl

def committingDone : Threads :=
  (committing.next (.advance 1 .commitUnlock (.ok ()))).get rfl

end Transaction
end OurSql
