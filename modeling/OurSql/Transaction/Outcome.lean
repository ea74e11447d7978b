import OurSql.Transaction.Release
import OurSql.Recovery.Outcome

/-! The outcome of a transaction in the log: at most one Commit record, never a Commit
and an Abort record, and no page record behind either, in whatever order its commits,
aborts and retries come and wherever the log fails. -/
namespace OurSql
namespace Transaction

open Transition Lock Storage

/-- The steps of `Release` with the write guards counted. A guard is only given to an
active transaction; it logs its page when it goes, whatever the state is by then. -/
inductive GuardEvent
  | step (v : Event)
  | fetchPageWrite (t : TxnId)
  | release (t : TxnId) (logged : Bool)

def Manager.setWriteGuards (m : Manager) (t : TxnId) (count : ℕ) : Manager :=
  { m with activeWriteGuards := Function.update m.activeWriteGuards t count }

def Manager.releaseGuard (m : Manager) (t : TxnId) (logged : Bool) : Manager :=
  let m := if logged then m.appendFor t .pageUpdate else m
  m.setWriteGuards t (m.activeWriteGuards t - 1)

def Threads.guarded (x : Threads) : GuardEvent → Option Threads
  | .step (.guards _ _) => none
  | .step v => x.next v
  | .fetchPageWrite t =>
    if x.manager.state t = .active then
      some { x with manager := x.manager.setWriteGuards t (x.manager.activeWriteGuards t + 1) }
    else none
  | .release t logged =>
    if x.manager.activeWriteGuards t = 0 then none
    else some { x with manager := x.manager.releaseGuard t logged }

/-- The state a transaction is in while a thread stands at a stage. -/
def Stage.fits : Stage → TransactionState → Prop
  | .commitGuards, x | .commitAppend, x | .commitFlush _, x => x = .committing
  | .commitRetry _, x => x = .commitUncertain ∨ x = .committed
  | .commitCleanup, x | .commitUnlock, x | .commitRemove, x => x = .committed
  | .abortUndo, x | .abortAppend, x | .abortFlush _, x => x = .aborting
  | .abortUnlock, x | .abortRemove, x => x = .aborted

/-- The stages that a transaction is reserved for. -/
def Stage.busy : Stage → Bool
  | .commitGuards | .commitAppend | .commitFlush _ => true
  | .abortUndo | .abortAppend | .abortFlush _ => true
  | _ => false

def Stage.undoes : Stage → Bool
  | .abortUndo | .abortAppend | .abortFlush _ | .abortUnlock | .abortRemove => true
  | _ => false

/-- The records of one transaction. -/
def Manager.recordsOf (m : Manager) (t : TxnId) : List LogRecord :=
  m.log.records.filter (·.txnId = t)

def commitCount (w : List LogRecord) : ℕ := w.countP (·.type = .commit)

def abortCount (w : List LogRecord) : ℕ := w.countP (·.type = .abort)

/-- No page record follows a terminal one. -/
def Closed (w : List LogRecord) : Prop :=
  w.Pairwise fun e r => Recovery.isTerminal e = true → isPageRecord r.type = false

/-- Where the threads stand, and that a reserved transaction has one thread. -/
structure Placed (state : TxnId → TransactionState) (jobs : List (TxnId × Stage)) : Prop where
  fits : ∀ j ∈ jobs, j.2.fits (state j.1)
  sole : ∀ j ∈ jobs, j.2.busy = true → ∀ k ∈ jobs.erase j, k.1 ≠ j.1

/-- What the log holds of a transaction in a state with `guards` guards out. `before` says
that a thread has still to append its Commit record, `next` that it does so next. -/
structure OutcomeOk (x : TransactionState) (undone : Bool) (guards : ℕ) (w : List LogRecord)
    (before next : Prop) : Prop where
  once : commitCount w ≤ 1
  closed : Closed w
  committing : 0 < commitCount w → x = .committing ∨ x = .commitUncertain ∨ x = .committed
  aborting : 0 < abortCount w → x = .aborting ∨ x = .failed ∨ x = .aborted
  undone : undone = true → x = .aborting ∨ x = .failed ∨ x = .aborted
  before : before → commitCount w = 0
  next : next → guards = 0
  guards : 0 < guards → commitCount w = 0 ∧ abortCount w = 0 ∧
    (x = .active ∨ x = .failed ∨ x = .committing)

def Threads.Before (x : Threads) (t : TxnId) : Prop :=
  (t,.commitGuards) ∈ x.jobs ∨ (t,.commitAppend) ∈ x.jobs

def Threads.OutcomeOk (x : Threads) (t : TxnId) : Prop :=
  Transaction.OutcomeOk (x.manager.state t) (x.manager.undone t) (x.manager.activeWriteGuards t)
    (x.manager.recordsOf t) (x.Before t) ((t,.commitAppend) ∈ x.jobs)

/-- A number not yet given out. -/
structure Threads.Unused (x : Threads) (t : TxnId) : Prop where
  owned : x.manager.owned t = false
  undone : x.manager.undone t = false
  commits : commitCount (x.manager.recordsOf t) = 0
  aborts : abortCount (x.manager.recordsOf t) = 0
  jobs : ∀ j ∈ x.jobs, j.1 ≠ t

structure Good (x : Threads) : Prop where
  inv : x.Inv
  placed : Placed x.manager.state x.jobs
  outcome : ∀ t, x.OutcomeOk t
  unused : ∀ t, x.manager.nextTxnId ≤ t → x.Unused t

section placed

variable {state state' : TxnId → TransactionState} {jobs J : List (TxnId × Stage)} {t : TxnId}
  {s : Stage}

theorem fits_of_busy {x : TransactionState} (hb : s.busy = true) (h : s.fits x) :
    x = .committing ∨ x = .aborting := by
  cases s <;> simp [Stage.busy,Stage.fits] at hb h <;> simp [h]

/-- Some jobs are left, and the state of one transaction changes. -/
theorem Placed.change (h : Placed state jobs) (hJ : J.Sublist jobs)
    (hother : ∀ u, u ≠ t → state' u = state u)
    (ht : ∀ k ∈ J, k.1 = t → k.2.busy = false ∧ k.2.fits (state' t)) : Placed state' J where
  fits j hj := by
    by_cases hjt : j.1 = t
    · rw [hjt]
      exact (ht j hj hjt).2
    · rw [hother _ hjt]
      exact h.fits j (hJ.subset hj)
  sole j hj hb k hk := h.sole j (hJ.subset hj) hb k ((hJ.erase j).subset hk)

theorem Placed.cons (h : Placed state J) (hf : s.fits (state t))
    (hb : s.busy = true → ∀ k ∈ J, k.1 ≠ t) (ht : ∀ k ∈ J, k.1 = t → k.2.busy = false) :
    Placed state ((t,s) :: J) where
  fits j hj := by
    rcases List.mem_cons.mp hj with rfl | hj
    · exact hf
    · exact h.fits j hj
  sole j hj hbusy k hk := by
    by_cases hjs : j = (t,s)
    · subst hjs
      rw [List.erase_cons_head] at hk
      exact hb hbusy k hk
    · rcases List.mem_cons.mp hj with hj | hj
      · exact absurd hj hjs
      have hjt : j.1 ≠ t := fun he => by
        rw [ht j hj he] at hbusy
        cases hbusy
      rw [List.erase_cons_tail (by simpa using Ne.symm hjs)] at hk
      rcases List.mem_cons.mp hk with rfl | hk
      · exact Ne.symm hjt
      · exact h.sole j hj hbusy k hk

/-- No thread is inside `Commit` or `Abort` for an active or failed transaction. -/
theorem Placed.none (h : Placed state jobs) (ht : state t = .active ∨ state t = .failed) :
    ∀ k ∈ jobs, k.1 ≠ t := by
  rintro ⟨u,s⟩ hk rfl
  have hf := h.fits _ hk
  cases s <;> rcases ht with ht | ht <;> simp [Stage.fits,ht] at hf

end placed

section counts

variable {w : List LogRecord} {r : LogRecord}

theorem commitCount_append (hr : r.type ≠ .commit) : commitCount (w ++ [r]) = commitCount w := by
  simp [commitCount,List.countP_append,hr]

theorem abortCount_append (hr : r.type ≠ .abort) : abortCount (w ++ [r]) = abortCount w := by
  simp [abortCount,List.countP_append,hr]

theorem not_terminal_of_counts (hc : commitCount w = 0) (ha : abortCount w = 0) :
    ∀ e ∈ w, Recovery.isTerminal e = false := by
  intro e he
  have hcommit := List.countP_eq_zero.mp hc e he
  have habort := List.countP_eq_zero.mp ha e he
  simp only [decide_eq_true_eq] at hcommit habort
  simp [Recovery.isTerminal,hcommit,habort]

/-- A record that is no page record may always follow. -/
theorem Closed.append (h : Closed w) (hr : isPageRecord r.type = false) : Closed (w ++ [r]) :=
  List.pairwise_append.mpr ⟨h,by simp,fun _ _ b hb _ => by rw [List.mem_singleton.mp hb]; exact hr⟩

theorem Closed.work (h : Closed w) (hc : commitCount w = 0) (ha : abortCount w = 0) :
    Closed (w ++ [r]) := by
  refine List.pairwise_append.mpr ⟨h,by simp,fun e he _ _ hterm => ?_⟩
  rw [not_terminal_of_counts hc ha e he] at hterm
  cases hterm

end counts

@[simp] theorem recordsOf_lock (m : Manager) (a : Lock.Action) (t : TxnId) :
    (m.lock a).recordsOf t = m.recordsOf t := rfl
@[simp] theorem recordsOf_setState (m : Manager) (u t : TxnId) (x : TransactionState) :
    (m.setState u x).recordsOf t = m.recordsOf t := rfl
@[simp] theorem recordsOf_flush (m : Manager) (lsn : Lsn) (t : TxnId) :
    (m.flush lsn).recordsOf t = m.recordsOf t := rfl

/-- The record `AppendFor` writes. -/
def Manager.recordFor (m : Manager) (t : TxnId) (type : LogRecordType) : LogRecord :=
  { type := type, txnId := t, prevLsn := m.lastLsn t, lsn := m.log.appendLsn + 1 }

theorem recordsOf_appendFor (m : Manager) (t : TxnId) (type : LogRecordType) :
    (m.appendFor t type).recordsOf t = m.recordsOf t ++ [m.recordFor t type] := by
  change (m.log.records ++ [m.recordFor t type]).filter _ = _
  rw [List.filter_append,List.filter_cons_of_pos (by simp [Manager.recordFor])]
  rfl

theorem recordsOf_appendFor_other (m : Manager) {t u : TxnId} (type : LogRecordType)
    (h : u ≠ t) : (m.appendFor t type).recordsOf u = m.recordsOf u := by
  change (m.log.records ++ [m.recordFor t type]).filter _ = _
  rw [List.filter_append,List.filter_cons_of_neg (by simp [Manager.recordFor,Ne.symm h])]
  simp [Manager.recordsOf]

/-- A change that concerns one transaction only. -/
structure Move (m m' : Manager) (t : TxnId) : Prop where
  state : ∀ u, u ≠ t → m'.state u = m.state u
  undone : ∀ u, u ≠ t → m'.undone u = m.undone u
  guards : ∀ u, u ≠ t → m'.activeWriteGuards u = m.activeWriteGuards u
  records : ∀ u, u ≠ t → m'.recordsOf u = m.recordsOf u
  owned : ∀ u, u ≠ t → m'.owned u = m.owned u
  nextTxnId : m'.nextTxnId = m.nextTxnId

theorem Move.refl (m : Manager) (t : TxnId) : Move m m t :=
  ⟨fun _ _ => rfl,fun _ _ => rfl,fun _ _ => rfl,fun _ _ => rfl,fun _ _ => rfl,rfl⟩

theorem Move.setState (m : Manager) (t : TxnId) (x : TransactionState) :
    Move m (m.setState t x) t :=
  ⟨fun u hu => by rw [setState_state,Function.update_of_ne hu],fun _ _ => rfl,fun _ _ => rfl,
    fun _ _ => rfl,fun _ _ => rfl,rfl⟩

theorem Move.appendFor (m : Manager) (t : TxnId) (type : LogRecordType) :
    Move m (m.appendFor t type) t :=
  ⟨fun _ _ => rfl,fun _ _ => rfl,fun _ _ => rfl,
    fun _ hu => recordsOf_appendFor_other m type hu,fun _ _ => rfl,rfl⟩

theorem Move.flush (m : Manager) (lsn : Lsn) (t : TxnId) : Move m (m.flush lsn) t :=
  ⟨fun _ _ => rfl,fun _ _ => rfl,fun _ _ => rfl,fun _ _ => rfl,fun _ _ => rfl,rfl⟩

theorem Move.trans {m m' m'' : Manager} {t : TxnId} (h : Move m m' t) (h' : Move m' m'' t) :
    Move m m'' t where
  state u hu := (h'.state u hu).trans (h.state u hu)
  undone u hu := (h'.undone u hu).trans (h.undone u hu)
  guards u hu := (h'.guards u hu).trans (h.guards u hu)
  records u hu := (h'.records u hu).trans (h.records u hu)
  owned u hu := (h'.owned u hu).trans (h.owned u hu)
  nextTxnId := h'.nextTxnId.trans h.nextTxnId

section moves

variable {x : Threads} {t : TxnId} {m : Manager} {J jobs : List (TxnId × Stage)} {s : Stage}

theorem Good.move (h : Good x) (hm : Move x.manager m t) (hinv : (Threads.mk m jobs).Inv)
    (hplaced : Placed m.state jobs) (hjobs : ∀ j ∈ jobs, j.1 ≠ t → j ∈ x.jobs)
    (hout : (Threads.mk m jobs).OutcomeOk t)
    (hunused : x.manager.nextTxnId ≤ t → (Threads.mk m jobs).Unused t) :
    Good ⟨m,jobs⟩ where
  inv := hinv
  placed := hplaced
  outcome u := by
    by_cases hu : u = t
    · exact hu ▸ hout
    have ho := h.outcome u
    unfold Threads.OutcomeOk at ho ⊢
    dsimp only
    rw [hm.state u hu,hm.undone u hu,hm.guards u hu,hm.records u hu]
    refine ⟨ho.once,ho.closed,ho.committing,ho.aborting,ho.undone,fun hb => ho.before ?_,
      fun hn => ho.next (hjobs _ hn hu),ho.guards⟩
    exact hb.imp (hjobs _ · hu) (hjobs _ · hu)
  unused u hu := by
    by_cases hut : u = t
    · subst hut
      exact hunused (hm.nextTxnId ▸ hu)
    have hold := h.unused u (hm.nextTxnId ▸ hu)
    refine ⟨(hm.owned u hut).trans hold.owned,(hm.undone u hut).trans hold.undone,?_,?_,
      fun j hj he => hold.jobs j (hjobs j hj (he ▸ hut)) he⟩
    · exact (hm.records u hut).symm ▸ hold.commits
    · exact (hm.records u hut).symm ▸ hold.aborts

/-- A transaction that a thread works for has been begun. -/
theorem Good.lt_next (h : Good x) (hj : (t,s) ∈ x.jobs) : t < x.manager.nextTxnId := by
  by_contra hc
  exact (h.unused t (not_lt.mp hc)).jobs _ hj rfl

theorem Good.lt_next_of_owned (h : Good x) (ho : x.manager.owned t = true) :
    t < x.manager.nextTxnId := by
  by_contra hc
  rw [(h.unused t (not_lt.mp hc)).owned] at ho
  cases ho

/-- A thread takes on a transaction nobody works for, or goes on with a reserved one. -/
theorem Good.reserve (h : Good x) (hm : Move x.manager m t) (hJ : J.Sublist x.jobs)
    (hnone : ∀ k ∈ J, k.1 ≠ t) (hlt : t < x.manager.nextTxnId)
    (hinv : (Threads.mk m ((t,s) :: J)).Inv) (hf : s.fits (m.state t))
    (hout : Transaction.OutcomeOk (m.state t) (m.undone t) (m.activeWriteGuards t)
      (m.recordsOf t) (s = .commitGuards ∨ s = .commitAppend) (s = .commitAppend)) :
    Good ⟨m,(t,s) :: J⟩ := by
  refine h.move hm hinv ?_ ?_ ?_ fun hle => absurd hlt (not_lt.mpr hle)
  · refine (h.placed.change hJ hm.state fun k hk he => absurd he (hnone k hk)).cons hf
      (fun _ => hnone) fun k hk he => absurd he (hnone k hk)
  · rintro j hj hjt
    rcases List.mem_cons.mp hj with rfl | hj
    · exact absurd rfl hjt
    · exact hJ.subset hj
  · have hmem : ∀ s', (t,s') ∈ (t,s) :: J → s' = s := by
      intro s' hs'
      rcases List.mem_cons.mp hs' with he | hs'
      · exact (Prod.mk.inj he).2
      · exact absurd rfl (hnone _ hs')
    refine ⟨hout.once,hout.closed,hout.committing,hout.aborting,hout.undone,fun hb => ?_,
      fun hn => hout.next (hmem _ hn).symm,hout.guards⟩
    exact hout.before (hb.imp (fun hn => (hmem _ hn).symm) fun hn => (hmem _ hn).symm)

/-- The thread of a reserved transaction returns. -/
theorem Good.quit (h : Good x) (hm : Move x.manager m t) (hJ : J.Sublist x.jobs)
    (hnone : ∀ k ∈ J, k.1 ≠ t) (hlt : t < x.manager.nextTxnId)
    (hinv : (Threads.mk m J).Inv)
    (hout : Transaction.OutcomeOk (m.state t) (m.undone t) (m.activeWriteGuards t)
      (m.recordsOf t) False False) : Good ⟨m,J⟩ := by
  refine h.move hm hinv ?_ (fun j hj _ => hJ.subset hj) ?_ fun hle => absurd hlt (not_lt.mpr hle)
  · exact h.placed.change hJ hm.state fun k hk he => absurd he (hnone k hk)
  · refine ⟨hout.once,hout.closed,hout.committing,hout.aborting,hout.undone,fun hb => ?_,
      fun hn => absurd rfl (hnone _ hn),hout.guards⟩
    rcases hb with hb | hb
    · exact absurd rfl (hnone _ hb)
    · exact absurd rfl (hnone _ hb)

/-- The thread returns and leaves the transaction in another state. -/
theorem Good.quitState {y : TransactionState} (h : Good x) (hJ : J.Sublist x.jobs)
    (hnone : ∀ k ∈ J, k.1 ≠ t) (hlt : t < x.manager.nextTxnId)
    (hinv : (Threads.mk (x.manager.setState t y) J).Inv)
    (hout : Transaction.OutcomeOk y (x.manager.undone t) (x.manager.activeWriteGuards t)
      (x.manager.recordsOf t) False False) : Good ⟨x.manager.setState t y,J⟩ := by
  refine h.quit (.setState x.manager t y) hJ hnone hlt hinv ?_
  rw [setState_state,Function.update_self]
  exact hout

/-- The log is flushed and the outcome made known. -/
theorem Good.publish {y : TransactionState} {lsn : Lsn} (h : Good x) (hJ : J.Sublist x.jobs)
    (hnone : ∀ k ∈ J, k.1 ≠ t) (hlt : t < x.manager.nextTxnId) (hf : s.fits y)
    (hs : s ≠ .commitGuards ∧ s ≠ .commitAppend)
    (hinv : (Threads.mk ((x.manager.flush lsn).setState t y) ((t,s) :: J)).Inv)
    (hout : Transaction.OutcomeOk y (x.manager.undone t) (x.manager.activeWriteGuards t)
      (x.manager.recordsOf t) False False) :
    Good ⟨(x.manager.flush lsn).setState t y,(t,s) :: J⟩ := by
  have hm : Move x.manager ((x.manager.flush lsn).setState t y) t :=
    (Move.flush x.manager lsn t).trans (.setState _ t y)
  have hnew : ((x.manager.flush lsn).setState t y).state t = y := by
    rw [setState_state,Function.update_self]
  refine h.reserve hm hJ hnone hlt hinv (hnew.symm ▸ hf) ?_
  rw [hnew]
  exact ⟨hout.once,hout.closed,hout.committing,hout.aborting,hout.undone,
    fun hb => (hb.elim hs.1 hs.2).elim,fun hn => (hs.2 hn).elim,hout.guards⟩

/-- A step beside other threads of the same, already decided transaction. -/
theorem Good.carry (h : Good x) (hm : Move x.manager m t) (hJ : J.Sublist x.jobs)
    (hfits : ∀ k ∈ J, k.1 = t → k.2.busy = false ∧ k.2.fits (m.state t))
    (hlt : t < x.manager.nextTxnId) (hjobs : jobs = J ∨ ∃ s, jobs = (t,s) :: J ∧
      s.busy = false ∧ s.fits (m.state t)) (hinv : (Threads.mk m jobs).Inv)
    (hout : Transaction.OutcomeOk (m.state t) (m.undone t) (m.activeWriteGuards t)
      (m.recordsOf t) False False) : Good ⟨m,jobs⟩ := by
  have hplaced := h.placed.change hJ hm.state hfits
  have hquiet : ∀ k ∈ jobs, k.1 = t → k.2.busy = false := by
    rcases hjobs with rfl | ⟨s,rfl,hb,-⟩
    · exact fun k hk he => (hfits k hk he).1
    · intro k hk he
      rcases List.mem_cons.mp hk with rfl | hk
      · exact hb
      · exact (hfits k hk he).1
  refine h.move hm hinv ?_ ?_ ?_ fun hle => absurd hlt (not_lt.mpr hle)
  · rcases hjobs with rfl | ⟨s,rfl,hb,hf⟩
    · exact hplaced
    · refine hplaced.cons hf (fun hc => ?_) fun k hk he => (hfits k hk he).1
      rw [hb] at hc
      cases hc
  · rcases hjobs with rfl | ⟨s,rfl,-,-⟩
    · exact fun j hj _ => hJ.subset hj
    · intro j hj hjt
      rcases List.mem_cons.mp hj with rfl | hj
      · exact absurd rfl hjt
      · exact hJ.subset hj
  · refine ⟨hout.once,hout.closed,hout.committing,hout.aborting,hout.undone,fun hb => ?_,
      fun hn => ?_,hout.guards⟩
    · rcases hb with hb | hb <;> cases hquiet _ hb rfl
    · cases hquiet _ hn rfl

theorem fits_committed {s : Stage} {x : TransactionState} (hf : s.fits x)
    (hx : x = .commitUncertain ∨ x = .committed) : s.busy = false ∧ s.fits .committed := by
  cases s <;> rcases hx with rfl | rfl <;> simp [Stage.fits,Stage.busy] at hf ⊢

theorem fits_aborted {s : Stage} (hf : s.fits .aborted) : s.busy = false := by
  cases s <;> simp [Stage.fits,Stage.busy] at hf ⊢

theorem Move.unlockAll (m : Manager) (t : TxnId) : Move m (m.lock (.unlockAll t)) t :=
  ⟨fun _ _ => rfl,fun _ _ => rfl,fun _ _ => rfl,fun _ _ => rfl,fun _ _ => rfl,rfl⟩

theorem Move.remove (m : Manager) (t : TxnId) :
    Move m { m with owned := Function.update m.owned t false } t :=
  ⟨fun _ _ => rfl,fun _ _ => rfl,fun _ _ => rfl,fun _ _ => rfl,
    fun _ hu => Function.update_of_ne hu _ _,rfl⟩

theorem Move.setUndone (m : Manager) (t : TxnId) (b : Bool) :
    Move m { m with undone := Function.update m.undone t b } t :=
  ⟨fun _ _ => rfl,fun _ hu => Function.update_of_ne hu _ _,fun _ _ => rfl,fun _ _ => rfl,
    fun _ _ => rfl,rfl⟩

section outcomes

variable {y y' : TransactionState} {undone : Bool} {guards : ℕ} {w : List LogRecord}
  {before next : Prop}

/-- The transaction is reserved for `Commit` and its record not yet written. -/
theorem OutcomeOk.uncommitted (h : OutcomeOk .committing undone guards w before next)
    (hb : before) : commitCount w = 0 ∧ abortCount w = 0 ∧ undone = false := by
  refine ⟨h.before hb,?_,?_⟩
  · by_contra hc
    have := h.aborting (Nat.pos_of_ne_zero hc)
    simp at this
  · by_contra hc
    have := h.undone (by simpa using hc)
    simp at this

/-- With no Commit record, an undecided transaction may take any of these states. -/
theorem OutcomeOk.unreserve (h : OutcomeOk y undone guards w before next)
    (hc : commitCount w = 0) (hy : abortCount w = 0 ∧ undone = false ∨ y' = .aborting ∨
      y' = .failed ∨ y' = .aborted)
    (hg : 0 < guards → abortCount w = 0 ∧ (y' = .active ∨ y' = .failed ∨ y' = .committing)) :
    OutcomeOk y' undone guards w False False where
  once := h.once
  closed := h.closed
  committing hpos := absurd hc (Nat.pos_iff_ne_zero.mp hpos)
  aborting hpos := by
    rcases hy with ⟨ha,-⟩ | hy
    · exact absurd ha (Nat.pos_iff_ne_zero.mp hpos)
    · exact hy
  undone hu := by
    rcases hy with ⟨-,hf⟩ | hy
    · rw [hf] at hu
      cases hu
    · exact hy
  before := False.elim
  next := False.elim
  guards hpos := ⟨hc,hg hpos⟩

/-- Once there is a Commit record, the transaction stays on its way to `Committed`. -/
theorem OutcomeOk.decided (h : OutcomeOk y undone guards w before next) (hc : 0 < commitCount w)
    (hy : y' = .committing ∨ y' = .commitUncertain ∨ y' = .committed) :
    OutcomeOk y' undone guards w False False where
  once := h.once
  closed := h.closed
  committing _ := hy
  aborting hpos := by
    have hstate := h.committing hc
    rcases h.aborting hpos with ha | ha | ha <;> simp [ha] at hstate
  undone hu := by
    have hstate := h.committing hc
    rcases h.undone hu with ha | ha | ha <;> simp [ha] at hstate
  before := False.elim
  next := False.elim
  guards hpos := absurd (h.guards hpos).1 (Nat.pos_iff_ne_zero.mp hc)

theorem OutcomeOk.guards_aborting (h : OutcomeOk .aborting undone guards w before next) :
    guards = 0 := by
  by_contra hc
  have := (h.guards (Nat.pos_of_ne_zero hc)).2.2
  simp at this

/-- A reserved abort ends in one of these states. -/
theorem OutcomeOk.aborted (h : OutcomeOk .aborting undone guards w before next)
    (hy : y' = .aborting ∨ y' = .failed ∨ y' = .aborted) :
    OutcomeOk y' undone guards w False False := by
  have hc : commitCount w = 0 := by
    by_contra hc
    have := h.committing (Nat.pos_of_ne_zero hc)
    simp at this
  have hg := h.guards_aborting
  exact h.unreserve hc (.inr hy) fun hpos => absurd hg (Nat.pos_iff_ne_zero.mp hpos)

theorem OutcomeOk.idle (h : OutcomeOk y undone guards w before next) :
    OutcomeOk y undone guards w False False :=
  ⟨h.once,h.closed,h.committing,h.aborting,h.undone,False.elim,False.elim,h.guards⟩

variable {before' next' : Prop} {r : LogRecord}

/-- The Commit record is the only terminal one. -/
theorem OutcomeOk.commit_appended (h : OutcomeOk .committing undone guards w before next)
    (hb : before) (hn : next) (hr : r.type = .commit) (hb' : ¬before') (hn' : ¬next') :
    OutcomeOk .committing undone guards (w ++ [r]) before' next' := by
  obtain ⟨hc,ha,-⟩ := h.uncommitted hb
  have hcount : commitCount (w ++ [r]) = 1 := by
    simp only [commitCount,List.countP_append] at hc ⊢
    rw [hc]
    simp [hr]
  refine ⟨hcount.le,h.closed.append (by simp [isPageRecord,hr]),fun _ => .inl rfl,fun hpos => ?_,
    h.undone,fun hb => absurd hb hb',fun hn => absurd hn hn',fun hpos => ?_⟩
  · rw [abortCount_append (by simp [hr]),ha] at hpos
    cases hpos
  · rw [h.next hn] at hpos
    cases hpos

theorem OutcomeOk.abort_appended (h : OutcomeOk .aborting undone guards w before next)
    (hr : r.type = .abort) (hb' : ¬before') (hn' : ¬next') :
    OutcomeOk .aborting undone guards (w ++ [r]) before' next' := by
  have hcount : commitCount (w ++ [r]) = commitCount w := commitCount_append (by simp [hr])
  refine ⟨hcount ▸ h.once,h.closed.append (by simp [isPageRecord,hr]),
    fun hpos => h.committing (hcount ▸ hpos),fun _ => .inl rfl,h.undone,fun hb => absurd hb hb',
    fun hn => absurd hn hn',fun hpos => ?_⟩
  rw [h.guards_aborting] at hpos
  cases hpos

theorem OutcomeOk.set_undone (h : OutcomeOk .aborting undone guards w before next)
    (hb' : ¬before') (hn' : ¬next') : OutcomeOk .aborting true guards w before' next' :=
  ⟨h.once,h.closed,h.committing,h.aborting,fun _ => .inl rfl,fun hb => absurd hb hb',
    fun hn => absurd hn hn',h.guards⟩

end outcomes

theorem commitCount_pos {m : Manager} {lsn : Lsn} (h : Logged m t .commit lsn) :
    0 < commitCount (m.recordsOf t) := by
  obtain ⟨r,hr,ht,hk,-⟩ := h
  exact List.countP_pos_iff.mpr ⟨r,by simp [Manager.recordsOf,hr,ht],by simp [hk]⟩

theorem Good.committed_jobs (h : Good x) {jobs : List (TxnId × Stage)}
    (hsub : jobs.Sublist x.jobs) (hstate : x.manager.state t = .committed) :
    ∀ k ∈ jobs, k.1 = t → k.2.busy = false ∧ k.2.fits (x.manager.state t) := by
  rintro ⟨u,s⟩ hk rfl
  rw [hstate]
  exact fits_committed (h.placed.fits _ (hsub.subset hk)) (.inr hstate)

theorem Good.aborted_jobs (h : Good x) {jobs : List (TxnId × Stage)}
    (hsub : jobs.Sublist x.jobs) (hstate : x.manager.state t = .aborted) :
    ∀ k ∈ jobs, k.1 = t → k.2.busy = false ∧ k.2.fits (x.manager.state t) := by
  rintro ⟨u,s⟩ hk rfl
  have hfk := h.placed.fits _ (hsub.subset hk)
  exact ⟨fits_aborted (hstate ▸ hfk),hfk⟩

/-- One section of `Commit` or `Abort`. -/
theorem Good.advance {x' : Threads} {stage : Stage} {answer : Status} (h : Good x)
    (hn : x.next (.advance t stage answer) = some x') : Good x' := by
  have hinv := h.inv.next hn
  simp only [Threads.next] at hn
  split at hn
  case isFalse => cases hn
  rename_i hj
  obtain rfl := Option.some.inj hn
  have hfit := h.placed.fits _ hj
  have hlt := h.lt_next hj
  have hsub : (x.jobs.erase (t,stage)).Sublist x.jobs := List.erase_sublist
  have hsole := h.placed.sole _ hj
  have ho := h.outcome t
  have hready := h.inv.ready _ hj
  unfold Threads.OutcomeOk at ho
  cases stage with
  | commitGuards =>
    have hstate : x.manager.state t = .committing := hfit
    rw [hstate] at ho
    obtain ⟨hc,ha,hu⟩ := ho.uncommitted (.inl hj)
    simp only [Manager.advance] at hinv ⊢
    split
    · rename_i hg
      rw [if_pos hg] at hinv
      exact h.quitState hsub (hsole rfl) hlt hinv
        (ho.unreserve hc (.inl ⟨ha,hu⟩) fun _ => ⟨ha,.inl rfl⟩)
    · rename_i hg
      rw [if_neg hg] at hinv
      refine h.reserve (.refl x.manager t) hsub (hsole rfl) hlt hinv hstate ?_
      rw [hstate]
      exact ⟨ho.once,ho.closed,ho.committing,ho.aborting,ho.undone,fun _ => hc,
        fun _ => not_not.mp hg,ho.guards⟩
  | commitAppend =>
    have hstate : x.manager.state t = .committing := hfit
    rw [hstate] at ho
    obtain ⟨hc,ha,hu⟩ := ho.uncommitted (.inr hj)
    cases answer with
    | error e =>
      exact h.quitState hsub (hsole rfl) hlt hinv
        (ho.unreserve hc (.inl ⟨ha,hu⟩) fun _ => ⟨ha,.inr (.inl rfl)⟩)
    | ok _ =>
      have hm : Move x.manager (x.manager.advance t (.ok ()) .commitAppend).2 t :=
        ⟨fun _ _ => rfl,fun _ _ => rfl,fun _ _ => rfl,
          fun u hu => recordsOf_appendFor_other x.manager .commit hu,fun _ _ => rfl,rfl⟩
      refine h.reserve hm hsub (hsole rfl) hlt hinv hstate ?_
      change Transaction.OutcomeOk (x.manager.state t) (x.manager.undone t)
        (x.manager.activeWriteGuards t) ((x.manager.appendFor t .commit).recordsOf t) _ _
      rw [recordsOf_appendFor,hstate]
      exact ho.commit_appended (.inr hj) hj rfl (by simp) (by simp)
  | commitFlush lsn =>
    have hstate : x.manager.state t = .committing := hfit
    have hpos := commitCount_pos hready
    cases answer with
    | error e =>
      exact h.quitState hsub (hsole rfl) hlt hinv (ho.decided hpos (.inr (.inl rfl)))
    | ok _ =>
      exact h.publish hsub (hsole rfl) hlt rfl ⟨by simp,by simp⟩ hinv
        (ho.decided hpos (.inr (.inr rfl)))
  | commitRetry lsn =>
    have hstate : x.manager.state t = .commitUncertain ∨ x.manager.state t = .committed := hfit
    have hfits : ∀ k ∈ x.jobs.erase (t,.commitRetry lsn), k.1 = t →
        k.2.busy = false ∧ k.2.fits .committed := by
      rintro ⟨u,s⟩ hk rfl
      exact fits_committed (h.placed.fits _ (hsub.subset hk)) hstate
    cases answer with
    | error e =>
      refine h.carry (.refl x.manager t) hsub (fun k hk he => ?_) hlt (.inl rfl) hinv ho.idle
      have hfk := h.placed.fits _ (hsub.subset hk)
      exact ⟨(hfits k hk he).1,he ▸ hfk⟩
    | ok _ =>
      have hm : Move x.manager ((x.manager.flush lsn).setState t .committed) t :=
        (Move.flush x.manager lsn t).trans (.setState _ t .committed)
      have hnew : ((x.manager.flush lsn).setState t .committed).state t = .committed := by
        rw [setState_state,Function.update_self]
      refine h.carry hm hsub (fun k hk he => ?_) hlt
        (.inr ⟨.commitCleanup,rfl,rfl,hnew⟩) hinv ?_
      · have hk' := hfits k hk he
        exact ⟨hk'.1,hnew.symm ▸ hk'.2⟩
      · have hd := ho.decided (commitCount_pos hready)
          (.inr (.inr (Eq.refl TransactionState.committed)))
        rw [← hnew] at hd
        exact hd
  | commitCleanup =>
    have hstate : x.manager.state t = .committed := hfit
    have hfits := h.committed_jobs hsub hstate
    simp only [Manager.advance] at hinv ⊢
    split
    · rename_i hcond
      rw [if_pos hcond] at hinv
      exact h.carry (.refl x.manager t) hsub hfits hlt (.inl rfl) hinv ho.idle
    · rename_i hcond
      rw [if_neg hcond] at hinv
      cases answer with
      | error e => exact h.carry (.refl x.manager t) hsub hfits hlt (.inl rfl) hinv ho.idle
      | ok _ =>
        exact h.carry (.refl x.manager t) hsub hfits hlt
          (.inr ⟨.commitUnlock,rfl,rfl,hstate⟩) hinv ho.idle
  | commitUnlock =>
    have hstate : x.manager.state t = .committed := hfit
    exact h.carry (.unlockAll x.manager t) hsub (h.committed_jobs hsub hstate) hlt
      (.inr ⟨.commitRemove,rfl,rfl,hstate⟩) hinv ho.idle
  | commitRemove =>
    have hstate : x.manager.state t = .committed := hfit
    exact h.carry (.remove x.manager t) hsub (h.committed_jobs hsub hstate) hlt (.inl rfl) hinv
      ho.idle
  | abortUndo =>
    have hstate : x.manager.state t = .aborting := hfit
    rw [hstate] at ho
    have hg := ho.guards_aborting
    cases answer with
    | error e =>
      exact h.quitState hsub (hsole rfl) hlt hinv (ho.aborted (.inr (.inl rfl)))
    | ok _ =>
      refine h.reserve (.setUndone x.manager t true) hsub (hsole rfl) hlt hinv hstate ?_
      change Transaction.OutcomeOk (x.manager.state t) (Function.update x.manager.undone t true t)
        (x.manager.activeWriteGuards t) (x.manager.recordsOf t) _ _
      rw [hstate,Function.update_self]
      exact ho.set_undone (by simp) (by simp)
  | abortAppend =>
    have hstate : x.manager.state t = .aborting := hfit
    rw [hstate] at ho
    cases answer with
    | error e =>
      exact h.quitState hsub (hsole rfl) hlt hinv (ho.aborted (.inr (.inl rfl)))
    | ok _ =>
      refine h.reserve (.appendFor x.manager t .abort) hsub (hsole rfl) hlt hinv hstate ?_
      change Transaction.OutcomeOk (x.manager.state t) (x.manager.undone t)
        (x.manager.activeWriteGuards t) ((x.manager.appendFor t .abort).recordsOf t) _ _
      rw [recordsOf_appendFor,hstate]
      exact ho.abort_appended rfl (by simp) (by simp)
  | abortFlush lsn =>
    have hstate : x.manager.state t = .aborting := hfit
    rw [hstate] at ho
    cases answer with
    | error e =>
      exact h.quitState hsub (hsole rfl) hlt hinv (ho.aborted (.inr (.inl rfl)))
    | ok _ =>
      exact h.publish hsub (hsole rfl) hlt rfl ⟨by simp,by simp⟩ hinv
        (ho.aborted (.inr (.inr rfl)))
  | abortUnlock =>
    have hstate : x.manager.state t = .aborted := hfit
    exact h.carry (.unlockAll x.manager t) hsub (h.aborted_jobs hsub hstate) hlt
      (.inr ⟨.abortRemove,rfl,rfl,hstate⟩) hinv ho.idle
  | abortRemove =>
    have hstate : x.manager.state t = .aborted := hfit
    exact h.carry (.remove x.manager t) hsub (h.aborted_jobs hsub hstate) hlt (.inl rfl) hinv
      ho.idle

/-- The lock manager turns active transactions into failed ones and nothing else. -/
theorem Good.weaken (h : Good x) (hinv : (Threads.mk m x.jobs).Inv)
    (hstate : ∀ u, m.state u = x.manager.state u ∨
      (x.manager.state u = .active ∧ m.state u = .failed))
    (hundone : m.undone = x.manager.undone)
    (hguards : m.activeWriteGuards = x.manager.activeWriteGuards)
    (hlog : m.log = x.manager.log) (howned : m.owned = x.manager.owned)
    (hnext : m.nextTxnId = x.manager.nextTxnId) : Good ⟨m,x.jobs⟩ := by
  have hrecords : ∀ u, m.recordsOf u = x.manager.recordsOf u := by
    intro u
    simp only [Manager.recordsOf,hlog]
  refine ⟨hinv,⟨fun j hj => ?_,h.placed.sole⟩,fun u => ?_,fun u hu => ?_⟩
  · rcases hstate j.1 with hs | ⟨ha,-⟩
    · rw [hs]
      exact h.placed.fits j hj
    · exact absurd rfl (h.placed.none (.inl ha) j hj)
  · have ho := h.outcome u
    unfold Threads.OutcomeOk at ho ⊢
    simp only [hundone,hguards,hrecords]
    rcases hstate u with hs | ⟨ha,hf⟩
    · rw [hs]
      exact ho
    · rw [hf]
      rw [ha] at ho
      have hc : commitCount (x.manager.recordsOf u) = 0 := by
        by_contra hc
        have := ho.committing (Nat.pos_of_ne_zero hc)
        simp at this
      exact ⟨ho.once,ho.closed,fun hpos => absurd hc (Nat.pos_iff_ne_zero.mp hpos),
        fun _ => .inr (.inl rfl),fun _ => .inr (.inl rfl),ho.before,ho.next,
        fun hpos => ⟨hc,(ho.guards hpos).2.1,.inr (.inl rfl)⟩⟩
  · have hold := h.unused u (hnext ▸ hu)
    exact ⟨by rw [howned]; exact hold.owned,by rw [hundone]; exact hold.undone,
      by rw [hrecords]; exact hold.commits,by rw [hrecords]; exact hold.aborts,hold.jobs⟩

theorem Good.lock {x' : Threads} {a : Lock.Action} (h : Good x)
    (ha : ∀ t y, a ≠ .transition t y) (hn : x.lock a = some x') : Good x' := by
  have hinv := h.inv.lock ha hn
  simp only [Threads.lock,Option.map_eq_some_iff] at hn
  obtain ⟨o,ho,rfl⟩ := hn
  have hm : x.manager.lock a = { x.manager with locks := o } := by
    simp [Manager.lock,ho]
  refine h.weaken hinv (fun u => ?_) rfl rfl rfl rfl rfl
  rw [← hm]
  exact Manager.lock_state ha u

/-- A page record or a guard more or less, of a transaction that has no terminal record. -/
theorem Good.work {g : ℕ} (h : Good x) (type : LogRecordType)
    (hm : Move x.manager m t) (hstate : m.state t = x.manager.state t)
    (hundone : m.undone t = x.manager.undone t) (hguards : m.activeWriteGuards t = g)
    (hg : 0 < g → (t,.commitAppend) ∉ x.jobs ∧ (x.manager.state t = .active ∨
      x.manager.state t = .failed ∨ x.manager.state t = .committing))
    (howned : m.owned t = x.manager.owned t)
    (hrecords : m.recordsOf t = x.manager.recordsOf t ∨
      (m.recordsOf t = x.manager.recordsOf t ++ [x.manager.recordFor t type] ∧
        isPageRecord type = true))
    (hc : commitCount (x.manager.recordsOf t) = 0) (ha : abortCount (x.manager.recordsOf t) = 0)
    (hinv : (Threads.mk m x.jobs).Inv) : Good ⟨m,x.jobs⟩ := by
  have hcounts : commitCount (m.recordsOf t) = 0 ∧ abortCount (m.recordsOf t) = 0 ∧
      Closed (m.recordsOf t) := by
    have hclosed := (h.outcome t).closed
    rcases hrecords with hr | ⟨hr,hp⟩
    · rw [hr]
      exact ⟨hc,ha,hclosed⟩
    · rw [hr,commitCount_append,abortCount_append]
      · exact ⟨hc,ha,hclosed.work hc ha⟩
      · rintro rfl
        simp [isPageRecord] at hp
      · rintro rfl
        simp [isPageRecord] at hp
  obtain ⟨hc',ha',hclosed'⟩ := hcounts
  have ho := h.outcome t
  refine h.move hm hinv ?_ (fun j hj _ => hj) ?_ fun hle => ?_
  · have hsame : m.state = x.manager.state := by
      funext u
      by_cases hu : u = t
      · exact hu ▸ hstate
      · exact hm.state u hu
    rw [hsame]
    exact h.placed
  · unfold Threads.OutcomeOk
    dsimp only
    rw [hstate,hundone,hguards]
    refine ⟨hc'.trans_le (Nat.zero_le 1),hclosed',
      fun hpos => absurd hc' (Nat.pos_iff_ne_zero.mp hpos),
      fun hpos => absurd ha' (Nat.pos_iff_ne_zero.mp hpos),ho.undone,fun _ => hc',fun hn => ?_,
      fun hpos => ⟨hc',ha',(hg hpos).2⟩⟩
    by_contra hne
    exact (hg (Nat.pos_of_ne_zero hne)).1 hn
  · have hold := h.unused t hle
    exact ⟨howned.trans hold.owned,hundone.trans hold.undone,hc',ha',hold.jobs⟩

/-- An active transaction has no terminal record and no thread inside `Commit` or `Abort`. -/
theorem Good.active (h : Good x) (ha : x.manager.state t = .active) :
    commitCount (x.manager.recordsOf t) = 0 ∧ abortCount (x.manager.recordsOf t) = 0 ∧
      x.manager.undone t = false := by
  have ho := h.outcome t
  unfold Threads.OutcomeOk at ho
  rw [ha] at ho
  refine ⟨?_,?_,?_⟩
  · by_contra hc
    have := ho.committing (Nat.pos_of_ne_zero hc)
    simp at this
  · by_contra hc
    have := ho.aborting (Nat.pos_of_ne_zero hc)
    simp at this
  · by_contra hc
    have := ho.undone (by simpa using hc)
    simp at this

theorem Good.begin (h : Good x) (answer : Status) :
    Good { x with manager := (x.manager.begin answer).2 } := by
  have hinv : (Threads.mk (x.manager.begin answer).2 x.jobs).Inv :=
    h.inv.keep (begin_extends x.manager answer) (begin_facts h.inv.facts answer)
  have hnew := h.unused x.manager.nextTxnId le_rfl
  have hstate : (x.manager.begin answer).2.state =
      Function.update x.manager.state x.manager.nextTxnId .active := by
    cases answer <;> rfl
  have hundone : (x.manager.begin answer).2.undone = x.manager.undone := by
    cases answer <;> rfl
  have hguards : (x.manager.begin answer).2.activeWriteGuards =
      Function.update x.manager.activeWriteGuards x.manager.nextTxnId 0 := by
    cases answer <;> rfl
  have hnext : (x.manager.begin answer).2.nextTxnId = x.manager.nextTxnId + 1 := by
    cases answer <;> rfl
  have hrecords : ∀ u, commitCount ((x.manager.begin answer).2.recordsOf u) =
        commitCount (x.manager.recordsOf u) ∧
      abortCount ((x.manager.begin answer).2.recordsOf u) = abortCount (x.manager.recordsOf u) ∧
      (Closed (x.manager.recordsOf u) → Closed ((x.manager.begin answer).2.recordsOf u)) := by
    intro u
    cases answer with
    | error e => exact ⟨rfl,rfl,id⟩
    | ok _ =>
      let n : Manager := { x.manager.newTransaction x.manager.nextTxnId with
        nextTxnId := x.manager.nextTxnId + 1 }
      have hn : n.recordsOf u = x.manager.recordsOf u := rfl
      change commitCount ((n.appendFor x.manager.nextTxnId .begin).recordsOf u) = _ ∧
        abortCount ((n.appendFor x.manager.nextTxnId .begin).recordsOf u) = _ ∧
        (_ → Closed ((n.appendFor x.manager.nextTxnId .begin).recordsOf u))
      by_cases hu : u = x.manager.nextTxnId
      · subst hu
        rw [recordsOf_appendFor,hn,commitCount_append (by simp [Manager.recordFor]),
          abortCount_append (by simp [Manager.recordFor])]
        exact ⟨rfl,rfl,fun hc => hc.append rfl⟩
      · rw [recordsOf_appendFor_other n .begin hu,hn]
        exact ⟨rfl,rfl,id⟩
  have howned : ∀ u, u ≠ x.manager.nextTxnId →
      (x.manager.begin answer).2.owned u = x.manager.owned u := by
    intro u hu
    cases answer with
    | error e => rfl
    | ok _ => exact Function.update_of_ne hu _ _
  refine ⟨hinv,⟨fun j hj => ?_,h.placed.sole⟩,fun u => ?_,fun u hu => ?_⟩
  · dsimp only
    rw [hstate,Function.update_of_ne (hnew.jobs j hj)]
    exact h.placed.fits j hj
  · have ho := h.outcome u
    unfold Threads.OutcomeOk at ho ⊢
    dsimp only
    obtain ⟨hc,ha,hcl⟩ := hrecords u
    rw [hstate,hundone,hguards]
    by_cases hun : u = x.manager.nextTxnId
    · subst hun
      rw [Function.update_self,Function.update_self]
      refine ⟨hc ▸ ho.once,hcl ho.closed,fun hpos => ?_,fun hpos => ?_,fun hu => ?_,fun hb => ?_,
        fun _ => rfl,fun hpos => absurd hpos (lt_irrefl 0)⟩
      · rw [hc,hnew.commits] at hpos
        cases hpos
      · rw [ha,hnew.aborts] at hpos
        cases hpos
      · rw [hnew.undone] at hu
        cases hu
      · rw [hc,hnew.commits]
    · rw [Function.update_of_ne hun,Function.update_of_ne hun]
      exact ⟨hc ▸ ho.once,hcl ho.closed,fun hpos => ho.committing (hc ▸ hpos),
        fun hpos => ho.aborting (ha ▸ hpos),ho.undone,fun hb => hc ▸ ho.before hb,ho.next,
        fun hpos => by rw [hc,ha]; exact ho.guards hpos⟩
  · have hle : x.manager.nextTxnId + 1 ≤ u := hnext ▸ hu
    have hold := h.unused u (Nat.le_of_succ_le hle)
    have hne : u ≠ x.manager.nextTxnId := Nat.ne_of_gt hle
    obtain ⟨hc,ha,-⟩ := hrecords u
    exact ⟨(howned u hne).trans hold.owned,by rw [hundone]; exact hold.undone,
      hc.trans hold.commits,ha.trans hold.aborts,hold.jobs⟩

theorem Good.commit (h : Good x) : Good (x.spawn t (x.manager.commit t)) := by
  have hinv : (x.spawn t (x.manager.commit t)).Inv :=
    .spawn h.inv.ready (commit_progressed h.inv.facts t)
  have ho := h.outcome t
  unfold Threads.OutcomeOk at ho
  unfold Manager.commit at hinv ⊢
  split
  · exact h
  rename_i howned
  rw [if_neg howned] at hinv
  have hlt := h.lt_next_of_owned (t := t) (by simpa using howned)
  split at hinv
  · rename_i hstate
    refine h.carry (.refl x.manager t) (List.Sublist.refl _) ?_ hlt
      (.inr ⟨.commitCleanup,rfl,rfl,hstate⟩) hinv ho.idle
    rintro ⟨u,s⟩ hk rfl
    have hfk := h.placed.fits _ hk
    exact ⟨(fits_committed hfk (.inr hstate)).1,hfk⟩
  · rename_i hstate
    split at hinv
    · rename_i hlsn
      rw [if_pos hlsn]
      exact h
    · rename_i hlsn
      rw [if_neg hlsn]
      refine h.carry (.refl x.manager t) (List.Sublist.refl _) ?_ hlt
        (.inr ⟨.commitRetry (x.manager.commitLsn t),rfl,rfl,.inl hstate⟩) hinv ho.idle
      rintro ⟨u,s⟩ hk rfl
      have hfk := h.placed.fits _ hk
      exact ⟨(fits_committed hfk (.inl hstate)).1,hfk⟩
  · exact h
  · rename_i hstate
    have hnew : (x.manager.setState t .committing).state t = .committing := by
      rw [setState_state,Function.update_self]
    obtain ⟨hc,ha,hu⟩ := h.active hstate
    refine h.reserve (.setState x.manager t .committing) (List.Sublist.refl _)
      (h.placed.none (.inl hstate)) hlt hinv hnew ?_
    rw [hnew]
    exact ⟨ho.once,ho.closed,fun _ => .inl rfl,fun hpos => absurd ha (Nat.pos_iff_ne_zero.mp hpos),
      fun hun => absurd (hu.symm.trans hun) (by simp),fun _ => hc,fun hb => (by simp at hb),
      fun _ => ⟨hc,ha,.inr (.inr rfl)⟩⟩
  · exact h

theorem Good.abort (h : Good x) : Good (x.spawn t (x.manager.abort t)) := by
  have hinv : (x.spawn t (x.manager.abort t)).Inv :=
    .spawn h.inv.ready (abort_progressed h.inv.facts t)
  have ho := h.outcome t
  unfold Threads.OutcomeOk at ho
  -- the two states in which the abort is taken on
  have hreserve : ∀ y, x.manager.state t = y → (y = .active ∨ y = .failed) →
      x.manager.owned t = true → x.manager.activeWriteGuards t = 0 →
      (Threads.mk (x.manager.setState t .aborting) ((t,.abortUndo) :: x.jobs)).Inv →
      Good ⟨x.manager.setState t .aborting,(t,.abortUndo) :: x.jobs⟩ := by
    intro y hy hkind howned hguards hinv
    have hnew : (x.manager.setState t .aborting).state t = .aborting := by
      rw [setState_state,Function.update_self]
    have hc : commitCount (x.manager.recordsOf t) = 0 := by
      by_contra hc
      have hstate := ho.committing (Nat.pos_of_ne_zero hc)
      rcases hkind with rfl | rfl <;> simp [hy] at hstate
    refine h.reserve (.setState x.manager t .aborting) (List.Sublist.refl _)
      (h.placed.none (hy ▸ hkind)) (h.lt_next_of_owned howned) hinv hnew ?_
    rw [hnew]
    refine ⟨ho.once,ho.closed,fun hpos => absurd hc (Nat.pos_iff_ne_zero.mp hpos),fun _ => .inl rfl,
      fun _ => .inl rfl,fun hb => by simp at hb,fun hb => by simp at hb,fun hpos => ?_⟩
    exact absurd hguards (Nat.pos_iff_ne_zero.mp hpos)
  unfold Manager.abort at hinv ⊢
  split
  · exact h
  rename_i howned
  rw [if_neg howned] at hinv
  have howned' : x.manager.owned t = true := by simpa using howned
  split at hinv
  · exact h
  · exact h
  · exact h
  · split <;> exact h
  · split <;> exact h
  · rename_i hstate
    split
    · exact h
    · rename_i hg
      rw [if_neg hg] at hinv
      exact hreserve _ hstate (.inl rfl) howned' (not_not.mp hg) hinv
  · rename_i hstate
    split
    · exact h
    · rename_i hg
      rw [if_neg hg] at hinv
      exact hreserve _ hstate (.inr rfl) howned' (not_not.mp hg) hinv

theorem Good.markFailed (h : Good x) (ha : x.manager.state t = .active) :
    Good { x with manager := x.manager.setState t .failed } := by
  have hinv : (Threads.mk (x.manager.setState t .failed) x.jobs).Inv :=
    h.inv.keep (.of_eq rfl rfl) (h.inv.facts.setState (by simp))
  refine h.weaken hinv (fun u => ?_) rfl rfl rfl rfl rfl
  rw [setState_state]
  by_cases hu : u = t
  · subst hu
    exact .inr ⟨ha,Function.update_self _ _ _⟩
  · exact .inl (Function.update_of_ne hu _ _)

theorem Good.guarded {x' : Threads} {v : GuardEvent} (h : Good x) (hn : x.guarded v = some x') :
    Good x' := by
  cases v with
  | fetchPageWrite t =>
    simp only [Threads.guarded] at hn
    split at hn
    case isFalse => cases hn
    rename_i ha
    obtain rfl := Option.some.inj hn
    obtain ⟨hc,hab,-⟩ := h.active ha
    have hm : Move x.manager
        (x.manager.setWriteGuards t (x.manager.activeWriteGuards t + 1)) t :=
      ⟨fun _ _ => rfl,fun _ _ => rfl,fun _ hu => Function.update_of_ne hu _ _,fun _ _ => rfl,
        fun _ _ => rfl,rfl⟩
    refine h.work .pageUpdate hm rfl rfl (Function.update_self _ _ _) (fun _ => ⟨?_,.inl ha⟩)
      rfl (.inl rfl) hc hab ?_
    · exact fun hj => h.placed.none (.inl ha) _ hj rfl
    · exact h.inv.keep (.of_eq rfl rfl) (h.inv.facts.extends (.of_eq rfl rfl) (fun _ hu => hu) rfl)
  | release t logged =>
    simp only [Threads.guarded] at hn
    split at hn
    case isTrue => cases hn
    rename_i hg
    obtain rfl := Option.some.inj hn
    have ho := h.outcome t
    obtain ⟨hc,hab,hstate⟩ := ho.guards (Nat.pos_of_ne_zero hg)
    have hpending : 0 < x.manager.activeWriteGuards t - 1 → (t,.commitAppend) ∉ x.jobs ∧
        (x.manager.state t = .active ∨ x.manager.state t = .failed ∨
          x.manager.state t = .committing) := fun _ => ⟨fun hj => hg (ho.next hj),hstate⟩
    cases logged with
    | true =>
      have hm : Move x.manager (x.manager.releaseGuard t true) t :=
        (Move.appendFor x.manager t .pageUpdate).trans
          ⟨fun _ _ => rfl,fun _ _ => rfl,fun _ hu => Function.update_of_ne hu _ _,fun _ _ => rfl,
            fun _ _ => rfl,rfl⟩
      have he := extends_appendFor x.manager t .pageUpdate
      have he' : Extends x.manager (x.manager.releaseGuard t true) :=
        ⟨he.records,he.durable,he.undone⟩
      refine h.work .pageUpdate hm rfl rfl (Function.update_self _ _ _) hpending rfl
        (.inr ⟨recordsOf_appendFor x.manager t .pageUpdate,rfl⟩) hc hab ?_
      exact h.inv.keep he' (h.inv.facts.extends he' (fun _ hu => hu) rfl)
    | false =>
      have hm : Move x.manager (x.manager.releaseGuard t false) t :=
        ⟨fun _ _ => rfl,fun _ _ => rfl,fun _ hu => Function.update_of_ne hu _ _,fun _ _ => rfl,
          fun _ _ => rfl,rfl⟩
      refine h.work .pageUpdate hm rfl rfl (Function.update_self _ _ _) hpending rfl
        (.inl rfl) hc hab ?_
      exact h.inv.keep (.of_eq rfl rfl)
        (h.inv.facts.extends (.of_eq rfl rfl) (fun _ hu => hu) rfl)
  | step v =>
    cases v with
    | guards t count => cases hn
    | call c => exact h.lock (by simp) hn
    | enter c => exact h.lock (by simp) hn
    | wake t l => exact h.lock (by simp) hn
    | detectDeadlocks order => exact h.lock (a := .detectDeadlocks order) (by simp) hn
    | begin answer =>
      obtain rfl := Option.some.inj hn
      exact h.begin answer
    | work t type =>
      simp only [Threads.guarded,Threads.next] at hn
      split at hn
      case isFalse => cases hn
      rename_i hcond
      obtain rfl := Option.some.inj hn
      simp only [Bool.and_eq_true,decide_eq_true_eq] at hcond
      obtain ⟨hc,hab,-⟩ := h.active hcond.1
      have he := extends_appendFor x.manager t type
      refine h.work type (.appendFor x.manager t type) rfl rfl rfl (fun _ => ⟨?_,.inl hcond.1⟩) rfl
        (.inr ⟨recordsOf_appendFor x.manager t type,hcond.2⟩) hc hab ?_
      · exact fun hj => h.placed.none (.inl hcond.1) _ hj rfl
      · exact h.inv.keep he (h.inv.facts.extends he (fun _ hu => hu) rfl)
    | markFailed t =>
      simp only [Threads.guarded,Threads.next] at hn
      split at hn
      · rename_i ha
        obtain rfl := Option.some.inj hn
        exact h.markFailed ha
      · obtain rfl := Option.some.inj hn
        exact h
    | commit t =>
      obtain rfl := Option.some.inj hn
      exact h.commit
    | abort t =>
      obtain rfl := Option.some.inj hn
      exact h.abort
    | advance t stage answer => exact h.advance hn

theorem good_initial : Good Threads.initial where
  inv := Threads.inv_initial
  placed := ⟨by simp [Threads.initial],by simp [Threads.initial]⟩
  outcome t := ⟨Nat.zero_le _,List.Pairwise.nil,fun h => absurd h (lt_irrefl 0),
    fun h => absurd h (lt_irrefl 0),fun h => (by cases h),fun _ => rfl,fun _ => rfl,
    fun h => absurd h (lt_irrefl 0)⟩
  unused t _ := ⟨rfl,rfl,rfl,rfl,by simp [Threads.initial]⟩

end moves

theorem good_of_reach {x : Threads} (h : Reach (· = Threads.initial) (StepOf Threads.guarded) x) :
    Good x :=
  h.invariant (P := Good) (fun s (hs : s = Threads.initial) => hs ▸ good_initial)
    fun _ _ _ hg hn => hg.guarded hn

/-- One outcome a transaction: at most one Commit record and none beside an Abort record;
`Committed` only with a durable Commit record; with a Commit record in the log no abort or
undo, then or before; and no page record behind a Commit or Abort record. -/
theorem outcome_unique {x : Threads}
    (h : Reach (· = Threads.initial) (StepOf Threads.guarded) x) (t : TxnId) :
    commitCount (x.manager.recordsOf t) ≤ 1 ∧
    ¬(0 < commitCount (x.manager.recordsOf t) ∧ 0 < abortCount (x.manager.recordsOf t)) ∧
    (x.manager.state t = .committed → Durable x.manager t .commit) ∧
    (0 < commitCount (x.manager.recordsOf t) ∨ x.manager.state t = .commitUncertain →
      x.manager.undone t = false ∧ (∀ j ∈ x.jobs, j.1 = t → j.2.undoes = false) ∧
        ∃ e, x.manager.abort t = (.done (.error e),x.manager)) ∧
    Closed (x.manager.recordsOf t) := by
  have hg := good_of_reach h
  have ho := hg.outcome t
  refine ⟨ho.once,fun ⟨hc,ha⟩ => ?_,hg.inv.facts.committed t,fun hdecided => ?_,ho.closed⟩
  · have hstate := ho.committing hc
    rcases ho.aborting ha with hs | hs | hs <;> simp [hs] at hstate
  · have hstate : x.manager.state t = .committing ∨ x.manager.state t = .commitUncertain ∨
        x.manager.state t = .committed := by
      rcases hdecided with hc | hs
      · exact ho.committing hc
      · exact .inr (.inl hs)
    refine ⟨?_,?_,?_⟩
    · by_contra hu
      rcases ho.undone (by simpa using hu) with hs | hs | hs <;> simp [hs] at hstate
    · rintro ⟨u,s⟩ hj rfl
      have hf := hg.placed.fits _ hj
      cases s <;> simp [Stage.undoes] <;> simp [Stage.fits] at hf <;> simp [hf] at hstate
    · unfold Manager.abort
      split
      · exact ⟨_,rfl⟩
      · rcases hstate with hs | hs | hs <;> simp only [hs]
        · split <;> exact ⟨_,rfl⟩
        · exact ⟨_,rfl⟩
        · exact ⟨_,rfl⟩

/-- A writer whose Commit record is in the log when its flush fails. -/
def uncertainRun : List GuardEvent :=
  [.step (.begin (.ok ())),.fetchPageWrite 1,.release 1 true,.step (.commit 1),
    .step (.advance 1 .commitGuards (.ok ())),.step (.advance 1 .commitAppend (.ok ())),
    .step (.advance 1 (.commitFlush 3) (fail .ioError "cannot flush WAL"))]

def uncertain : Threads := (exec Threads.guarded .initial uncertainRun).get rfl

theorem outcome_unique_uncertain : uncertain.manager.state 1 = .commitUncertain ∧
    ∃ e, uncertain.manager.abort 1 = (.done (.error e),uncertain.manager) := by
  have hr : Reach (· = Threads.initial) (StepOf Threads.guarded) uncertain :=
    exec_reach (.init rfl) (Option.some_get _).symm
  have hstate : uncertain.manager.state 1 = .commitUncertain := by decide +kernel
  exact ⟨hstate,((outcome_unique hr 1).2.2.2.1 (.inr hstate)).2.2⟩

end Transaction
end OurSql
