import OurSql.Recovery.Engine
import OurSql.Storage.Allocate

/-! The log of the running engine: every step keeps it well formed, and the phase of
a transaction says what the log holds of it. -/
namespace OurSql
namespace Recovery

open Crash Storage

def Engine.log (e : Engine) : List LogRecord := e.store.log.records

/-- The record that `appendFor` puts at the end of the log. -/
def Engine.stamp (e : Engine) (t : TxnId) (record : LogRecord) : LogRecord :=
  { record with txnId := t, prevLsn := e.lastLsn t, lsn := e.store.log.appendLsn + 1 }

@[simp] theorem push_records (l : LogManager) (r : LogRecord) :
    (l.push r).records = l.records ++ [{ r with lsn := l.appendLsn + 1 }] := rfl
@[simp] theorem appendFor_log (e : Engine) (t : TxnId) (r : LogRecord) :
    (e.appendFor t r).log = e.log ++ [e.stamp t r] := rfl
@[simp] theorem appendFor_disk (e : Engine) (t : TxnId) (r : LogRecord) :
    (e.appendFor t r).store.disk = e.store.disk := rfl
@[simp] theorem setPhase_log (e : Engine) (t : TxnId) (x : Phase) :
    (e.setPhase t x).log = e.log := rfl
@[simp] theorem setFrame_log (e : Engine) (p : PageId) (x : Option Page) (l : Lsn) :
    (e.setFrame p x l).log = e.log := rfl
@[simp] theorem lock_log (e : Engine) (p : PageId) (t : TxnId) : (e.lock p t).log = e.log := rfl
@[simp] theorem unlockAll_log (e : Engine) (t : TxnId) : (e.unlockAll t).log = e.log := rfl
@[simp] theorem setDurable_log (e : Engine) (l : Lsn) : (e.setDurable l).log = e.log := rfl
@[simp] theorem flushFrame_log (e : Engine) (p : PageId) (x : Page) :
    (e.flushFrame p x).log = e.log := rfl
@[simp] theorem appendFor_frame (e : Engine) (t : TxnId) (r : LogRecord) :
    (e.appendFor t r).frame = e.frame := rfl
@[simp] theorem appendFor_pageLsn (e : Engine) (t : TxnId) (r : LogRecord) :
    (e.appendFor t r).pageLsn = e.pageLsn := rfl
@[simp] theorem setFrame_frame (e : Engine) (p : PageId) (x : Option Page) (l : Lsn) :
    (e.setFrame p x l).frame = Function.update e.frame p x := rfl
@[simp] theorem setFrame_pageLsn (e : Engine) (p : PageId) (x : Option Page) (l : Lsn) :
    (e.setFrame p x l).pageLsn = Function.update e.pageLsn p l := rfl
@[simp] theorem setFrame_store (e : Engine) (p : PageId) (x : Option Page) (l : Lsn) :
    (e.setFrame p x l).store = e.store := rfl
@[simp] theorem lock_frame (e : Engine) (p : PageId) (t : TxnId) :
    (e.lock p t).frame = e.frame := rfl
@[simp] theorem lock_pageLsn (e : Engine) (p : PageId) (t : TxnId) :
    (e.lock p t).pageLsn = e.pageLsn := rfl
@[simp] theorem lock_store (e : Engine) (p : PageId) (t : TxnId) :
    (e.lock p t).store = e.store := rfl
@[simp] theorem flushFrame_frame (e : Engine) (p : PageId) (x : Page) :
    (e.flushFrame p x).frame = Function.update e.frame p (some x) := rfl
@[simp] theorem flushFrame_pageLsn (e : Engine) (p : PageId) (x : Page) :
    (e.flushFrame p x).pageLsn = Function.update e.pageLsn p invalidLsn := rfl
@[simp] theorem flushFrame_file (e : Engine) (p : PageId) (x : Page) :
    (e.flushFrame p x).store.disk.file = Function.update e.store.disk.file p x := rfl
@[simp] theorem restorePage_log (e : Engine) (p : PageId) (x : Page) :
    (e.restorePage p x).log = e.log := rfl

@[simp] theorem setPhase_phase (e : Engine) (t : TxnId) (x : Phase) :
    (e.setPhase t x).phase = Function.update e.phase t x := rfl
@[simp] theorem newTransaction_lastLsn (e : Engine) : e.newTransaction.lastLsn =
    Function.update e.lastLsn e.nextTxn invalidLsn := rfl

/-- What the log holds of a transaction in each phase. -/
def PhaseOk (w : List LogRecord) (t : TxnId) : Phase → Prop
  | .idle => ∀ r ∈ w, r.txnId = t → Ended w t
  | .active => ¬Ended w t
  | .committing _ => Committed w t
  | .committed => Committed w t
  | .aborting _ => ¬Ended w t
  | .aborted _ => Ended w t ∧ ¬Committed w t

/-- The log of a running engine. -/
structure LogOk (e : Engine) : Prop where
  wellFormed : WellFormed e.log
  ids : ∀ r ∈ e.log, r.txnId ≠ invalidTxnId ∧ r.txnId < e.nextTxn
  next : e.nextTxn ≠ invalidTxnId
  started : ∀ t, e.phase t ≠ .idle → t ≠ invalidTxnId ∧ t < e.nextTxn
  last : ∀ t, e.phase t ≠ .idle → e.lastLsn t = lastLsnOf e.log t
  phase : ∀ t, PhaseOk e.log t (e.phase t)

theorem phaseOk_append {w : List LogRecord} {r : LogRecord} {t : TxnId} {x : Phase}
    (h : PhaseOk w t x) (hr : r.txnId ≠ t) : PhaseOk (w ++ [r]) t x := by
  have hended : Ended (w ++ [r]) t ↔ Ended w t := by simp [ended_append,hr]
  have hcommit : Committed (w ++ [r]) t ↔ Committed w t := by simp [committed_append,hr]
  cases x with
  | idle =>
    intro s hs hst
    rcases List.mem_append.mp hs with hs | hs
    · exact hended.mpr (h s hs hst)
    · exact absurd (List.mem_singleton.mp hs ▸ hst) hr
  | active => exact fun hc => h (hended.mp hc)
  | committing l => exact hcommit.mpr h
  | committed => exact hcommit.mpr h
  | aborting l => exact fun hc => h (hended.mp hc)
  | aborted l => exact ⟨hended.mpr h.1,fun hc => h.2 (hcommit.mp hc)⟩

/-- An append for one transaction: the others keep their phase, and it takes one that
fits the record. -/
theorem LogOk.append {e e' : Engine} (h : LogOk e) {t : TxnId} {record : LogRecord}
    (ht : t ≠ invalidTxnId) (hlast : e.lastLsn t = lastLsnOf e.log t) (hopen : ¬Ended e.log t)
    (henc : encodeCheck record = .ok ()) (hcomp : record.type ≠ .compensation)
    (hlog : e'.log = e.log ++ [e.stamp t record])
    (hlasts : e'.lastLsn = Function.update e.lastLsn t (e.store.log.appendLsn + 1))
    (hnext : e.nextTxn ≤ e'.nextTxn) (htn : t < e'.nextTxn)
    (hphases : ∀ u, u ≠ t → e'.phase u = e.phase u)
    (hphase : PhaseOk (e.log ++ [e.stamp t record]) t (e'.phase t)) : LogOk e' where
  wellFormed := by
    rw [hlog]
    refine h.wellFormed.append (Nat.lt_succ_self _) ht hlast ?_ hopen fun hc => absurd hc hcomp
    exact henc
  ids r hr := by
    rw [hlog] at hr
    rcases List.mem_append.mp hr with hr | hr
    · exact ⟨(h.ids r hr).1,lt_of_lt_of_le (h.ids r hr).2 hnext⟩
    · rw [List.mem_singleton.mp hr]
      exact ⟨ht,htn⟩
  next := fun hz => absurd htn (by rw [hz]; exact Nat.not_lt_zero t)
  started u hu := by
    by_cases hut : u = t
    · exact hut ▸ ⟨ht,htn⟩
    · rw [hphases u hut] at hu
      exact ⟨(h.started u hu).1,lt_of_lt_of_le (h.started u hu).2 hnext⟩
  last u hu := by
    have hbound : lastLsnOf e.log t ≤ e.store.log.appendLsn := lastLsnOf_le_appendLsnOf _ _
    rw [hlog,hlasts,lastLsnOf_append]
    by_cases hut : u = t
    · subst hut
      have hstamp : (e.stamp u record).txnId = u := rfl
      rw [Function.update_self,if_pos hstamp]
      exact (max_eq_right (Nat.le_succ_of_le hbound)).symm
    · have hstamp : (e.stamp t record).txnId ≠ u := fun hc => hut hc.symm
      rw [Function.update_of_ne hut,if_neg hstamp]
      rw [hphases u hut] at hu
      exact h.last u hu
  phase u := by
    rw [hlog]
    by_cases hut : u = t
    · exact hut ▸ hphase
    · rw [hphases u hut]
      exact phaseOk_append (h.phase u) fun hc => hut hc.symm

/-- A step that leaves the log alone. -/
theorem LogOk.silent {e e' : Engine} (h : LogOk e) (hlog : e'.log = e.log)
    (hlasts : e'.lastLsn = e.lastLsn) (hnext : e'.nextTxn = e.nextTxn)
    (hstarted : ∀ t, e'.phase t ≠ .idle → e.phase t ≠ .idle)
    (hphase : ∀ t, PhaseOk e.log t (e'.phase t)) : LogOk e' where
  wellFormed := hlog ▸ h.wellFormed
  ids := by rw [hlog,hnext]; exact h.ids
  next := hnext ▸ h.next
  started t ht := hnext ▸ h.started t (hstarted t ht)
  last t ht := by rw [hlog,hlasts]; exact h.last t (hstarted t ht)
  phase t := by rw [hlog]; exact hphase t

@[simp] theorem deletePage_log (e : Engine) (p : PageId) : (e.deletePage p).log = e.log := by
  unfold Engine.deletePage Engine.log
  simp only [(keeps_log_deallocatePage p).run]
  split
  · split <;> rfl
  · rfl

@[simp] theorem undoRecord_log (e : Engine) (t : TxnId) (r : LogRecord) :
    (e.undoRecord t r).log = e.log := by
  unfold Engine.undoRecord
  split
  · exact restorePage_log _ _ _
  · exact deletePage_log _ _
  · rfl
  · rfl

@[simp] theorem deletePage_lastLsn (e : Engine) (p : PageId) :
    (e.deletePage p).lastLsn = e.lastLsn := by
  unfold Engine.deletePage
  split
  · split <;> rfl
  · rfl

@[simp] theorem deletePage_nextTxn (e : Engine) (p : PageId) :
    (e.deletePage p).nextTxn = e.nextTxn := by
  unfold Engine.deletePage
  split
  · split <;> rfl
  · rfl

@[simp] theorem deletePage_phase (e : Engine) (p : PageId) :
    (e.deletePage p).phase = e.phase := by
  unfold Engine.deletePage
  split
  · split <;> rfl
  · rfl

@[simp] theorem undoRecord_lastLsn (e : Engine) (t : TxnId) (r : LogRecord) :
    (e.undoRecord t r).lastLsn = e.lastLsn := by
  unfold Engine.undoRecord
  split
  · rfl
  · exact deletePage_lastLsn _ _
  · rfl
  · rfl

@[simp] theorem undoRecord_nextTxn (e : Engine) (t : TxnId) (r : LogRecord) :
    (e.undoRecord t r).nextTxn = e.nextTxn := by
  unfold Engine.undoRecord
  split
  · rfl
  · exact deletePage_nextTxn _ _
  · rfl
  · rfl

@[simp] theorem undoRecord_phase (e : Engine) (t : TxnId) (r : LogRecord) :
    (e.undoRecord t r).phase = e.phase := by
  unfold Engine.undoRecord
  split
  · rfl
  · exact deletePage_phase _ _
  · rfl
  · rfl

theorem LogOk.fresh {e : Engine} (h : LogOk e) :
    e.phase e.nextTxn = .idle ∧ (∀ r ∈ e.log, r.txnId ≠ e.nextTxn) := by
  constructor
  · by_contra hp
    exact absurd (h.started _ hp).2 (lt_irrefl _)
  · exact fun r hr hc => absurd (hc ▸ (h.ids r hr).2) (lt_irrefl _)

theorem LogOk.newTransaction {e : Engine} (h : LogOk e) : LogOk e.newTransaction where
  wellFormed := h.wellFormed
  ids r hr := ⟨(h.ids r hr).1,Nat.lt_succ_of_lt (h.ids r hr).2⟩
  next := Nat.succ_ne_zero _
  started t ht := ⟨(h.started t ht).1,Nat.lt_succ_of_lt (h.started t ht).2⟩
  last t ht := by
    have hne : t ≠ e.nextTxn := fun hc => absurd (hc ▸ (h.started t ht).2) (lt_irrefl _)
    rw [newTransaction_lastLsn,Function.update_of_ne hne]
    exact h.last t ht
  phase := h.phase

/-- A step that changes no more than the phase of one transaction. -/
theorem LogOk.rephase {e e' : Engine} (h : LogOk e) {t : TxnId} {x : Phase}
    (hlog : e'.log = e.log) (hlasts : e'.lastLsn = e.lastLsn) (hnext : e'.nextTxn = e.nextTxn)
    (hphases : e'.phase = Function.update e.phase t x) (hold : e.phase t ≠ .idle)
    (hx : PhaseOk e.log t x) : LogOk e' := by
  refine h.silent hlog hlasts hnext (fun u hu => ?_) fun u => ?_
  · by_cases hut : u = t
    · exact hut ▸ hold
    · rwa [hphases,Function.update_of_ne hut] at hu
  · rw [hphases]
    by_cases hut : u = t
    · subst hut
      rw [Function.update_self]
      exact hx
    · rw [Function.update_of_ne hut]
      exact h.phase u

theorem LogOk.step {e e' : Engine} {a : Action} (h : LogOk e) (hs : Step e a e') : LogOk e' := by
  have hsame : ∀ e₁ : Engine, e₁.log = e.log → e₁.lastLsn = e.lastLsn → e₁.nextTxn = e.nextTxn →
      e₁.phase = e.phase → LogOk e₁ := fun e₁ h₁ h₂ h₃ h₄ =>
    h.silent h₁ h₂ h₃ (fun t ht => h₄ ▸ ht) fun t => h₄ ▸ h.phase t
  -- an append by a transaction at work
  have hwork : ∀ (t : TxnId) (record : LogRecord) (e₁ : Engine), e.phase t = .active →
      encodeCheck record = .ok () → record.type ≠ .compensation → isTerminal record = false →
      e₁.log = e.log ++ [e.stamp t record] →
      e₁.lastLsn = Function.update e.lastLsn t (e.store.log.appendLsn + 1) →
      e₁.nextTxn = e.nextTxn → e₁.phase = e.phase → LogOk e₁ := by
    intro t record e₁ ht henc hcomp hterm hlog hlasts hnext hphases
    have hne : e.phase t ≠ .idle := by simp [ht]
    have hopen : ¬Ended e.log t := by simpa [ht,PhaseOk] using h.phase t
    refine h.append (h.started t hne).1 (h.last t hne) hopen henc hcomp hlog hlasts
      (le_of_eq hnext.symm) (hnext ▸ (h.started t hne).2) (fun u _ => by rw [hphases]) ?_
    rw [hphases,ht]
    intro hc
    rcases (ended_append _ _ _).mp hc with hc | ⟨-,hc⟩
    · exact hopen hc
    · rw [show isTerminal (e.stamp t record) = isTerminal record from rfl,hterm] at hc
      cases hc
  -- an append of the record that ends a transaction
  have hend : ∀ (t : TxnId) (record : LogRecord) (x : Phase), e.phase t ≠ .idle →
      ¬Ended e.log t → encodeCheck record = .ok () → record.type ≠ .compensation →
      PhaseOk (e.log ++ [e.stamp t record]) t x → LogOk ((e.appendFor t record).setPhase t x) := by
    intro t record x hne hopen henc hcomp hx
    refine h.append (h.started t hne).1 (h.last t hne) hopen henc hcomp rfl rfl le_rfl
      (h.started t hne).2 (fun u hu => Function.update_of_ne hu _ _) ?_
    rw [setPhase_phase,Function.update_self]
    exact hx
  cases hs with
  | begin =>
    obtain ⟨hidle,hnone⟩ := h.fresh
    have hopen : ¬Ended e.log e.nextTxn := fun ⟨r,hr,hrt,_⟩ => hnone r hr hrt
    have hlast : e.newTransaction.lastLsn e.nextTxn = lastLsnOf e.log e.nextTxn := by
      rw [newTransaction_lastLsn,Function.update_self]
      by_contra hc
      obtain ⟨r,hr,hrt,-⟩ := lastLsnOf_mem (Ne.symm hc)
      exact hnone r hr hrt
    refine h.newTransaction.append h.next hlast hopen rfl (by simp) rfl rfl le_rfl
      (Nat.lt_succ_self _) (fun u hu => Function.update_of_ne hu _ _) ?_
    rw [setPhase_phase,Function.update_self]
    intro hc
    rcases (ended_append _ _ _).mp hc with hc | ⟨-,hc⟩
    · exact hopen hc
    · cases hc
  | takePage ht htaken hb hrun =>
    refine hsame _ ?_ rfl rfl rfl
    have hlog := keeps_log_allocatePage.run e.store
    rw [hrun] at hlog
    exact congrArg LogManager.records hlog
  | logAllocate ht htaken hl => exact hwork _ _ _ ht rfl (by simp) rfl rfl rfl rfl rfl
  | update ht hu hl => exact hwork _ _ _ ht rfl (by simp [updateRecord]) rfl rfl rfl rfl rfl
  | free ht hu hl => exact hwork _ _ _ ht rfl (by simp) rfl rfl rfl rfl rfl
  | flushLog hl => exact hsame _ rfl rfl rfl rfl
  | flushPage hf hd hp => exact hsame _ rfl rfl rfl rfl
  | evict hp => exact hsame _ rfl rfl rfl rfl
  | @commit t ht htaken =>
    refine hend _ _ _ (by simp [ht]) (by simpa [ht,PhaseOk] using h.phase t) rfl (by simp) ?_
    exact (committed_append _ _ _).mpr (.inr ⟨rfl,rfl⟩)
  | @commitFlush t lsn ht =>
    exact h.rephase rfl rfl rfl rfl (by simp [ht]) (by simpa [ht,PhaseOk] using h.phase t)
  | cleanup ht hd => exact hsame _ (by simp [Engine.log]; exact deletePage_log _ _) (by simp) (by simp) (by simp)
  | @finish t ht hd =>
    have hc : Committed e.log t := by simpa [ht,PhaseOk] using h.phase t
    exact h.rephase rfl rfl rfl rfl (by simp [ht]) fun _ _ _ => hc.ended
  | @abort t ht htaken =>
    exact h.rephase rfl rfl rfl rfl (by simp [ht]) (by simpa [ht,PhaseOk] using h.phase t)
  | @undo t r hr hrt ht =>
    have hphases : ((e.undoRecord t r).setPhase t (.aborting r.prevLsn)).phase =
        Function.update e.phase t (.aborting r.prevLsn) := by simp [Engine.setPhase]
    exact h.rephase (by simp) (by simp [Engine.setPhase]) (by simp [Engine.setPhase]) hphases
      (by simp [ht]) (by simpa [ht,PhaseOk] using h.phase t)
  | @abortAppend t ht =>
    have hopen : ¬Ended e.log t := by simpa [ht,PhaseOk] using h.phase t
    refine hend _ _ _ (by simp [ht]) hopen rfl (by simp)
      ⟨(ended_append _ _ _).mpr (.inr ⟨rfl,rfl⟩),fun hc => ?_⟩
    rcases (committed_append _ _ _).mp hc with hc | ⟨-,hc⟩
    · exact hopen hc.ended
    · cases hc
  | @abortFlush t lsn ht =>
    have hc : Ended e.log t := by
      have hp := h.phase t
      rw [ht] at hp
      exact hp.1
    exact h.rephase rfl rfl rfl rfl (by simp [ht]) fun _ _ _ => hc

end Recovery
end OurSql
