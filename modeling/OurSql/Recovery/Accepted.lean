import OurSql.Recovery.Run
import OurSql.Recovery.Engine

/-! The log as its writers leave it: transactions append in any order, recoveries add
compensation and Abort records, crashes cut the end off. Whatever the pages hold, the
scan accepts each such log and recovery finds every record it follows a link to. -/
namespace OurSql
namespace Recovery

open Crash Storage Transition

/-- A log whose links lead recovery from record to record. -/
structure Chained (w : List LogRecord) : Prop where
  linked : Linked w
  encoded : ∀ r ∈ w, encodeCheck r = .ok ()
  compensated : Compensated w

theorem chained_nil : Chained [] := ⟨wellFormed_nil.linked,by simp,wellFormed_nil.compensated⟩

theorem Chained.of_append {w z : List LogRecord} (h : Chained (w ++ z)) : Chained w where
  linked := h.linked.of_append
  encoded r hr := h.encoded r (by simp [hr])
  compensated before c after he hc := h.compensated before c (after ++ z) (by simp [he]) hc

theorem Chained.take {w : List LogRecord} (h : Chained w) (k : ℕ) : Chained (w.take k) := by
  rw [← List.take_append_drop k w] at h
  exact h.of_append

/-- The log grows by a record that points at the last one of its transaction. -/
theorem Chained.append {w : List LogRecord} {r : LogRecord} (h : Chained w)
    (hlsn : appendLsnOf w < r.lsn)
    (hprev : r.txnId ≠ invalidTxnId → r.prevLsn = lastLsnOf w r.txnId)
    (horphan : r.txnId = invalidTxnId → r.prevLsn = invalidLsn)
    (henc : encodeCheck r = .ok ())
    (hcomp : r.type = .compensation → ∃ x rest, undoStack w r.txnId = x :: rest ∧ Compensates r x) :
    Chained (w ++ [r]) where
  linked := h.linked.append hlsn hprev horphan
  encoded s hs := by
    rcases List.mem_append.mp hs with hs | hs
    · exact h.encoded s hs
    · exact List.mem_singleton.mp hs ▸ henc
  compensated before c after he hc := by
    rcases split_append he with ⟨rest,-,hw⟩ | ⟨rfl,rfl,-⟩
    · exact h.compensated before c rest hw hc
    · exact hcomp hc

/-! What recovery does to the log, whatever it finds on the file. -/

theorem stays_log_writeImage (p : PageId) (image : Option Page) :
    Stays Store.log (writeImage p image) := by
  unfold writeImage
  split
  · exact Stays.pure _
  · exact stays_log_writePhysicalPage _ _

theorem stays_log_deallocateIdempotent (p : PageId) :
    Stays Store.log (deallocateIdempotent p) := by
  refine Stays.bind (stays_log_deallocatePage p) fun r => ?_
  split <;> exact Stays.pure _

theorem stays_log_redoCompensation (record : LogRecord) :
    Stays Store.log (redoCompensation record) := by
  unfold redoCompensation
  split
  · exact stays_log_writeImage _ _
  · exact stays_log_deallocateIdempotent _
  · exact Stays.pure _
  · exact Stays.pure _

theorem stays_log_redoRecord (transactions : Transactions) (record : LogRecord) :
    Stays Store.log (redoRecord transactions record) := by
  unfold redoRecord
  split
  · exact Stays.pure _
  split
  · exact stays_log_writeImage _ _
  · exact stays_log_deallocateIdempotent _
  · exact stays_log_redoCompensation _
  · exact Stays.pure _

theorem stays_log_undoImage (record : LogRecord) : Stays Store.log (undoImage record) := by
  unfold undoImage
  split
  · exact stays_log_writeImage _ _
  · exact stays_log_deallocateIdempotent _
  · exact Stays.pure _

/-- The errors that recovery may report of a chained log: the file refuses an action. -/
def Refused (e : Failure) : Prop :=
  ∃ m, e = ⟨.ioError,"committed redo failed at LSN " ++ m⟩ ∨
    e = ⟨.ioError,"loser undo failed at LSN " ++ m⟩

section passes

variable {l : LogManager} {pr : Progress} {r : LogRecord} {w : List LogRecord}

theorem spec_redo_log (transactions : Transactions) (rs : List LogRecord) :
    Spec (fun s : Store => s.log = l) (redo transactions rs)
      (fun res s => s.log = l ∧ (res = .ok () ∨ ∃ e, res = .error e ∧ Refused e))
      (fun s => s.log = l) := by
  induction rs with
  | nil => exact Spec.pure fun s hs => ⟨hs,.inl rfl⟩
  | cons r rs ih =>
    refine Spec.bind (stays_log_redoRecord transactions r l) fun res => ?_
    cases res with
    | error e =>
      refine Spec.pure fun s hs => ⟨hs,.inr ⟨_,rfl,toString r.lsn ++ ": " ++ e.message,.inl ?_⟩⟩
      simp only [String.append_assoc]
    | ok _ => exact ih

/-- The compensation record is in the log before its action is tried. -/
theorem spec_undoRecord_log (henc : encodeCheck (compensationOf pr r) = .ok ()) :
    Spec (fun s : Store => s.log = l) (undoRecord pr r)
      (fun res s => s.log = l.push (compensationOf pr r) ∧
        (res = .ok (pr.advance r.txnId (l.appendLsn + 1)) ∨ ∃ e, res = .error e ∧ Refused e))
      (fun s => s.log = l ∨ s.log = l.push (compensationOf pr r)) := by
  refine Spec.of_state fun s hs => ?_
  subst hs
  refine Spec.step (spec_append henc (.inl rfl)) ?_
  refine Spec.bind (Q := fun _ t => t.log = (s.push (compensationOf pr r)).log) ?_ fun res => ?_
  · refine (stays_log_undoImage r _).conseq (fun t ht => congrArg Store.log ht) (fun _ _ h => h) ?_
    exact fun t ht => .inr ht
  cases res with
  | error e =>
    refine Spec.pure fun t ht => ⟨ht,.inr ⟨_,rfl,toString r.lsn ++ ": " ++ e.message,.inr ?_⟩⟩
    simp only [String.append_assoc]
  | ok _ => exact Spec.pure fun t ht => ⟨ht,.inl rfl⟩

/-- The log in the middle of the undo pass over `w`; `rs` is still to be undone. -/
structure UndoPass (w rs : List LogRecord) (pr : Progress) (l : LogManager) : Prop where
  chained : Chained l.records
  remaining : openRecords (isLoser (analyze w)) l.records = rs.reverse
  last : ∀ u, Unfinished w u → pr.lastLsn u = lastLsnOf l.records u
  recoveryLast : pr.recoveryLastLsn ≤ l.appendLsn

theorem UndoPass.next {rs : List LogRecord} (h : UndoPass w (r::rs) pr l) :
    Unfinished w r.txnId ∧ encodeCheck (compensationOf pr r) = .ok () ∧
      ∃ rest, undoStack l.records r.txnId = r :: rest := by
  have hrem : openRecords (isLoser (analyze w)) l.records = rs.reverse ++ [r] := by
    rw [h.remaining,List.reverse_cons]
  obtain ⟨hr,hlose,hs⟩ := mem_openRecords (r := r) h.chained.linked (by rw [hrem]; simp)
  exact ⟨(isLoser_iff _).mp hlose,
    encoded_compensationOf (h.chained.encoded r hr) (mem_undoStack hs).2.2 pr,
    openRecords_last h.chained.linked hrem⟩

/-- One more record undone. -/
theorem UndoPass.push {rs : List LogRecord} (h : UndoPass w (r::rs) pr l) :
    UndoPass w rs (pr.advance r.txnId (l.appendLsn + 1)) (l.push (compensationOf pr r)) := by
  obtain ⟨hu,henc,rest,hs⟩ := h.next
  have hrem : openRecords (isLoser (analyze w)) l.records = rs.reverse ++ [r] := by
    rw [h.remaining,List.reverse_cons]
  let c : LogRecord := { compensationOf pr r with lsn := l.appendLsn + 1 }
  have hlog : (l.push (compensationOf pr r)).records = l.records ++ [c] := rfl
  have hlsn : appendLsnOf l.records < c.lsn := Nat.lt_succ_self _
  refine ⟨?_,?_,fun u hu' => ?_,?_⟩
  · rw [hlog]
    exact h.chained.append hlsn (fun _ => h.last _ hu) (fun hz => absurd hz hu.1) henc
      fun _ => ⟨r,rest,hs,rfl,rfl,rfl,rfl⟩
  · rw [hlog]
    exact openRecords_compensate h.chained.linked hrem rfl rfl hlsn
  · have hle : lastLsnOf l.records r.txnId ≤ l.appendLsn := lastLsnOf_le_appendLsnOf _ _
    rw [hlog,lastLsnOf_append]
    by_cases hur : u = r.txnId
    · have htxn : c.txnId = u := hur.symm
      have hc : c.lsn = l.appendLsn + 1 := rfl
      rw [if_pos htxn,hur,hc,max_eq_right (Nat.le_succ_of_le hle)]
      simp [Progress.advance]
    · have htxn : c.txnId ≠ u := fun hc => hur hc.symm
      rw [if_neg htxn]
      simpa [Progress.advance,hur] using h.last u hu'
  · change max pr.recoveryLastLsn (l.appendLsn+1) ≤ appendLsnOf (l.records ++ [c])
    rw [appendLsnOf_append,max_eq_right (le_of_lt hlsn)]
    exact max_le (Nat.le_succ_of_le h.recoveryLast) le_rfl

theorem spec_undoAll_log (rs : List LogRecord) (h : UndoPass w rs pr l) :
    Spec (fun s : Store => s.log = l) (undoAll rs pr)
      (fun res s => (∃ pr', res = .ok pr' ∧ UndoPass w [] pr' s.log) ∨
        (∃ e, res = .error e ∧ Refused e) ∧ Chained s.log.records)
      (fun s => Chained s.log.records) := by
  induction rs generalizing pr l with
  | nil => exact Spec.pure fun s hs => .inl ⟨pr,rfl,hs ▸ h⟩
  | cons r rs ih =>
    obtain ⟨-,henc,-⟩ := h.next
    refine Spec.bind ((spec_undoRecord_log henc).conseq (fun _ h => h) (fun _ _ h => h) ?_)
      fun res => ?_
    · rintro s (hs | hs)
      · exact hs ▸ h.chained
      · exact hs ▸ h.push.chained
    cases res with
    | error e =>
      refine Spec.pure fun s hs => .inr ⟨?_,hs.1 ▸ h.push.chained⟩
      rcases hs.2 with hok | herr
      · cases hok
      · exact herr
    | ok pr' =>
      refine Spec.of_state fun s hs => ?_
      have hpr : pr' = pr.advance r.txnId (l.appendLsn + 1) := by
        rcases hs.2 with hok | ⟨e,herr,-⟩
        · exact Except.ok.inj hok
        · cases herr
      rw [hpr]
      exact (ih h.push).conseq (fun t ht => ht ▸ hs.1) (fun _ _ h => h) fun _ h => h

/-- The Abort records still to be written. -/
structure AbortPass (pr : Progress) (ts : List TxnId) (last : Lsn) (l : LogManager) : Prop where
  chained : Chained l.records
  nodup : ts.Nodup
  ids : ∀ u ∈ ts, u ≠ invalidTxnId
  lasts : ∀ u ∈ ts, pr.lastLsn u = lastLsnOf l.records u
  last : last ≤ l.appendLsn

theorem AbortPass.push {u : TxnId} {ts : List TxnId} {last : Lsn}
    (h : AbortPass pr (u::ts) last l) :
    AbortPass pr ts (max last (l.appendLsn + 1)) (l.push (abortOf pr u)) := by
  have hnodup := List.nodup_cons.mp h.nodup
  let a : LogRecord := { abortOf pr u with lsn := l.appendLsn + 1 }
  have hlog : (l.push (abortOf pr u)).records = l.records ++ [a] := rfl
  have hlsn : appendLsnOf l.records < a.lsn := Nat.lt_succ_self _
  refine ⟨?_,hnodup.2,fun v hv => h.ids v (by simp [hv]),fun v hv => ?_,?_⟩
  · rw [hlog]
    refine h.chained.append hlsn (fun _ => h.lasts u (by simp))
      (fun hz => absurd hz (h.ids u (by simp))) rfl fun hc => ?_
    cases hc
  · have hne : a.txnId ≠ v := by
      rintro rfl
      exact hnodup.1 hv
    rw [hlog,lastLsnOf_append,if_neg hne]
    exact h.lasts v (by simp [hv])
  · change _ ≤ appendLsnOf (l.records ++ [a])
    rw [appendLsnOf_append]
    exact max_le (le_trans h.last (le_max_left _ _)) (le_max_right _ _)

theorem spec_appendAborts_log (ts : List TxnId) {last : Lsn} (h : AbortPass pr ts last l) :
    Spec (fun s : Store => s.log = l) (appendAborts pr ts last)
      (fun res s => ∃ last', res = .ok last' ∧ AbortPass pr [] last' s.log)
      (fun s => Chained s.log.records) := by
  induction ts generalizing last l with
  | nil => exact Spec.pure fun s hs => ⟨last,rfl,hs ▸ h⟩
  | cons u ts ih =>
    refine Spec.of_state fun s hs => ?_
    subst hs
    refine Spec.step (spec_append rfl h.chained) ?_
    exact (ih h.push).conseq (fun t ht => ht ▸ rfl) (fun _ _ h => h) fun _ h => h

end passes

section recover

variable {order : List TxnId → List TxnId} {s : Store}

theorem UndoPass.start (h : Chained s.log.records) :
    UndoPass s.log.records (openRecords (isLoser (analyze s.log.records)) s.log.records).reverse
      (startUndo (analyze s.log.records) (losersOf order s.log.records)).progress s.log where
  chained := h
  remaining := by rw [List.reverse_reverse]
  last u hu := analyze_lastLsn hu
  recoveryLast := Nat.zero_le _

theorem spec_flush_reached {target : Lsn} (h : target ≤ s.log.appendLsn) :
    Spec (· = s) (flush target) (fun res t => res = .ok () ∧ t.log.records = s.log.records)
      (fun t => t.log.records = s.log.records) := by
  unfold flush
  refine Spec.get_bind ?_
  rw [if_neg (not_lt.mpr h)]
  split
  · exact Spec.pure fun t ht => ⟨rfl,ht ▸ rfl⟩
  · exact Spec.effect_bind rfl (Spec.pure fun t ht => ⟨rfl,ht ▸ rfl⟩)

/-- `Recover` of a chained log leaves a chained log at every moment, and all it may
report is that the file refused an action. -/
theorem spec_recover_log (ho : IsOrder order) (h : Chained s.log.records) :
    Spec (· = s) (recover order)
      (fun res t => (res = .ok () ∨ ∃ e, res = .error e ∧ Refused e) ∧ Chained t.log.records)
      (fun t => Chained t.log.records) := by
  unfold recover
  refine Spec.get_bind ?_
  simp only [scan_of_linked h.linked]
  refine Spec.bind ((spec_redo_log (l := s.log) _ _).conseq (fun t ht => congrArg Store.log ht)
    (fun _ _ h => h) fun t ht => ht ▸ h) fun res => ?_
  cases res with
  | error e =>
    refine Spec.pure fun t ht => ⟨.inr ?_,ht.1 ▸ h⟩
    rcases ht.2 with hok | herr
    · cases hok
    · exact herr
  | ok _ =>
    dsimp only
    rw [undo_eq ho h.linked h.compensated]
    have hstart := @UndoPass.start order s h
    refine Spec.bind ((spec_undoAll_log _ hstart).conseq (fun t ht => ht.1)
      (fun _ _ h => h) fun _ h => h) fun res => ?_
    cases res with
    | error e =>
      refine Spec.pure fun t ht => ?_
      rcases ht with ⟨pr,hok,-⟩ | ⟨herr,hc⟩
      · cases hok
      · obtain ⟨e',he,hrefused⟩ := herr
        exact ⟨.inr ⟨e',by rw [Except.error.inj he],hrefused⟩,hc⟩
    | ok pr =>
      refine Spec.of_state fun t ht => ?_
      have hpass : UndoPass s.log.records [] pr t.log := by
        rcases ht with ⟨pr',hok,hp⟩ | ⟨⟨e,herr,-⟩,-⟩
        · rw [Except.ok.inj hok]
          exact hp
        · cases herr
      have hlosers := fun u => mem_losersOf (w := s.log.records) (t := u) ho
      have habort : AbortPass pr (losersOf order s.log.records) pr.recoveryLastLsn t.log :=
        ⟨hpass.chained,losersOf_nodup ho,
          fun u hu => ((isLoser_iff u).mp ((hlosers u).mp hu)).1,
          fun u hu => hpass.last u ((isLoser_iff u).mp ((hlosers u).mp hu)),hpass.recoveryLast⟩
      refine Spec.bind ((spec_appendAborts_log _ habort).conseq (fun u hu => congrArg Store.log hu)
        (fun _ _ h => h) fun _ h => h) fun res => ?_
      refine Spec.of_state fun u hu => ?_
      obtain ⟨last,rfl,hdone⟩ := hu
      refine Spec.get_bind ?_
      refine Spec.bind ((spec_flush_reached (max_le hdone.last le_rfl)).conseq (fun _ h => h)
        (fun _ _ h => h) fun v hv => hv ▸ hdone.chained) fun res => ?_
      refine Spec.of_state fun v hv => ?_
      obtain ⟨rfl,hv⟩ := hv
      exact Spec.pure fun x hx => ⟨.inl rfl,by rw [hx,hv]; exact hdone.chained⟩

end recover

/-- The log, the Transaction objects that may append to it, and the file. -/
structure Wal where
  disk : DiskManager
  log : LogManager
  lastLsn : TxnId → Lsn
  live : TxnId → Bool
  nextTxn : TxnId

inductive WalAction
  | start
  | append (t : TxnId) (record : LogRecord)
  | finish (t : TxnId)
  | checkpoint
  | truncate
  | pages (disk : DiskManager)
  | crash (k : ℕ)
  | recover (order : List TxnId → List TxnId)
  | recoverCut (order : List TxnId → List TxnId) (n k : ℕ)

/-- The types a Transaction object appends. -/
def isTransactional (record : LogRecord) : Prop :=
  record.type ≠ .compensation ∧ record.type ≠ .checkpoint

/-- What a process started on this log knows: no transaction is live. -/
def Wal.restart (disk : DiskManager) (log : LogManager) : Wal where
  disk := disk
  log := log
  lastLsn := fun _ => invalidLsn
  live := fun _ => false
  nextTxn := nextTransactionId log.records

/-- A crash keeps any number of records. Recovery runs on whatever the pages hold then,
and may itself be cut off. The log is truncated only when no transaction is live. -/
inductive Wal.Step (s : Wal) : WalAction → Wal → Prop
  | start : Wal.Step s .start { s with
      live := Function.update s.live s.nextTxn true
      lastLsn := Function.update s.lastLsn s.nextTxn invalidLsn
      nextTxn := s.nextTxn + 1 }
  | append {t : TxnId} {record : LogRecord} : s.live t = true → isTransactional record →
      encodeCheck record = .ok () →
      Wal.Step s (.append t record) { s with
        log := s.log.push { record with txnId := t, prevLsn := s.lastLsn t }
        lastLsn := Function.update s.lastLsn t (s.log.appendLsn + 1) }
  | finish {t : TxnId} : Ended s.log.records t →
      Wal.Step s (.finish t) { s with live := Function.update s.live t false }
  | checkpoint : Wal.Step s .checkpoint { s with log := s.log.push { type := .checkpoint } }
  | truncate : (∀ t, s.live t = false) → Wal.Step s .truncate { s with log := .empty }
  | pages {disk : DiskManager} : Wal.Step s (.pages disk) { s with disk := disk }
  | crash {k : ℕ} : Wal.Step s (.crash k) (.restart s.disk (crashLog s.log k))
  | recover {order : List TxnId → List TxnId} {r : Status} {store : Store} :
      IsOrder order → (Recovery.recover order).run ⟨s.disk,s.log⟩ = (some r,store) →
      (∀ t, s.live t = false) → Wal.Step s (.recover order) (.restart store.disk store.log)
  | recoverCut {order : List TxnId → List TxnId} {n k : ℕ} :
      IsOrder order → (∀ t, s.live t = false) → Wal.Step s (.recoverCut order n k)
        (.restart ((Recovery.recover order).cut n ⟨s.disk,s.log⟩).2.disk
          (crashLog ((Recovery.recover order).cut n ⟨s.disk,s.log⟩).2.log k))

def Wal.New (s : Wal) : Prop := ∃ disk, s = .restart disk .empty

/-- Every live transaction knows its last record. -/
structure Wal.Ok (s : Wal) : Prop where
  chained : Chained s.log.records
  fresh : ∀ r ∈ s.log.records, r.txnId < s.nextTxn
  next : 0 < s.nextTxn
  live : ∀ t, s.live t = true →
    t ≠ invalidTxnId ∧ t < s.nextTxn ∧ s.lastLsn t = lastLsnOf s.log.records t

theorem lt_nextTransactionId {w : List LogRecord} {r : LogRecord} (hr : r ∈ w) :
    r.txnId < nextTransactionId w :=
  Nat.lt_succ_of_le (mem_le_foldl_max (List.mem_map_of_mem hr) invalidTxnId)

theorem Wal.Ok.restart {disk : DiskManager} {log : LogManager} (h : Chained log.records) :
    (Wal.restart disk log).Ok where
  chained := h
  fresh _ hr := lt_nextTransactionId hr
  next := Nat.succ_pos _
  live t ht := by cases ht

theorem Wal.Ok.step {s s' : Wal} {a : WalAction} (h : s.Ok) (hs : Wal.Step s a s') : s'.Ok := by
  cases hs with
  | start =>
    refine ⟨h.chained,fun r hr => Nat.lt_succ_of_lt (h.fresh r hr),Nat.succ_pos _,fun t ht => ?_⟩
    by_cases he : t = s.nextTxn
    · subst he
      refine ⟨Nat.pos_iff_ne_zero.mp h.next,Nat.lt_succ_self _,?_⟩
      dsimp only
      rw [Function.update_self,lastLsnOf_fresh fun r hr => Nat.ne_of_lt (h.fresh r hr)]
    · dsimp only at ht ⊢
      rw [Function.update_of_ne he] at ht ⊢
      obtain ⟨h0,hlt,hlast⟩ := h.live t ht
      exact ⟨h0,Nat.lt_succ_of_lt hlt,hlast⟩
  | append hlive hkind henc =>
    rename_i t record
    obtain ⟨h0,hlt,hlast⟩ := h.live t hlive
    refine ⟨?_,fun r hr => ?_,h.next,fun u hu => ?_⟩
    · exact h.chained.append (Nat.lt_succ_self _) (fun _ => hlast) (fun hz => absurd hz h0) henc
        fun hc => absurd hc hkind.1
    · rcases List.mem_append.mp hr with hr | hr
      · exact h.fresh r hr
      · rw [List.mem_singleton.mp hr]
        exact hlt
    · obtain ⟨hu0,hult,hulast⟩ := h.live u hu
      refine ⟨hu0,hult,?_⟩
      dsimp only
      rw [lastLsnOf_push]
      by_cases he : t = u
      · subst he
        rw [if_pos rfl,Function.update_self]
      · rw [if_neg he,Function.update_of_ne (Ne.symm he)]
        exact hulast
  | finish hended =>
    rename_i t
    refine ⟨h.chained,h.fresh,h.next,fun u hu => ?_⟩
    by_cases he : u = t
    · subst he
      simp at hu
    · dsimp only at hu
      rw [Function.update_of_ne he] at hu
      exact h.live u hu
  | checkpoint =>
    refine ⟨?_,fun r hr => ?_,h.next,fun u hu => ?_⟩
    · exact h.chained.append (Nat.lt_succ_self _) (fun hz => absurd rfl hz) (fun _ => rfl) rfl
        fun hc => by cases hc
    · rcases List.mem_append.mp hr with hr | hr
      · exact h.fresh r hr
      · rw [List.mem_singleton.mp hr]
        exact h.next
    · obtain ⟨hu0,hult,hulast⟩ := h.live u hu
      refine ⟨hu0,hult,?_⟩
      dsimp only
      rw [lastLsnOf_push,if_neg (Ne.symm hu0)]
      exact hulast
  | truncate hquiet =>
    refine ⟨chained_nil,by simp [LogManager.empty],h.next,fun u hu => ?_⟩
    rw [hquiet u] at hu
    cases hu
  | pages => exact ⟨h.chained,h.fresh,h.next,h.live⟩
  | crash => exact .restart (h.chained.take _)
  | recover ho hrun hquiet =>
    rename_i order r store
    obtain ⟨r',t,hr,-,hc⟩ := (spec_recover_log ho (s := ⟨s.disk,s.log⟩) h.chained).run rfl
    have ht : t = store := congrArg Prod.snd (hr.symm.trans hrun)
    exact .restart (ht ▸ hc)
  | recoverCut ho hquiet =>
    rename_i order n k
    have hcut : Chained ((Recovery.recover order).cut n ⟨s.disk,s.log⟩).2.log.records := by
      rcases (spec_recover_log ho (s := ⟨s.disk,s.log⟩) h.chained).cut rfl n with
        ⟨r,t,hr,-,hc⟩ | ⟨t,hr,hc⟩
      · rw [hr]
        exact hc
      · rw [hr]
        exact hc
    exact .restart (hcut.take k)

theorem Wal.ok_of_reach {s : Wal} (h : Reach Wal.New Wal.Step s) : s.Ok := by
  refine h.invariant (P := Wal.Ok) ?_ fun _ _ _ h hs => h.step hs
  rintro s ⟨disk,rfl⟩
  exact .restart chained_nil

/-- What `Recover` says of a link that leads to no record of its transaction. -/
def chainBroken (lsn : Lsn) : Failure :=
  ⟨.ioError,"loser transaction WAL chain is broken at LSN " ++ toString lsn⟩

theorem Refused.ne_chainBroken {e : Failure} (h : Refused e) (lsn : Lsn) : e ≠ chainBroken lsn := by
  intro he
  obtain ⟨m,hm⟩ := h
  have hmsg : e.message.toList = _ := congrArg (fun f => f.message.toList) he
  rcases hm with rfl | rfl
  · simp [chainBroken] at hmsg
  · simp [chainBroken] at hmsg

end Recovery
end OurSql
