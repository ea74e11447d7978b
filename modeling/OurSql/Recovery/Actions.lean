import OurSql.Recovery.Undo

/-! Redo and undo as sequences of two kinds of action on the file: the write of a
page image and the release of a page. The rules for the loops of `Recover` carry
an invariant over the records still to come and a condition for a power failure. -/
namespace OurSql
namespace Recovery

open Crash Storage

inductive Act
  | write (p : PageId) (page : Page)
  | release (p : PageId)

def Act.pageId : Act → PageId
  | .write p _ => p
  | .release p => p

def Act.perform : Act → Prog Store Status
  | .write p page => writePage p page
  | .release p => deallocateIdempotent p

def Act.apply (d : DiskManager) : Act → DiskManager
  | .write p page => d.writePage p page
  | .release p => if p ∈ d.freePages then d else d.release p

/-- Between the two writes of a release. -/
def Act.midway (d : DiskManager) : Act → DiskManager
  | .write _ _ => d
  | .release p => if p ∈ d.freePages then d else { d.linkPage p with freeListHead := p }

def redoCompensationAct (record : LogRecord) : Option Act :=
  match record.compensationType with
  | .pageUpdate => record.afterImage.map (.write record.pageId)
  | .pageAllocate => some (.release record.pageId)
  | _ => none

/-- What the redo pass does for a record. -/
def redoAct (transactions : Transactions) (record : LogRecord) : Option Act :=
  if !isWinner transactions record.txnId &&
      !(isLoser transactions record.txnId && record.type = .compensation) then none
  else match record.type with
    | .pageUpdate => record.afterImage.map (.write record.pageId)
    | .pageFree => some (.release record.pageId)
    | .compensation => redoCompensationAct record
    | _ => none

/-- What the undo of a record does. -/
def undoAct (record : LogRecord) : Option Act :=
  match record.type with
  | .pageUpdate => record.beforeImage.map (.write record.pageId)
  | .pageAllocate => some (.release record.pageId)
  | _ => none

/-- An action on a data page of an open file. -/
structure Fits (d : DiskManager) (a : Act) : Prop where
  isOpen : d.isOpen = true
  bound : d.pageCount ≤ 4294967295
  range : 0 < a.pageId ∧ a.pageId < d.pageCount

section encoded

variable {r : LogRecord}

theorem encoded_update (h : encodeCheck r = .ok ()) (ht : r.type = .pageUpdate) :
    ∃ before after, r.beforeImage = some before ∧ r.afterImage = some after := by
  have hcheck : ¬(r.beforeImage.isNone || r.afterImage.isNone) = true := by
    intro hc
    simp [encodeCheck,ht,hc,fail] at h
  simp only [Bool.or_eq_true,not_or,Option.isNone_iff_eq_none] at hcheck
  obtain ⟨b,hb⟩ := Option.ne_none_iff_exists'.mp hcheck.1
  obtain ⟨a,ha⟩ := Option.ne_none_iff_exists'.mp hcheck.2
  exact ⟨b,a,hb,ha⟩

theorem encoded_compensation (h : encodeCheck r = .ok ()) (ht : r.type = .compensation) :
    (r.compensationType = .pageUpdate ∧ ∃ after, r.afterImage = some after) ∨
      r.compensationType = .pageAllocate ∨ r.compensationType = .pageFree := by
  by_cases hu : r.compensationType = .pageUpdate
  · refine .inl ⟨hu,Option.ne_none_iff_exists'.mp fun hn => ?_⟩
    cases hb : r.beforeImage <;> simp [encodeCheck,ht,hu,hn,hb,fail] at h
  by_cases ha : r.compensationType = .pageAllocate
  · exact .inr (.inl ha)
  by_cases hf : r.compensationType = .pageFree
  · exact .inr (.inr hf)
  · cases hb : r.beforeImage <;> simp [encodeCheck,ht,hu,ha,hf,hb,fail] at h

theorem redoRecord_eq {transactions : Transactions} (h : encodeCheck r = .ok ()) :
    redoRecord transactions r =
      match redoAct transactions r with
      | none => pure (.ok ())
      | some a => a.perform := by
  unfold redoRecord redoAct
  split
  · rfl
  cases ht : r.type with
  | pageUpdate =>
    obtain ⟨b,a,-,ha⟩ := encoded_update h ht
    simp only [ha,Option.map_some]
    rfl
  | compensation =>
    simp only [redoCompensation,redoCompensationAct]
    rcases encoded_compensation h ht with ⟨hu,a,ha⟩ | hc | hc
    · simp only [hu,ha,Option.map_some]
      rfl
    · simp only [hc]
      rfl
    · simp only [hc]
  | pageFree => rfl
  | begin => rfl
  | pageAllocate => rfl
  | commit => rfl
  | abort => rfl
  | checkpoint => rfl

theorem undoImage_eq (h : encodeCheck r = .ok ()) :
    undoImage r =
      match undoAct r with
      | none => pure (.ok ())
      | some a => a.perform := by
  unfold undoImage undoAct
  cases ht : r.type with
  | pageUpdate =>
    obtain ⟨b,a,hb,-⟩ := encoded_update h ht
    simp only [hb,Option.map_some]
    rfl
  | pageAllocate => rfl
  | pageFree => rfl
  | compensation => rfl
  | begin => rfl
  | commit => rfl
  | abort => rfl
  | checkpoint => rfl

theorem encoded_compensationOf (h : encodeCheck r = .ok ()) (hu : isUndoable r = true)
    (pr : Progress) : encodeCheck (compensationOf pr r) = .ok () := by
  simp only [isUndoable,Bool.or_eq_true,decide_eq_true_eq,or_assoc] at hu
  rcases hu with ht | ht | ht
  · obtain ⟨b,a,hb,-⟩ := encoded_update h ht
    simp [encodeCheck,compensationOf,ht,hb]
  · simp [encodeCheck,compensationOf,ht]
  · simp [encodeCheck,compensationOf,ht]

end encoded

section rules

variable {s : Store} {R : Store → Prop}

theorem spec_deallocateIdempotent {p : PageId} (h : Fits s.disk (.release p)) (hR : R s)
    (hR' : R (s.mapDisk fun d => (Act.release p).midway d)) :
    Spec (· = s) (deallocateIdempotent p)
      (fun res t => res = .ok () ∧ t = s.mapDisk fun d => (Act.release p).apply d) R := by
  unfold deallocateIdempotent
  by_cases hp : p ∈ s.disk.freePages
  · have hsame : (s.mapDisk fun d => (Act.release p).apply d) = s := by
      simp [Store.mapDisk,Act.apply,hp]
    rw [hsame]
    refine Spec.step (spec_deallocatePage_free h.isOpen h.range h.bound hp) ?_
    exact Spec.pure_eq
  · have happly : (s.mapDisk fun d => (Act.release p).apply d) = s.mapDisk (·.release p) := by
      simp [Store.mapDisk,Act.apply,hp]
    have hmid : (s.mapDisk fun d => (Act.release p).midway d) =
        s.mapDisk fun d => { d.linkPage p with freeListHead := p } := by
      simp [Store.mapDisk,Act.midway,hp]
    rw [happly]
    refine Spec.step (spec_deallocatePage h.isOpen h.range h.bound hp hR (hmid ▸ hR')) ?_
    exact Spec.pure_eq

theorem spec_perform {a : Act} (h : Fits s.disk a) (hR : R s)
    (hR' : R (s.mapDisk fun d => a.midway d)) :
    Spec (· = s) a.perform (fun res t => res = .ok () ∧ t = s.mapDisk fun d => a.apply d) R := by
  cases a with
  | write p page => exact spec_writePage h.isOpen h.range.2 hR
  | release p => exact spec_deallocateIdempotent h hR hR'

theorem spec_append {record : LogRecord} (h : encodeCheck record = .ok ()) (hR : R s) :
    Spec (· = s) (append record)
      (fun res t => res = .ok (s.log.appendLsn + 1) ∧ t = s.push record) R := by
  unfold append
  rw [h]
  exact Spec.get_bind (Spec.effect_bind hR Spec.pure_eq)

/-- The redo loop: `J` speaks of the records still to come. -/
theorem spec_redo {transactions : Transactions} (J : List LogRecord → Store → Prop)
    (hR : ∀ rs t, J rs t → R t)
    (hstep : ∀ r rs t, J (r::rs) t → encodeCheck r = .ok () ∧
      (redoAct transactions r = none → J rs t) ∧
      ∀ a, redoAct transactions r = some a →
        Fits t.disk a ∧ R (t.mapDisk fun d => a.midway d) ∧ J rs (t.mapDisk fun d => a.apply d))
    {rs : List LogRecord} (hs : J rs s) :
    Spec (· = s) (redo transactions rs) (fun res t => res = .ok () ∧ J [] t) R := by
  induction rs generalizing s with
  | nil => exact Spec.pure fun t ht => ⟨rfl,ht ▸ hs⟩
  | cons r rs ih =>
    obtain ⟨henc,hnone,hsome⟩ := hstep r rs s hs
    rw [redo,redoRecord_eq henc]
    cases ha : redoAct transactions r with
    | none => exact Spec.step Spec.pure_eq (ih (hnone ha))
    | some a =>
      obtain ⟨hfits,hmid,hnext⟩ := hsome a ha
      exact Spec.step (spec_perform hfits (hR _ s hs) hmid) (ih hnext)

/-- The undo loop, each turn of which appends a compensation record and then acts. -/
theorem spec_undoAll (J : List LogRecord → Progress → Store → Prop)
    (hR : ∀ rs pr t, J rs pr t → R t)
    (hstep : ∀ r rs pr t, J (r::rs) pr t →
      encodeCheck r = .ok () ∧ isUndoable r = true ∧ R (t.push (compensationOf pr r)) ∧
      (undoAct r = none →
        J rs (pr.advance r.txnId (t.log.appendLsn+1)) (t.push (compensationOf pr r))) ∧
      ∀ a, undoAct r = some a → Fits t.disk a ∧
        R ((t.push (compensationOf pr r)).mapDisk fun d => a.midway d) ∧
        J rs (pr.advance r.txnId (t.log.appendLsn+1))
          ((t.push (compensationOf pr r)).mapDisk fun d => a.apply d))
    {rs : List LogRecord} {pr : Progress} (hs : J rs pr s) :
    Spec (· = s) (undoAll rs pr) (fun res t => ∃ pr', res = .ok pr' ∧ J [] pr' t) R := by
  induction rs generalizing s pr with
  | nil => exact Spec.pure fun t ht => ⟨pr,rfl,ht ▸ hs⟩
  | cons r rs ih =>
    obtain ⟨henc,hu,hpush,hnone,hsome⟩ := hstep r rs pr s hs
    have hrecord : ∀ t, (undoAct r = none → t = s.push (compensationOf pr r)) →
        (∀ a, undoAct r = some a → Fits s.disk a ∧
          R ((s.push (compensationOf pr r)).mapDisk fun d => a.midway d) ∧
          t = (s.push (compensationOf pr r)).mapDisk fun d => a.apply d) →
        Spec (· = s) (undoRecord pr r)
          (fun res u => res = .ok (pr.advance r.txnId (s.log.appendLsn+1)) ∧ u = t) R := by
      intro t htn hts
      unfold undoRecord
      refine Spec.step (spec_append (encoded_compensationOf henc hu pr) (hR _ _ s hs)) ?_
      simp only
      rw [undoImage_eq henc]
      cases ha : undoAct r with
      | none =>
        rw [htn ha]
        exact Spec.step Spec.pure_eq Spec.pure_eq
      | some a =>
        obtain ⟨hfits,hmid,rfl⟩ := hts a ha
        exact Spec.step (spec_perform (s := s.push (compensationOf pr r)) hfits hpush hmid)
          Spec.pure_eq
    rw [undoAll]
    cases ha : undoAct r with
    | none =>
      exact Spec.step (hrecord _ (fun _ => rfl) (by simp [ha])) (ih (hnone ha))
    | some a =>
      obtain ⟨hfits,hmid,hnext⟩ := hsome a ha
      refine Spec.step (hrecord _ (by simp [ha]) fun b hb => ?_) (ih hnext)
      rw [ha] at hb
      cases hb
      exact ⟨hfits,hmid,rfl⟩

theorem spec_appendAborts {pr : Progress} (J : List TxnId → Lsn → Store → Prop)
    (hR : ∀ ts last t, J ts last t → R t)
    (hstep : ∀ u ts last t, J (u::ts) last t →
      J ts (max last (t.log.appendLsn+1)) (t.push (abortOf pr u)))
    {ts : List TxnId} {last : Lsn} (hs : J ts last s) :
    Spec (· = s) (appendAborts pr ts last) (fun res t => ∃ l, res = .ok l ∧ J [] l t) R := by
  induction ts generalizing s last with
  | nil => exact Spec.pure fun t ht => ⟨last,rfl,ht ▸ hs⟩
  | cons u ts ih =>
    rw [appendAborts]
    have henc : encodeCheck (abortOf pr u) = .ok () := rfl
    exact Spec.step (spec_append henc (hR _ _ s hs)) (ih (hstep u ts last s hs))

theorem spec_flush {target : Lsn} (h : target ≤ s.log.appendLsn) (hR : R s) :
    Spec (· = s) (flush target) (fun res t => res = .ok () ∧ t = s.setDurable target) R := by
  unfold flush
  refine Spec.get_bind ?_
  rw [if_neg (not_lt.mpr h)]
  split
  · rename_i hd
    have hsame : s.setDurable target = s := by simp [Store.setDurable,max_eq_left hd]
    rw [hsame]
    exact Spec.pure_eq
  · exact Spec.effect_bind hR Spec.pure_eq

end rules

/-- `Recover` on a well-formed log: the three loops with their invariants, and how
each of them hands over to the next. -/
theorem spec_recover {s : Store} {R : Store → Prop} {order : List TxnId → List TxnId}
    (Jr : List LogRecord → Store → Prop) (Ju : List LogRecord → Progress → Store → Prop)
    (Ja : Progress → List TxnId → Lsn → Store → Prop) {Q : Store → Prop} (ho : IsOrder order)
    (hw : WellFormed s.log.records)
    (hredo : ∀ t, Jr s.log.records t → Spec (· = t) (redo (analyze s.log.records) s.log.records)
      (fun res u => res = .ok () ∧ Jr [] u) R)
    (hundo : ∀ pr t, Ju (openRecords (isLoser (analyze s.log.records)) s.log.records).reverse pr t →
      Spec (· = t) (undoAll (openRecords (isLoser (analyze s.log.records)) s.log.records).reverse pr)
        (fun res u => ∃ pr', res = .ok pr' ∧ Ju [] pr' u) R)
    (haborts : ∀ pr last t, Ja pr (losersOf order s.log.records) last t →
      Spec (· = t) (appendAborts pr (losersOf order s.log.records) last)
        (fun res u => ∃ l, res = .ok l ∧ Ja pr [] l u) R)
    (hstart : Jr s.log.records s)
    (hru : ∀ t, Jr [] t → Ju (openRecords (isLoser (analyze s.log.records)) s.log.records).reverse
      (startUndo (analyze s.log.records) (losersOf order s.log.records)).progress t)
    (hua : ∀ pr t, Ju [] pr t → Ja pr (losersOf order s.log.records) pr.recoveryLastLsn t)
    (hend : ∀ pr last t, Ja pr [] last t →
      R t ∧ last ≤ t.log.appendLsn ∧ Q (t.setDurable t.log.appendLsn)) :
    Spec (· = s) (recover order) (fun res t => res = .ok () ∧ Q t) R := by
  unfold recover
  refine Spec.get_bind ?_
  rw [scan_of_linked hw.linked]
  simp only
  rw [undo_eq ho hw.linked hw.compensated]
  refine Spec.bind (hredo s hstart) fun res => Spec.of_state fun t ⟨hres,ht⟩ => ?_
  subst hres
  refine Spec.bind (hundo _ t (hru t ht)) fun res => Spec.of_state fun t ⟨pr,hres,ht⟩ => ?_
  subst hres
  refine Spec.bind (haborts pr _ t (hua pr t ht)) fun res => Spec.of_state fun t ⟨last,hres,ht⟩ => ?_
  subst hres
  obtain ⟨hR,hlast,hq⟩ := hend pr last t ht
  simp only
  refine Spec.get_bind ?_
  rw [max_eq_right hlast]
  refine Spec.step (spec_flush le_rfl hR) ?_
  exact Spec.pure fun u hu => ⟨rfl,hu ▸ hq⟩

end Recovery
end OurSql
