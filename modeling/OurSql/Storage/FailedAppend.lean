import OurSql.Storage.TornTail

/-! `Append` whose write may fail in the middle, and `Flush`: which of the records that have
been reported durable a later `Open` still finds. -/
namespace OurSql
namespace Storage

open Bytes

/-- The log manager and its stream. `good` is the state of `file_`, and `flushed` is how much of
the file outlives a crash. -/
structure LogStream where
  file : LogFile
  good : Bool
  flushed : ℕ

namespace LogStream

/-- A log that has been opened. -/
def opened (records : List LogRecord) : LogStream where
  file := ⟨layoutAll records,appendLsnOf records,appendLsnOf records⟩
  good := true
  flushed := (layoutAll records).length

/-- `Append`, whose write may fail behind the first bytes of the record. -/
def append (s : LogStream) (record : LogRecord) (failed : Option ℕ) : Result Lsn × LogStream :=
  match encode record (s.file.appendLsn + 1) with
  | .error e => (.error e,s)
  | .ok bytes =>
    match failed with
    | none => (.ok (s.file.appendLsn + 1),{ s with
        file := { s.file with bytes := s.file.bytes ++ bytes, appendLsn := s.file.appendLsn + 1 }
        good := true })
    | some k => (fail .ioError "cannot append WAL record",{ s with
        file := { s.file with bytes := s.file.bytes ++ bytes.take k }
        good := false })

/-- `Flush` by one thread. -/
def flush (s : LogStream) (target : Lsn) (written : Bool) : Status × LogStream :=
  if s.file.appendLsn < target then
    (fail .invalidArgument "WAL flush target exceeds append LSN",s)
  else if target ≤ s.file.durableLsn then (.ok (),s)
  else if s.good ∧ written then
    (.ok (),{ s with
      file := { s.file with durableLsn := max s.file.durableLsn target }
      flushed := s.file.bytes.length })
  else (fail .ioError "cannot flush WAL",s)

end LogStream

/-- Whether a failed write has left bytes behind. -/
def leavesBytes (record : LogRecord) (failed : Option ℕ) : Bool :=
  encodeCheck record = .ok () ∧ failed.any (0 < ·)

/-- Calls on an opened log, beside the records whose `Append` has returned and whether one that
failed has left bytes in the file. `allowed` says which of them are called. -/
inductive Calls (allowed : Bool → LogRecord → Option ℕ → Prop) :
    Bool → LogStream → List LogRecord → Prop
  | opened {records : List LogRecord} : WellFormedLog records →
    Calls allowed false (.opened records) records
  | append {torn : Bool} {s : LogStream} {acked : List LogRecord} (record : LogRecord)
    (failed : Option ℕ) : Calls allowed torn s acked → allowed torn record failed → Fits record →
    -- the callers chain the records of a transaction
    record.prevLsn =
      (if record.txnId = invalidTxnId then invalidLsn else lastLsnOf acked record.txnId) →
    s.file.bytes.length + (layout record (s.file.appendLsn + 1)).length < 2 ^ 63 →
    Calls allowed (torn || leavesBytes record failed) (s.append record failed).2
      (match (s.append record failed).1 with
        | .ok lsn => acked ++ [record.written lsn]
        | .error _ => acked)
  | flush {torn : Bool} {s : LogStream} {acked : List LogRecord} (target : Lsn) (written : Bool) :
    Calls allowed torn s acked → Calls allowed torn (s.flush target written).2 acked

/-- Nothing is written behind the bytes of a failed `Append`. -/
def Careful (torn : Bool) (record : LogRecord) (failed : Option ℕ) : Prop :=
  torn = false ∨ failed = some 0 ∨ encodeCheck record ≠ .ok ()

/-- What the file holds: the records, then perhaps the beginning of one more. -/
structure Intact (torn : Bool) (s : LogStream) (acked : List LogRecord) : Prop where
  log : WellFormedLog acked
  lsn : s.file.appendLsn = appendLsnOf acked
  durable : s.file.durableLsn ≤ s.file.appendLsn
  tail : ∃ extra k, WellFormedLog (acked ++ extra) ∧ (layoutAll acked).length ≤ k ∧
    s.file.bytes = (layoutAll (acked ++ extra)).take k
  clean : torn = false → s.file.bytes = layoutAll acked
  flushed : ∀ p, p <+: acked → (∀ r ∈ p, r.lsn ≤ s.file.durableLsn) →
    (layoutAll p).length ≤ s.flushed

variable {torn : Bool} {s : LogStream} {acked records : List LogRecord} {record : LogRecord}
  {failed : Option ℕ} {target : Lsn} {written : Bool}

theorem layoutAll_le {p q : List LogRecord} (h : p <+: q) :
    (layoutAll p).length ≤ (layoutAll q).length := by
  obtain ⟨rest,rfl⟩ := h
  rw [layoutAll_append,List.length_append]
  exact Nat.le_add_right _ _

theorem intact_opened (h : WellFormedLog records) : Intact false (.opened records) records where
  log := h
  lsn := rfl
  durable := Nat.le_refl _
  tail := ⟨[],_,by rwa [List.append_nil],Nat.le_refl _,by rw [List.append_nil,List.take_length]; rfl⟩
  clean := fun _ => rfl
  flushed := fun _ hp _ => layoutAll_le hp

theorem Intact.flush (h : Intact torn s acked) : Intact torn (s.flush target written).2 acked := by
  unfold LogStream.flush
  split
  · exact h
  next htarget =>
  split
  · exact h
  split
  · refine ⟨h.log,h.lsn,?_,h.tail,h.clean,fun p hp _ => ?_⟩
    · exact max_le h.durable (Nat.not_lt.mp htarget)
    · obtain ⟨extra,k,-,hk,hbytes⟩ := h.tail
      dsimp only
      rw [hbytes,List.length_take]
      exact Nat.le_trans (layoutAll_le hp)
        (Nat.le_min.mpr ⟨hk,layoutAll_le (List.prefix_append _ _)⟩)
  · exact h

section append

variable (h : Intact false s acked) (hc : encodeCheck record = .ok ()) (hf : Fits record)
  (hprev : record.prevLsn =
    if record.txnId = invalidTxnId then invalidLsn else lastLsnOf acked record.txnId)
  (hsize : s.file.bytes.length + (layout record (s.file.appendLsn + 1)).length < 2 ^ 63)

include h hc hf hprev hsize

/-- The record that is appended continues the log. -/
theorem Intact.next : WellFormedLog (acked ++ [record.written (s.file.appendLsn + 1)]) ∧
    layoutAll (acked ++ [record.written (s.file.appendLsn + 1)]) =
      s.file.bytes ++ layout record (s.file.appendLsn + 1) := by
  obtain ⟨g,hg,hbytes,-,hnext⟩ := h.log.append hc hf hprev (h.clean rfl) h.lsn
  rw [h.lsn] at hsize ⊢
  have hall : g.bytes = s.file.bytes ++ layout record (appendLsnOf acked + 1) := by
    unfold LogFile.append encode at hg
    rw [hc] at hg
    obtain ⟨-,rfl⟩ := Prod.mk.inj (Except.ok.inj hg)
    dsimp only
    rw [h.lsn]
  exact ⟨hnext (by rwa [hall,List.length_append]),hbytes ▸ hall⟩

theorem Intact.append_ok :
    Intact false { s with
      file := { s.file with
        bytes := s.file.bytes ++ layout record (s.file.appendLsn + 1)
        appendLsn := s.file.appendLsn + 1 }
      good := true } (acked ++ [record.written (s.file.appendLsn + 1)]) := by
  obtain ⟨hlog,hall⟩ := h.next hc hf hprev hsize
  have hle := h.durable
  have hlsn : appendLsnOf (acked ++ [record.written (s.file.appendLsn + 1)]) =
      s.file.appendLsn + 1 := by
    rw [appendLsnOf_append,← h.lsn]
    exact max_eq_right (Nat.le_succ _)
  refine ⟨hlog,hlsn.symm,Nat.le_succ_of_le hle,⟨[],_,by rwa [List.append_nil],Nat.le_refl _,?_⟩,
    fun _ => hall.symm,fun p hp hd => ?_⟩
  · rw [List.append_nil,List.take_length,hall]
  · -- the new record is not durable yet
    rcases List.prefix_concat_iff.mp hp with rfl | hp
    · have hnew := hd _ (List.mem_append_right _ (List.mem_singleton_self _))
      exact absurd (Nat.le_trans hnew hle) (Nat.not_succ_le_self _)
    · exact h.flushed p hp hd

theorem Intact.append_failed (k : ℕ) :
    Intact true { s with
      file := { s.file with bytes := s.file.bytes ++
        (layout record (s.file.appendLsn + 1)).take k }
      good := false } acked := by
  obtain ⟨hlog,hall⟩ := h.next hc hf hprev hsize
  have hbytes := h.clean rfl
  refine ⟨h.log,h.lsn,h.durable,⟨_,(layoutAll acked).length + k,hlog,Nat.le_add_right _ _,?_⟩,
    fun ht => absurd ht (by simp),h.flushed⟩
  rw [hall,hbytes,List.take_append,List.take_of_length_le (Nat.le_add_right _ _),
    Nat.add_sub_cancel_left]

end append

theorem Intact.append (h : Intact torn s acked) (ha : Careful torn record failed)
    (hf : Fits record)
    (hprev : record.prevLsn =
      if record.txnId = invalidTxnId then invalidLsn else lastLsnOf acked record.txnId)
    (hsize : s.file.bytes.length + (layout record (s.file.appendLsn + 1)).length < 2 ^ 63) :
    Intact (torn || leavesBytes record failed) (s.append record failed).2
      (match (s.append record failed).1 with
        | .ok lsn => acked ++ [record.written lsn]
        | .error _ => acked) := by
  unfold LogStream.append encode
  cases hc : encodeCheck record with
  | error e =>
    rw [leavesBytes,hc]
    simpa using h
  | ok _ =>
    cases failed with
    | none =>
      obtain rfl : torn = false := by simpa [Careful,hc] using ha
      have hleft : leavesBytes record none = false := by simp [leavesBytes]
      rw [hleft]
      exact h.append_ok hc hf hprev hsize
    | some k =>
      by_cases hk : k = 0
      · subst hk
        have hleft : leavesBytes record (some 0) = false := by simp [leavesBytes]
        simp only [hleft,Bool.or_false,List.take_zero,List.append_nil]
        exact ⟨h.log,h.lsn,h.durable,h.tail,h.clean,h.flushed⟩
      · obtain rfl : torn = false := by simpa [Careful,hc,hk] using ha
        have hleft : leavesBytes record (some k) = true := by
          simp [leavesBytes,hc,Nat.pos_of_ne_zero hk]
        rw [hleft]
        exact h.append_failed hc hf hprev hsize k

theorem Calls.intact (h : Calls Careful torn s acked) : Intact torn s acked := by
  induction h with
  | opened h => exact intact_opened h
  | append record failed _ ha hf hprev hsize ih => exact ih.append ha hf hprev hsize
  | flush target written _ ih => exact ih.flush

def firstBegin : LogRecord := { type := .begin, txnId := 1 }

def afterAppend : LogStream := ((LogStream.opened []).append firstBegin none).2

def afterFailure : LogStream := ((LogStream.opened []).append firstBegin (some 1)).2

def afterSecond : LogStream := (afterFailure.append firstBegin none).2

theorem opened_empty {allowed : Bool → LogRecord → Option ℕ → Prop} :
    Calls allowed false (.opened []) [] :=
  .opened ⟨⟨by simp,by simp,by simp,by simp⟩,by simp,by simp,by simp,rfl,by simp⟩

theorem firstBegin_fits : Fits firstBegin := ⟨by decide,by decide,by decide,by decide⟩

end Storage
end OurSql
