import OurSql.Storage.Page
import Mathlib.Data.List.Induction

/-! The write-ahead log as a list of records: what `Append` refuses to encode, the
numbers it hands out, and the chain checks every scan repeats. -/
namespace OurSql
namespace Storage

inductive LogRecordType
  | begin | pageUpdate | pageAllocate | pageFree | commit | abort | checkpoint | compensation
  deriving DecidableEq, Repr

/-- An image is empty or one full page; the decoder lets nothing else through. -/
structure LogRecord where
  type : LogRecordType := .checkpoint
  lsn : Lsn := invalidLsn
  txnId : TxnId := invalidTxnId
  prevLsn : Lsn := invalidLsn
  pageId : PageId := invalidPageId
  undoNextLsn : Lsn := invalidLsn
  compensationType : LogRecordType := .checkpoint
  beforeImage : Option Page := none
  afterImage : Option Page := none

/-- The checks `Encode` makes before it lays a record out. -/
def encodeCheck (record : LogRecord) : Status :=
  if record.type = .pageUpdate && (record.beforeImage.isNone || record.afterImage.isNone) then
    fail .invalidArgument "PageUpdate requires two full page images"
  else if record.type = .compensation && record.beforeImage.isSome then
    fail .invalidArgument "Compensation cannot contain a before image"
  else if record.type = .compensation && record.compensationType ≠ .pageUpdate &&
      record.compensationType ≠ .pageAllocate && record.compensationType ≠ .pageFree then
    fail .invalidArgument "Compensation target type is invalid"
  else if record.type = .compensation &&
      ((record.compensationType = .pageUpdate && record.afterImage.isNone) ||
        (record.compensationType ≠ .pageUpdate && record.afterImage.isSome)) then
    fail .invalidArgument "Compensation image does not match its target type"
  else if record.type ≠ .pageUpdate && record.type ≠ .compensation &&
      (record.beforeImage.isSome || record.afterImage.isSome) then
    fail .invalidArgument "only PageUpdate or Compensation may contain images"
  else .ok ()

/-- The log file, records still buffered included, and `durable_lsn_`. -/
structure LogManager where
  records : List LogRecord
  durableLsn : Lsn

def LogManager.empty : LogManager := ⟨[],invalidLsn⟩

def appendLsnOf (records : List LogRecord) : Lsn := (records.map (·.lsn)).foldl max invalidLsn

/-- `append_lsn_`, the largest number in the log. -/
def LogManager.appendLsn (l : LogManager) : Lsn := appendLsnOf l.records

def LogManager.push (l : LogManager) (record : LogRecord) : LogManager :=
  { l with records := l.records ++ [{ record with lsn := l.appendLsn + 1 }] }

/-- What a scan remembers of the records before the current one. -/
structure ScanState where
  previousLsn : Lsn := invalidLsn
  seenLsns : List Lsn := []
  lastLsnByTransaction : TxnId → Lsn := fun _ => invalidLsn

def ScanState.check (st : ScanState) (record : LogRecord) : Status :=
  if record.lsn = invalidLsn || record.lsn ≤ st.previousLsn || record.lsn ∈ st.seenLsns then
    fail .ioError "WAL LSN chain is invalid"
  else if record.txnId = invalidTxnId then
    if record.prevLsn ≠ invalidLsn then
      fail .ioError "WAL non-transaction record has a prev_lsn"
    else .ok ()
  else if record.prevLsn ≠ st.lastLsnByTransaction record.txnId ||
      (record.prevLsn ≠ invalidLsn && record.prevLsn ∉ record.lsn :: st.seenLsns) then
    fail .ioError "WAL transaction prev_lsn chain is invalid"
  else .ok ()

def ScanState.add (st : ScanState) (record : LogRecord) : ScanState where
  previousLsn := record.lsn
  seenLsns := record.lsn :: st.seenLsns
  lastLsnByTransaction :=
    if record.txnId = invalidTxnId then st.lastLsnByTransaction
    else Function.update st.lastLsnByTransaction record.txnId record.lsn

def scanFrom (st : ScanState) : List LogRecord → Status
  | [] => .ok ()
  | record::rest =>
    match st.check record with
    | .error e => .error e
    | .ok () => scanFrom (st.add record) rest

/-- `Scan` of a log whose records decode. -/
def LogManager.scan (l : LogManager) : Result (List LogRecord) :=
  match scanFrom {} l.records with
  | .error e => .error e
  | .ok () => .ok l.records

/-- The last number a transaction wrote, `invalidLsn` if none. -/
def lastLsnOf (records : List LogRecord) (t : TxnId) : Lsn :=
  appendLsnOf (records.filter (·.txnId = t))

/-- Numbers increase, and each record of a transaction points at the one before it. -/
structure Linked (records : List LogRecord) : Prop where
  positive : ∀ r ∈ records, 0 < r.lsn
  increasing : records.Pairwise (fun r s => r.lsn < s.lsn)
  prev : ∀ before r after, records = before ++ r :: after → r.txnId ≠ invalidTxnId →
    r.prevLsn = lastLsnOf before r.txnId
  orphan : ∀ r ∈ records, r.txnId = invalidTxnId → r.prevLsn = invalidLsn

theorem le_foldl_max (xs : List ℕ) (m : ℕ) : m ≤ xs.foldl max m := by
  induction xs generalizing m with
  | nil => exact le_rfl
  | cons x xs ih => exact (le_max_left m x).trans (ih (max m x))

theorem mem_le_foldl_max {xs : List ℕ} {x : ℕ} (hx : x ∈ xs) (m : ℕ) : x ≤ xs.foldl max m := by
  induction xs generalizing m with
  | nil => cases hx
  | cons y xs ih =>
    rcases List.mem_cons.mp hx with rfl | hx
    · exact (le_max_right m x).trans (le_foldl_max xs (max m x))
    · exact ih hx (max m y)

theorem le_appendLsnOf {records : List LogRecord} {r : LogRecord} (hr : r ∈ records) :
    r.lsn ≤ appendLsnOf records :=
  mem_le_foldl_max (List.mem_map_of_mem hr) invalidLsn

theorem appendLsnOf_append (records : List LogRecord) (r : LogRecord) :
    appendLsnOf (records ++ [r]) = max (appendLsnOf records) r.lsn := by
  simp [appendLsnOf]

theorem lastLsnOf_append (records : List LogRecord) (r : LogRecord) (t : TxnId) :
    lastLsnOf (records ++ [r]) t =
      if r.txnId = t then max (lastLsnOf records t) r.lsn else lastLsnOf records t := by
  unfold lastLsnOf
  rw [List.filter_append]
  split
  · rename_i h
    rw [List.filter_cons_of_pos (by simpa using h),List.filter_nil,appendLsnOf_append]
  · rename_i h
    rw [List.filter_cons_of_neg (by simpa using h),List.filter_nil,List.append_nil]

theorem lastLsnOf_mem {records : List LogRecord} {t : TxnId} (h : lastLsnOf records t ≠ invalidLsn) :
    ∃ r ∈ records, r.txnId = t ∧ r.lsn = lastLsnOf records t := by
  induction records using List.reverseRecOn with
  | nil => simp [lastLsnOf,appendLsnOf] at h
  | append_singleton records s ih =>
    rw [lastLsnOf_append] at h ⊢
    split
    · rename_i hs
      rw [if_pos hs] at h
      rcases le_total (lastLsnOf records t) s.lsn with hle | hle
      · exact ⟨s,by simp,hs,by rw [max_eq_right hle]⟩
      · rw [max_eq_left hle] at h ⊢
        obtain ⟨r,hr,ht,hl⟩ := ih h
        exact ⟨r,by simp [hr],ht,hl⟩
    · rename_i hs
      rw [if_neg hs] at h
      obtain ⟨r,hr,ht,hl⟩ := ih h
      exact ⟨r,by simp [hr],ht,hl⟩

theorem lastLsnOf_le_appendLsnOf (records : List LogRecord) (t : TxnId) :
    lastLsnOf records t ≤ appendLsnOf records := by
  by_cases h : lastLsnOf records t = invalidLsn
  · exact h ▸ Nat.zero_le _
  · obtain ⟨r,hr,-,hl⟩ := lastLsnOf_mem h
    exact hl ▸ le_appendLsnOf hr

theorem lastLsnOf_fresh {w : List LogRecord} {t : TxnId} (h : ∀ r ∈ w, r.txnId ≠ t) :
    lastLsnOf w t = invalidLsn := by
  have hfilter : w.filter (·.txnId = t) = [] := by simpa [List.filter_eq_nil_iff] using h
  simp [lastLsnOf,hfilter,appendLsnOf]

theorem lastLsnOf_push {l : LogManager} {record : LogRecord} (u : TxnId) :
    lastLsnOf (l.push record).records u =
      if record.txnId = u then l.appendLsn + 1 else lastLsnOf l.records u := by
  change lastLsnOf (l.records ++ [{ record with lsn := l.appendLsn + 1 }]) u = _
  have hle : lastLsnOf l.records u ≤ l.appendLsn + 1 :=
    Nat.le_succ_of_le (lastLsnOf_le_appendLsnOf _ _)
  rw [lastLsnOf_append,max_eq_right hle]

theorem Linked.of_append {before after : List LogRecord} (h : Linked (before ++ after)) :
    Linked before where
  positive r hr := h.positive r (by simp [hr])
  increasing := (List.pairwise_append.mp h.increasing).1
  prev a r b he ht := h.prev a r (b ++ after) (by simp [he]) ht
  orphan r hr := h.orphan r (by simp [hr])

/-- All records before a record of a linked log have smaller numbers. -/
theorem Linked.lt {before after : List LogRecord} {r s : LogRecord}
    (h : Linked (before ++ r :: after)) (hs : s ∈ before) : s.lsn < r.lsn :=
  (List.pairwise_append.mp h.increasing).2.2 s hs r (by simp)

theorem Linked.appendLsnOf_lt {before a : List LogRecord} {r : LogRecord}
    (h : Linked (before ++ r :: a)) : appendLsnOf before < r.lsn := by
  induction before using List.reverseRecOn generalizing r a with
  | nil => exact h.positive r (by simp)
  | append_singleton before s ih =>
    rw [appendLsnOf_append]
    have hs : s.lsn < r.lsn := h.lt (by simp)
    have hb : appendLsnOf before < s.lsn := ih (by simpa using h)
    exact max_lt (hb.trans hs) hs

/-- Extend a linked log by one record in the way `Append` does. -/
theorem Linked.append {records : List LogRecord} (h : Linked records) {r : LogRecord}
    (hlsn : appendLsnOf records < r.lsn)
    (hprev : r.txnId ≠ invalidTxnId → r.prevLsn = lastLsnOf records r.txnId)
    (horphan : r.txnId = invalidTxnId → r.prevLsn = invalidLsn) : Linked (records ++ [r]) where
  positive s hs := by
    rcases List.mem_append.mp hs with hs | hs
    · exact h.positive s hs
    · rw [List.mem_singleton.mp hs]
      exact Nat.lt_of_le_of_lt (Nat.zero_le _) hlsn
  increasing := by
    refine List.pairwise_append.mpr ⟨h.increasing,by simp,?_⟩
    intro a ha b hb
    rw [List.mem_singleton.mp hb]
    exact Nat.lt_of_le_of_lt (le_appendLsnOf ha) hlsn
  prev before s after he ht := by
    rcases List.append_eq_append_iff.mp he with ⟨cs,hb,hc⟩ | ⟨cs,hb,hc⟩
    · cases cs with
      | nil =>
        obtain ⟨rfl,-⟩ : r = s ∧ [] = after := by simpa using hc
        rw [hb,List.append_nil]
        exact hprev ht
      | cons c cs => simp at hc
    · cases cs with
      | nil =>
        obtain ⟨rfl,-⟩ : s = r ∧ after = [] := by simpa using hc
        rw [List.append_nil] at hb
        exact hb ▸ hprev ht
      | cons c cs =>
        obtain ⟨rfl,-⟩ : s = c ∧ after = cs ++ [r] := by simpa using hc
        exact h.prev before s cs hb ht
  orphan s hs ht := by
    rcases List.mem_append.mp hs with hs | hs
    · exact h.orphan s hs ht
    · rw [List.mem_singleton.mp hs] at ht ⊢
      exact horphan ht

theorem Linked.push {l : LogManager} (h : Linked l.records) {r : LogRecord}
    (hprev : r.txnId ≠ invalidTxnId → r.prevLsn = lastLsnOf l.records r.txnId)
    (horphan : r.txnId = invalidTxnId → r.prevLsn = invalidLsn) : Linked (l.push r).records :=
  h.append (r := { r with lsn := l.appendLsn + 1 }) (Nat.lt_succ_self _) hprev horphan

/-- The scan state after the listed records. -/
def scanState (before : List LogRecord) : ScanState := before.foldl ScanState.add {}

theorem scanState_append (before : List LogRecord) (r : LogRecord) :
    scanState (before ++ [r]) = (scanState before).add r := by
  simp [scanState]

theorem scanState_seenLsns (before : List LogRecord) (x : Lsn) :
    x ∈ (scanState before).seenLsns ↔ ∃ r ∈ before, r.lsn = x := by
  induction before using List.reverseRecOn with
  | nil => simp [scanState]
  | append_singleton before s ih =>
    rw [scanState_append]
    simp only [ScanState.add,List.mem_cons,ih,List.mem_append]
    constructor
    · rintro (rfl | ⟨r,hr,rfl⟩)
      · exact ⟨s,by simp,rfl⟩
      · exact ⟨r,.inl hr,rfl⟩
    · rintro ⟨r,hr | hr,rfl⟩
      · exact .inr ⟨r,hr,rfl⟩
      · simp at hr
        exact .inl (by rw [hr])

theorem scanState_previousLsn {before : List LogRecord} (h : Linked before) :
    (scanState before).previousLsn = appendLsnOf before := by
  induction before using List.reverseRecOn with
  | nil => rfl
  | append_singleton before s _ =>
    have hlt : appendLsnOf before < s.lsn := h.appendLsnOf_lt
    rw [scanState_append,appendLsnOf_append,max_eq_right (le_of_lt hlt)]
    rfl

theorem scanState_last {before : List LogRecord} (h : Linked before) {t : TxnId}
    (ht : t ≠ invalidTxnId) : (scanState before).lastLsnByTransaction t = lastLsnOf before t := by
  induction before using List.reverseRecOn with
  | nil => rfl
  | append_singleton before s ih =>
    have hlt : lastLsnOf before t < s.lsn :=
      Nat.lt_of_le_of_lt (lastLsnOf_le_appendLsnOf _ _) h.appendLsnOf_lt
    rw [scanState_append,lastLsnOf_append,max_eq_right (le_of_lt hlt)]
    simp only [ScanState.add]
    by_cases hs : s.txnId = t
    · subst hs
      simp [ht]
    · rw [if_neg hs]
      split
      · exact ih h.of_append
      · rw [Function.update_of_ne (Ne.symm hs)]
        exact ih h.of_append

theorem scanFrom_of_linked (before : List LogRecord) {rest : List LogRecord} (h : Linked (before ++ rest)) :
    scanFrom (scanState before) rest = .ok () := by
  induction rest generalizing before with
  | nil => rfl
  | cons r rest ih =>
    have hb : Linked before := h.of_append
    have hlt : appendLsnOf before < r.lsn := h.appendLsnOf_lt
    have hpos : r.lsn ≠ invalidLsn := Nat.pos_iff_ne_zero.mp (h.positive r (by simp))
    have hfresh : r.lsn ∉ (scanState before).seenLsns := by
      rw [scanState_seenLsns]
      rintro ⟨s,hs,he⟩
      exact absurd he (Nat.ne_of_lt (h.lt hs))
    have hcheck : (scanState before).check r = .ok () := by
      unfold ScanState.check
      rw [scanState_previousLsn hb,if_neg (by simp [hpos,hfresh,hlt])]
      by_cases ht : r.txnId = invalidTxnId
      · rw [if_pos ht,if_neg (by simp [h.orphan r (by simp) ht])]
      · have hprev : r.prevLsn = lastLsnOf before r.txnId := h.prev before r rest rfl ht
        rw [if_neg ht,scanState_last hb ht,hprev]
        by_cases hz : lastLsnOf before r.txnId = invalidLsn
        · simp [hz]
        · obtain ⟨s,hs,-,hl⟩ := lastLsnOf_mem hz
          have hseen : lastLsnOf before r.txnId ∈ (scanState before).seenLsns :=
            (scanState_seenLsns _ _).mpr ⟨s,hs,hl⟩
          simp [hseen]
    rw [scanFrom,hcheck]
    have hrest : scanFrom (scanState (before ++ [r])) rest = .ok () := ih (before ++ [r]) (by simpa using h)
    rwa [scanState_append] at hrest

theorem scan_of_linked {l : LogManager} (h : Linked l.records) : l.scan = .ok l.records := by
  have hs : scanFrom {} l.records = .ok () := scanFrom_of_linked [] h
  rw [LogManager.scan,hs]

end Storage
end OurSql
