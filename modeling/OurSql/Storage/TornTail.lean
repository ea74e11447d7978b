import OurSql.Storage.LogFile

/-! A log file cut at any byte: the scan keeps the whole records before the cut, trims the
rest, and the log goes on from there. -/
namespace OurSql
namespace Storage

open Bytes

/-- The file that holds the listed records. -/
def layoutAll (records : List LogRecord) : List UInt8 :=
  records.flatMap fun record => layout record record.lsn

/-- A log as `Append` leaves it: numbered from one on, in a file whose size the stream can
tell. -/
structure WellFormedLog (records : List LogRecord) : Prop where
  linked : Linked records
  check : ∀ r ∈ records, encodeCheck r = .ok ()
  fits : ∀ r ∈ records, Fits r
  stored : ∀ r ∈ records, r.stored = r
  numbered : records.map (·.lsn) = List.range' 1 records.length
  size : (layoutAll records).length < 2 ^ 63

@[simp] theorem layoutAll_nil : layoutAll [] = [] := rfl

@[simp] theorem layoutAll_cons (r : LogRecord) (records : List LogRecord) :
    layoutAll (r :: records) = layout r r.lsn ++ layoutAll records := rfl

@[simp] theorem layoutAll_append (before after : List LogRecord) :
    layoutAll (before ++ after) = layoutAll before ++ layoutAll after :=
  List.flatMap_append

/-- Every record takes at least its header. -/
theorem length_le_layoutAll (records : List LogRecord) :
    headerSize * records.length ≤ (layoutAll records).length := by
  induction records with
  | nil => simp
  | cons r records ih =>
    rw [layoutAll_cons,List.length_append,length_layout,List.length_cons,Nat.mul_succ]
    omega

theorem appendLsnOf_le {records : List LogRecord} {n : Lsn} (h : ∀ r ∈ records, r.lsn ≤ n) :
    appendLsnOf records ≤ n := by
  induction records using List.reverseRecOn with
  | nil => exact Nat.zero_le n
  | append_singleton records r ih =>
    rw [appendLsnOf_append]
    exact max_le (ih fun s hs => h s (by simp [hs])) (h r (by simp))

section wellFormed

variable {records kept rest : List LogRecord}

theorem WellFormedLog.lsn_le (h : WellFormedLog records) {r : LogRecord} (hr : r ∈ records) :
    r.lsn ≤ records.length := by
  have hm : r.lsn ∈ records.map (·.lsn) := List.mem_map_of_mem hr
  rw [h.numbered,List.mem_range'_1,Nat.add_comm] at hm
  exact Nat.le_of_lt_succ hm.2

theorem WellFormedLog.appendLsn_eq (h : WellFormedLog records) :
    appendLsnOf records = records.length := by
  refine Nat.le_antisymm (appendLsnOf_le fun _ hr => h.lsn_le hr) ?_
  by_cases hz : records.length = 0
  · exact hz ▸ Nat.zero_le _
  · have hm : records.length ∈ records.map (·.lsn) := by
      rw [h.numbered,List.mem_range'_1]
      omega
    obtain ⟨r,hr,hlsn⟩ := List.mem_map.mp hm
    exact hlsn ▸ le_appendLsnOf hr

/-- The next number still fits its field. -/
theorem WellFormedLog.room (h : WellFormedLog records) : appendLsnOf records + 1 < 256 ^ 8 := by
  have hsize : headerSize * records.length < 2 ^ 63 :=
    Nat.lt_of_le_of_lt (length_le_layoutAll records) h.size
  have hroom : records.length + 1 < 256 ^ 8 := by
    simp only [headerSize] at hsize
    norm_num at hsize ⊢
    omega
  rwa [h.appendLsn_eq]

theorem WellFormedLog.lsn_lt (h : WellFormedLog records) {r : LogRecord} (hr : r ∈ records) :
    r.lsn < 256 ^ 8 :=
  Nat.lt_of_le_of_lt (le_appendLsnOf hr) (Nat.lt_of_succ_lt h.room)

theorem WellFormedLog.of_append (h : WellFormedLog (kept ++ rest)) : WellFormedLog kept where
  linked := h.linked.of_append
  check r hr := h.check r (List.mem_append_left _ hr)
  fits r hr := h.fits r (List.mem_append_left _ hr)
  stored r hr := h.stored r (List.mem_append_left _ hr)
  numbered := by
    have hn := congrArg (List.take kept.length) h.numbered
    rwa [List.map_append,List.take_left' (List.length_map _),List.length_append,
      ← List.range'_append_1,List.take_left' (by simp)] at hn
  size := by
    have hs := h.size
    rw [layoutAll_append,List.length_append] at hs
    exact Nat.lt_of_le_of_lt (Nat.le_add_right _ _) hs

theorem WellFormedLog.decode (h : WellFormedLog records) {r : LogRecord} (hr : r ∈ records) :
    Storage.decode (layout r r.lsn) = .ok r := by
  rw [decode_layout (h.check r hr) (h.fits r hr) (h.lsn_lt hr),h.stored r hr]

end wellFormed

section scan

variable {r : LogRecord} {repairTail : Bool} {st : ScanState} {rest : List UInt8}

/-- A whole record at the front goes through `Decode` and the checks of the chains. -/
theorem scanBytes_layout (hs : Shape r) (hd : decode (layout r r.lsn) = .ok r)
    (hc : st.check r = .ok ()) :
    scanBytes repairTail st (layout r r.lsn ++ rest) =
      match scanBytes repairTail (st.add r) rest with
      | .error e => .error e
      | .ok (records,offset) => .ok (r :: records,(layout r r.lsn).length + offset) := by
  have hlength := length_layout r r.lsn
  have htotal := total_layout hs r.lsn rest
  have hlong : headerSize ≤ (layout r r.lsn).length := hlength ▸ Nat.le_add_right _ _
  have hne : layout r r.lsn ++ rest ≠ [] := by
    intro he
    have hnil : layout r r.lsn = [] := (List.append_eq_nil_iff.mp he).1
    rw [hnil] at hlong
    exact absurd hlong (by decide)
  rw [scanBytes,if_neg hne,if_neg (by rw [List.length_append]; omega)]
  dsimp only
  rw [htotal,dif_neg (by rw [List.length_append]; omega),List.take_left,List.drop_left,hd]
  dsimp only
  generalize st.check r = c at hc ⊢
  subst hc
  rfl

/-- Half a record ends the scan. -/
theorem scanBytes_torn (hs : Shape r) {k : ℕ} (hk : k < (layout r r.lsn).length) :
    scanBytes true st ((layout r r.lsn).take k) = .ok ([],0) := by
  have hlength : ((layout r r.lsn).take k).length = k := by
    rw [List.length_take,Nat.min_eq_left hk.le]
  rw [scanBytes]
  split
  · rfl
  split
  · rfl
  rename_i hlong
  rw [hlength] at hlong
  have hsplit : (layout r r.lsn).take k =
      header r r.lsn (payload r).length (checksumOf r r.lsn) ++
        (payload r).take (k - headerSize) := by
    rw [layout,List.take_append,length_header,List.take_of_length_le]
    rw [length_header]
    exact Nat.not_lt.mp hlong
  have htotal : loadAt 4 ((layout r r.lsn).take k) 8 = (layout r r.lsn).length := by
    rw [hsplit,header_total (payload_lt hs),length_layout]
  dsimp only
  rw [htotal,hlength,dif_pos (.inr hk)]
  rfl

/-- The scan of a file whose records pass the checks of the chains goes on behind them. -/
theorem scanBytes_layoutAll {records : List LogRecord} (hs : ∀ r ∈ records, Shape r)
    (hd : ∀ r ∈ records, decode (layout r r.lsn) = .ok r) (hc : scanFrom st records = .ok ()) :
    scanBytes repairTail st (layoutAll records ++ rest) =
      match scanBytes repairTail (records.foldl ScanState.add st) rest with
      | .error e => .error e
      | .ok (tail,offset) => .ok (records ++ tail,(layoutAll records).length + offset) := by
  induction records generalizing st with
  | nil =>
    rw [layoutAll_nil,List.nil_append,List.foldl_nil]
    cases scanBytes repairTail st rest with
    | error e => rfl
    | ok found => simp
  | cons r records ih =>
    cases hr : st.check r with
    | error e => simp [scanFrom,hr] at hc
    | ok _ =>
      rw [scanFrom,hr] at hc
      rw [layoutAll_cons,List.append_assoc,
        scanBytes_layout (hs r (by simp)) (hd r (by simp)) hr,
        ih (fun s h => hs s (by simp [h])) (fun s h => hd s (by simp [h])) hc,List.foldl_cons]
      cases scanBytes repairTail (records.foldl ScanState.add (st.add r)) rest with
      | error e => rfl
      | ok found => simp [Nat.add_assoc]

end scan

/-- The records before a cut, and what is left of the next one. -/
theorem exists_cut (records : List LogRecord) (cut : ℕ) :
    ∃ kept rest tail, records = kept ++ rest ∧
      (layoutAll records).take cut = layoutAll kept ++ tail ∧ (layoutAll kept).length ≤ cut ∧
      (∀ p, p <+: records → (layoutAll p).length ≤ cut → p <+: kept) ∧
      (tail = [] ∨ ∃ r ∈ rest, ∃ k, k < (layout r r.lsn).length ∧
        tail = (layout r r.lsn).take k) := by
  induction records generalizing cut with
  | nil => exact ⟨[],[],[],rfl,by simp,by simp,fun _ hp _ => hp,.inl rfl⟩
  | cons r records ih =>
    by_cases hfit : (layout r r.lsn).length ≤ cut
    · obtain ⟨kept,rest,tail,he,htake,hle,hmax,htail⟩ := ih (cut - (layout r r.lsn).length)
      refine ⟨r :: kept,rest,tail,by rw [he]; rfl,?_,?_,?_,htail⟩
      · rw [layoutAll_cons,layoutAll_cons,List.take_append,List.take_of_length_le hfit,htake,
          List.append_assoc]
      · rw [layoutAll_cons,List.length_append]
        omega
      · intro p hp hsize
        cases p with
        | nil => exact List.nil_prefix
        | cons s p =>
          obtain ⟨rfl,hrest⟩ := List.cons_prefix_cons.mp hp
          rw [layoutAll_cons,List.length_append] at hsize
          exact List.cons_prefix_cons.mpr ⟨rfl,hmax p hrest (by omega)⟩
    · refine ⟨[],r :: records,(layout r r.lsn).take cut,rfl,?_,Nat.zero_le _,?_,
        .inr ⟨r,by simp,cut,Nat.not_le.mp hfit,rfl⟩⟩
      · rw [layoutAll_cons,List.take_append_of_le_length (Nat.le_of_not_le hfit)]
        rfl
      · intro p hp hsize
        cases p with
        | nil => exact List.nil_prefix
        | cons s p =>
          obtain ⟨rfl,-⟩ := List.cons_prefix_cons.mp hp
          rw [layoutAll_cons,List.length_append] at hsize
          omega

/-- A linked log scans, and half a record behind it changes nothing. -/
theorem scanBytes_linked {records : List LogRecord} {repairTail : Bool} {tail : List UInt8}
    (h : Linked records) (hs : ∀ r ∈ records, Shape r)
    (hd : ∀ r ∈ records, decode (layout r r.lsn) = .ok r)
    (htail : ∀ st, scanBytes repairTail st tail = .ok ([],0)) :
    scanBytes repairTail {} (layoutAll records ++ tail) =
      .ok (records,(layoutAll records).length) := by
  have hscan : scanFrom {} records = .ok () := scanFrom_of_linked [] h
  rw [scanBytes_layoutAll hs hd hscan,htail]
  simp

theorem scanBytes_nil (repairTail : Bool) (st : ScanState) :
    scanBytes repairTail st [] = .ok ([],0) := by
  rw [scanBytes,if_pos rfl]

/-- A file is scanned in full when it holds a linked log. -/
theorem scan_layoutAll {records : List LogRecord} (h : Linked records)
    (hs : ∀ r ∈ records, Shape r) (hd : ∀ r ∈ records, decode (layout r r.lsn) = .ok r)
    {f : LogFile} (hf : f.bytes = layoutAll records) : f.scan = .ok records := by
  have hscan := scanBytes_linked h hs hd (scanBytes_nil false)
  rw [List.append_nil] at hscan
  rw [LogFile.scan,hf,hscan]

/-- A record as a scan returns it. -/
def LogRecord.written (record : LogRecord) (lsn : Lsn) : LogRecord :=
  { record.stored with lsn := lsn }

section written

variable {record : LogRecord} {lsn : Lsn}

theorem written_txnId : (record.written lsn).txnId = record.txnId := by
  unfold LogRecord.written LogRecord.stored
  split <;> rfl

theorem written_prevLsn : (record.written lsn).prevLsn = record.prevLsn := by
  unfold LogRecord.written LogRecord.stored
  split <;> rfl

/-- Only a compensation lays out more than these fields. -/
theorem layout_congr {r s : LogRecord} (ht : s.type ≠ .compensation) (htype : r.type = s.type)
    (htxn : r.txnId = s.txnId) (hprev : r.prevLsn = s.prevLsn) (hpage : r.pageId = s.pageId)
    (hb : r.beforeImage = s.beforeImage) (ha : r.afterImage = s.afterImage) (k : Lsn) :
    layout r k = layout s k := by
  have hpayload : payload r = payload s := by
    unfold payload
    rw [htype,if_neg ht,if_neg ht,hb,ha]
  unfold layout checksumOf header
  rw [hpayload,htype,htxn,hprev,hpage]

theorem layout_written (k : Lsn) : layout (record.written lsn) k = layout record k := by
  unfold LogRecord.written LogRecord.stored
  split
  · rfl
  · rename_i ht
    apply layout_congr ht <;> rfl

theorem encodeCheck_written (h : encodeCheck record = .ok ()) :
    encodeCheck (record.written lsn) = .ok () := by
  unfold LogRecord.written LogRecord.stored
  split
  · exact h
  · rename_i ht
    rw [← h]
    simp [encodeCheck,ht]

theorem fits_written (h : Fits record) : Fits (record.written lsn) := by
  unfold LogRecord.written LogRecord.stored
  split
  · exact ⟨h.txnId,h.prevLsn,h.pageId,h.undoNextLsn⟩
  · have hzero : invalidLsn < 256 ^ 8 := by decide
    exact ⟨h.txnId,h.prevLsn,h.pageId,hzero⟩

theorem stored_written : (record.written lsn).stored = record.written lsn := by
  by_cases ht : record.type = .compensation <;> simp [LogRecord.written,LogRecord.stored,ht]

end written

/-- The log goes on by any record that its caller has chained. -/
theorem WellFormedLog.append {records : List LogRecord} (h : WellFormedLog records)
    {record : LogRecord} (hc : encodeCheck record = .ok ()) (hf : Fits record)
    (hprev : record.prevLsn =
      if record.txnId = invalidTxnId then invalidLsn else lastLsnOf records record.txnId)
    {f : LogFile} (hbytes : f.bytes = layoutAll records)
    (hlsn : f.appendLsn = appendLsnOf records) :
    ∃ g, f.append record = .ok (appendLsnOf records + 1,g) ∧
      g.bytes = layoutAll (records ++ [record.written (appendLsnOf records + 1)]) ∧
      g.scan = .ok (records ++ [record.written (appendLsnOf records + 1)]) ∧
      (g.bytes.length < 2 ^ 63 →
        WellFormedLog (records ++ [record.written (appendLsnOf records + 1)])) := by
  let r := record.written (appendLsnOf records + 1)
  have hlink : Linked (records ++ [r]) := by
    refine h.linked.append (Nat.lt_succ_self _) (fun ht => ?_) fun ht => ?_
    · rw [written_prevLsn,written_txnId] at *
      rw [hprev,if_neg ht]
    · rw [written_prevLsn,written_txnId] at *
      rw [hprev,if_pos ht]
  have hboth : ∀ P : LogRecord → Prop, (∀ s ∈ records, P s) → P r → ∀ s ∈ records ++ [r], P s := by
    intro P hP hr s hs
    rcases List.mem_append.mp hs with hs | hs
    · exact hP s hs
    · exact List.mem_singleton.mp hs ▸ hr
  have hdecode : Storage.decode (layout r r.lsn) = .ok r := by
    rw [layout_written]
    exact decode_layout hc hf h.room
  have hall : layoutAll (records ++ [r]) = layoutAll records ++ layout record r.lsn := by
    rw [layoutAll_append,layoutAll_cons,layoutAll_nil,List.append_nil,layout_written]
  let g : LogFile := { f with
    bytes := f.bytes ++ layout record (appendLsnOf records + 1)
    appendLsn := appendLsnOf records + 1 }
  have hg : g.bytes = layoutAll (records ++ [r]) := by
    rw [hall,← hbytes]
    rfl
  refine ⟨g,?_,hg,?_,fun hsize => ?_⟩
  · unfold LogFile.append encode
    rw [hc]
    dsimp only
    rw [hlsn]
  · exact scan_layoutAll hlink
      (hboth Shape (fun s hs => shape_of_encodeCheck (h.check s hs))
        (shape_of_encodeCheck (encodeCheck_written hc)))
      (hboth (fun s => Storage.decode (layout s s.lsn) = .ok s) (fun s hs => h.decode hs)
        hdecode) hg
  · refine ⟨hlink,hboth _ h.check (encodeCheck_written hc),hboth _ h.fits (fits_written hf),
      hboth _ h.stored stored_written,?_,hg ▸ hsize⟩
    have hn : r.lsn = 1 + records.length := by
      rw [Nat.add_comm,← h.appendLsn_eq]
      rfl
    rw [List.map_append,h.numbered,List.length_append,List.length_singleton,List.range'_1_concat,
      List.map_singleton,hn]

/-- The largest number of a linked log is its last. -/
theorem appendLsnOf_getLast {records : List LogRecord} (h : Linked records) :
    appendLsnOf records = (records.getLast?.map (·.lsn)).getD invalidLsn := by
  induction records using List.reverseRecOn with
  | nil => rfl
  | append_singleton records r _ =>
    have hlt : appendLsnOf records < r.lsn := h.appendLsnOf_lt
    rw [appendLsnOf_append,max_eq_right hlt.le]
    simp

/-- What opening a cut file keeps. -/
theorem openLog_cut {records : List LogRecord} (h : WellFormedLog records) (cut : ℕ) :
    ∃ kept, openLog ((layoutAll records).take cut) =
        .ok ⟨layoutAll kept,appendLsnOf kept,appendLsnOf kept⟩ ∧
      kept <+: records ∧ (layoutAll kept).length ≤ cut ∧
      ∀ p, p <+: records → (layoutAll p).length ≤ cut → p <+: kept := by
  obtain ⟨kept,rest,tail,rfl,htake,hle,hmax,htail⟩ := exists_cut records cut
  have hkept : WellFormedLog kept := h.of_append
  have hend : ∀ st, scanBytes true st tail = .ok ([],0) := by
    rcases htail with rfl | ⟨r,hr,k,hk,rfl⟩
    · exact scanBytes_nil true
    · exact fun st => scanBytes_torn (shape_of_encodeCheck (h.check r (by simp [hr]))) hk
  have hscan := scanBytes_linked hkept.linked (fun r hr => shape_of_encodeCheck (hkept.check r hr))
    (fun r hr => hkept.decode hr) hend
  refine ⟨kept,?_,List.prefix_append _ _,hle,hmax⟩
  rw [openLog,htake,hscan]
  dsimp only
  rw [List.take_left]

/-- The scan of a file that holds a well-formed log. -/
theorem WellFormedLog.scan {records : List LogRecord} (h : WellFormedLog records) {f : LogFile}
    (hf : f.bytes = layoutAll records) : f.scan = .ok records :=
  scan_layoutAll h.linked (fun r hr => shape_of_encodeCheck (h.check r hr))
    (fun _ hr => h.decode hr) hf

theorem wellFormed_begin :
    WellFormedLog [({ type := .begin, txnId := 1 } : LogRecord).written 1] := by
  have h : WellFormedLog [] :=
    ⟨⟨by simp,by simp,by simp,by simp⟩,by simp,by simp,by simp,rfl,by simp⟩
  have hf : Fits { type := .begin, txnId := 1 } := ⟨by decide,by decide,by decide,by decide⟩
  have hcheck : encodeCheck { type := .begin, txnId := 1 } = .ok () := rfl
  obtain ⟨g,-,hg,-,hnext⟩ := h.append (f := ⟨[],0,0⟩) hcheck hf rfl rfl rfl
  have hsize : g.bytes.length = headerSize := by
    rw [hg,List.nil_append,layoutAll_cons,layoutAll_nil,List.append_nil,layout_written,
      length_layout]
    rfl
  exact hnext (by rw [hsize]; decide)

end Storage
end OurSql
