import OurSql.Lib.Bytes
import OurSql.Storage.Log
import Mathlib.Data.List.OfFn

/-! The bytes of the log file: how a record is laid out and checked, the scan over a
file that may end in half a record, and the two calls that go through it. -/
namespace OurSql
namespace Storage

open Bytes

/-- `LogManager::kMagic`, `kVersion`, `kHeaderSize`. -/
def logMagic : ℕ := 0x314C4157

def logVersion : ℕ := 1

def headerSize : ℕ := 48

def LogRecordType.tag : LogRecordType → ℕ
  | .begin => 1
  | .pageUpdate => 2
  | .pageAllocate => 3
  | .pageFree => 4
  | .commit => 5
  | .abort => 6
  | .checkpoint => 7
  | .compensation => 8

/-- `IsKnownType` and the cast behind it. -/
def LogRecordType.ofTag : ℕ → Option LogRecordType
  | 1 => some .begin
  | 2 => some .pageUpdate
  | 3 => some .pageAllocate
  | 4 => some .pageFree
  | 5 => some .commit
  | 6 => some .abort
  | 7 => some .checkpoint
  | 8 => some .compensation
  | _ => none

theorem ofTag_tag (type : LogRecordType) : LogRecordType.ofTag type.tag = some type := by
  cases type <;> rfl

theorem tag_lt (type : LogRecordType) : type.tag < 256 ^ 2 := by
  cases type <;> decide

/-- One byte of the CRC. -/
def crcByte (crc : BitVec 32) (b : UInt8) : BitVec 32 :=
  (List.range 8).foldl
    (fun crc _ => if crc &&& 1 ≠ 0 then (crc >>> 1) ^^^ 0xedb88320 else crc >>> 1)
    (crc ^^^ BitVec.ofNat 32 b.toNat)

def crc32 (data : List UInt8) (skippedOffset skippedLength : ℕ) : BitVec 32 :=
  data.zipIdx.foldl
    (fun crc b =>
      if skippedOffset ≤ b.2 ∧ b.2 < skippedOffset + skippedLength then crc
      else crcByte crc b.1)
    0xffffffff ^^^ 0xffffffff

def imageBytes : Option Page → List UInt8
  | none => []
  | some page => List.ofFn page

/-- A full page out of the bytes of an image. -/
def imageOf (bytes : List UInt8) : Page := fun i => bytes.getD i 0

def payload (record : LogRecord) : List UInt8 :=
  (if record.type = .compensation then
    storeLE 8 record.undoNextLsn ++ storeLE 2 record.compensationType.tag ++ storeLE 2 0
  else []) ++ imageBytes record.beforeImage ++ imageBytes record.afterImage

/-- The fixed header, each field behind the one before it. -/
def header (record : LogRecord) (lsn : Lsn) (payloadLength checksum : ℕ) : List UInt8 :=
  storeLE 4 logMagic ++ (storeLE 2 logVersion ++ (storeLE 2 record.type.tag ++
    (storeLE 4 (headerSize + payloadLength) ++ (storeLE 4 checksum ++ (storeLE 8 lsn ++
      (storeLE 8 record.txnId ++ (storeLE 8 record.prevLsn ++ (storeLE 4 record.pageId ++
        storeLE 4 payloadLength))))))))

def checksumOf (record : LogRecord) (lsn : Lsn) : ℕ :=
  (crc32 (header record lsn (payload record).length 0 ++ payload record) 12 4).toNat

/-- The bytes of a record. -/
def layout (record : LogRecord) (lsn : Lsn) : List UInt8 :=
  header record lsn (payload record).length (checksumOf record lsn) ++ payload record

def encode (record : LogRecord) (lsn : Lsn) : Result (List UInt8) :=
  match encodeCheck record with
  | .error e => .error e
  | .ok () => .ok (layout record lsn)

def decodeCompensation (data : List UInt8) (record : LogRecord) : Result LogRecord :=
  match LogRecordType.ofTag (loadAt 2 data (headerSize + 8)) with
  | some .pageUpdate => .ok { record with compensationType := .pageUpdate }
  | some .pageAllocate => .ok { record with compensationType := .pageAllocate }
  | some .pageFree => .ok { record with compensationType := .pageFree }
  | _ => fail .ioError "Compensation target type is invalid"

/-- The part of `Decode` behind the checks of the header. -/
def decodePayload (data : List UInt8) (record : LogRecord) (length : ℕ) : Result LogRecord :=
  if record.type = .pageUpdate then
    if length ≠ pageSize * 2 then fail .ioError "PageUpdate image length is invalid"
    else .ok { record with
      beforeImage := some (imageOf ((data.drop headerSize).take pageSize))
      afterImage := some (imageOf (data.drop (headerSize + pageSize))) }
  else if record.type = .compensation then
    if length ≠ 12 ∧ length ≠ 12 + pageSize then
      fail .ioError "Compensation payload length is invalid"
    else decodeCompensation data { record with
      undoNextLsn := loadAt 8 data headerSize
      afterImage :=
        if length = 12 + pageSize then some (imageOf (data.drop (headerSize + 12))) else none }
  else if length ≠ 0 then fail .ioError "non-update WAL record has a payload"
  else .ok record

def decode (data : List UInt8) : Result LogRecord :=
  if data.length < headerSize then fail .ioError "WAL record header is truncated"
  else if loadAt 4 data 0 ≠ logMagic ∨ loadAt 2 data 4 ≠ logVersion then
    fail .ioError "WAL record magic or version is invalid"
  else
    match LogRecordType.ofTag (loadAt 2 data 6) with
    | none => fail .ioError "WAL record length or type is invalid"
    | some type =>
      let total := loadAt 4 data 8
      let length := loadAt 4 data 44
      if total < headerSize ∨ total ≠ data.length ∨ length ≠ total - headerSize then
        fail .ioError "WAL record length or type is invalid"
      else if loadAt 4 data 12 ≠ (crc32 data 12 4).toNat then
        fail .ioError "WAL record checksum mismatch"
      else decodePayload data
        { type := type
          lsn := loadAt 8 data 16
          txnId := loadAt 8 data 24
          prevLsn := loadAt 8 data 32
          pageId := loadAt 4 data 40 } length

/-- `ScanUnlocked` from a place in the file on: the records and how far they reach. -/
def scanBytes (repairTail : Bool) (st : ScanState) (bytes : List UInt8) :
    Result (List LogRecord × ℕ) :=
  if bytes = [] then .ok ([],0)
  else if bytes.length < headerSize then
    if repairTail then .ok ([],0) else fail .ioError "WAL tail is truncated"
  else
    let total := loadAt 4 bytes 8
    if _ : total < headerSize ∨ bytes.length < total then
      if repairTail then .ok ([],0) else fail .ioError "WAL tail length is invalid"
    else
      match decode (bytes.take total) with
      | .error e =>
        if total ≠ bytes.length then
          fail .ioError ("WAL corruption before file tail: " ++ e.message)
        else if repairTail then .ok ([],0)
        else .error e
      | .ok record =>
        match st.check record with
        | .error e => .error e
        | .ok () =>
          match scanBytes repairTail (st.add record) (bytes.drop total) with
          | .error e => .error e
          | .ok (records,offset) => .ok (record :: records,total + offset)
termination_by bytes.length
decreasing_by
  rename_i h
  have hpos : 0 < total := Nat.lt_of_lt_of_le (by decide) (Nat.not_lt.mp fun hl => h (.inl hl))
  have hle : total ≤ bytes.length := Nat.not_lt.mp fun hl => h (.inr hl)
  rw [List.length_drop]
  exact Nat.sub_lt (Nat.lt_of_lt_of_le hpos hle) hpos

/-- An open log: the file and the last number in it. -/
structure LogFile where
  bytes : List UInt8
  appendLsn : Lsn
  durableLsn : Lsn

/-- `Open` of a file that is there; it trims what the scan leaves over. -/
def openLog (bytes : List UInt8) : Result LogFile :=
  match scanBytes true {} bytes with
  | .error e => .error e
  | .ok (records,offset) => .ok ⟨bytes.take offset,appendLsnOf records,appendLsnOf records⟩

def LogFile.append (f : LogFile) (record : LogRecord) : Result (Lsn × LogFile) :=
  match encode record (f.appendLsn + 1) with
  | .error e => .error e
  | .ok bytes =>
    .ok (f.appendLsn + 1,{ f with bytes := f.bytes ++ bytes, appendLsn := f.appendLsn + 1 })

def LogFile.scan (f : LogFile) : Result (List LogRecord) :=
  match scanBytes false {} f.bytes with
  | .error e => .error e
  | .ok (records,_) => .ok records

/-- What the file keeps of a record: only a compensation stores where undo goes on. -/
def LogRecord.stored (record : LogRecord) : LogRecord :=
  if record.type = .compensation then record
  else { record with undoNextLsn := invalidLsn, compensationType := .checkpoint }

/-- The fields have the width of their types. -/
structure Fits (record : LogRecord) : Prop where
  txnId : record.txnId < 256 ^ 8
  prevLsn : record.prevLsn < 256 ^ 8
  pageId : record.pageId < 256 ^ 4
  undoNextLsn : record.undoNextLsn < 256 ^ 8

section fields

variable {record : LogRecord} {lsn : Lsn} {n c : ℕ}

@[simp] theorem length_header (record : LogRecord) (lsn : Lsn) (n c : ℕ) :
    (header record lsn n c).length = headerSize := by
  simp [header,headerSize]

theorem header_magic (rest : List UInt8) :
    loadAt 4 (header record lsn n c ++ rest) 0 = logMagic := by
  simp [header,loadAt_storeLE,logMagic]

theorem header_version (rest : List UInt8) :
    loadAt 2 (header record lsn n c ++ rest) 4 = logVersion := by
  simp [header,loadAt_append,loadAt_storeLE,logVersion]

theorem header_type (rest : List UInt8) :
    loadAt 2 (header record lsn n c ++ rest) 6 = record.type.tag := by
  simpa [header,loadAt_append,loadAt_storeLE] using Nat.mod_eq_of_lt (tag_lt record.type)

theorem header_total (h : headerSize + n < 256 ^ 4) (rest : List UInt8) :
    loadAt 4 (header record lsn n c ++ rest) 8 = headerSize + n := by
  simpa [header,loadAt_append,loadAt_storeLE] using Nat.mod_eq_of_lt h

theorem header_checksum (h : c < 256 ^ 4) (rest : List UInt8) :
    loadAt 4 (header record lsn n c ++ rest) 12 = c := by
  simpa [header,loadAt_append,loadAt_storeLE] using Nat.mod_eq_of_lt h

theorem header_lsn (h : lsn < 256 ^ 8) (rest : List UInt8) :
    loadAt 8 (header record lsn n c ++ rest) 16 = lsn := by
  simpa [header,loadAt_append,loadAt_storeLE] using Nat.mod_eq_of_lt h

theorem header_txnId (h : Fits record) (rest : List UInt8) :
    loadAt 8 (header record lsn n c ++ rest) 24 = record.txnId := by
  simpa [header,loadAt_append,loadAt_storeLE] using Nat.mod_eq_of_lt h.txnId

theorem header_prevLsn (h : Fits record) (rest : List UInt8) :
    loadAt 8 (header record lsn n c ++ rest) 32 = record.prevLsn := by
  simpa [header,loadAt_append,loadAt_storeLE] using Nat.mod_eq_of_lt h.prevLsn

theorem header_pageId (h : Fits record) (rest : List UInt8) :
    loadAt 4 (header record lsn n c ++ rest) 40 = record.pageId := by
  simpa [header,loadAt_append,loadAt_storeLE] using Nat.mod_eq_of_lt h.pageId

theorem header_length (h : n < 256 ^ 4) (rest : List UInt8) :
    loadAt 4 (header record lsn n c ++ rest) 44 = n := by
  simpa [header,loadAt_append,loadAt_storeLE] using Nat.mod_eq_of_lt h

end fields

/-- The CRC goes past the bytes that hold it. -/
theorem crc_skipped {offset length k : ℕ} (c : List UInt8) (crc : BitVec 32) (hk : offset ≤ k)
    (hle : k + c.length ≤ offset + length) :
    (c.zipIdx k).foldl (fun crc b =>
      if offset ≤ b.2 ∧ b.2 < offset + length then crc else crcByte crc b.1) crc = crc := by
  induction c generalizing k with
  | nil => rfl
  | cons b c ih =>
    rw [List.length_cons] at hle
    have hlt : k < offset + length := by omega
    rw [List.zipIdx_cons,List.foldl_cons,if_pos ⟨hk,hlt⟩]
    exact ih (Nat.le_succ_of_le hk) (by omega)

theorem crc32_congr {a c d b : List UInt8} (h : c.length = d.length) :
    crc32 (a ++ (c ++ b)) a.length c.length = crc32 (a ++ (d ++ b)) a.length c.length := by
  unfold crc32
  rw [List.zipIdx_append,List.zipIdx_append,List.zipIdx_append,List.zipIdx_append,
    List.foldl_append,List.foldl_append,List.foldl_append,List.foldl_append,
    crc_skipped c _ (by simp) (by simp),crc_skipped d _ (by simp) (by simp [h]),h]

theorem crc32_header (record : LogRecord) (lsn : Lsn) (n c d : ℕ) (rest : List UInt8) :
    crc32 (header record lsn n c ++ rest) 12 4 = crc32 (header record lsn n d ++ rest) 12 4 := by
  let front := storeLE 4 logMagic ++ (storeLE 2 logVersion ++ (storeLE 2 record.type.tag ++
    storeLE 4 (headerSize + n)))
  let back := storeLE 8 lsn ++ (storeLE 8 record.txnId ++ (storeLE 8 record.prevLsn ++
    (storeLE 4 record.pageId ++ (storeLE 4 n ++ rest))))
  have hsplit : ∀ c, header record lsn n c ++ rest = front ++ (storeLE 4 c ++ back) := by
    intro c
    simp [header,front,back]
  have hfront : front.length = 12 := by simp [front]
  have h := crc32_congr (a := front) (c := storeLE 4 c) (d := storeLE 4 d) (b := back) (by simp)
  rw [hfront,length_storeLE] at h
  rw [hsplit,hsplit,h]

@[simp] theorem imageOf_ofFn (page : Page) : imageOf (List.ofFn page) = page := by
  funext i
  simp [imageOf]

/-- The three shapes of a record that `Encode` lets through. -/
inductive Shape (record : LogRecord) : Prop
  | update {before after : Page} : record.type = .pageUpdate →
      record.beforeImage = some before → record.afterImage = some after → Shape record
  | compensation : record.type = .compensation → record.beforeImage = none →
      (record.compensationType = .pageUpdate ∧ record.afterImage.isSome) ∨
        ((record.compensationType = .pageAllocate ∨ record.compensationType = .pageFree) ∧
          record.afterImage = none) → Shape record
  | plain : record.type ≠ .pageUpdate → record.type ≠ .compensation →
      record.beforeImage = none → record.afterImage = none → Shape record

theorem shape_of_encodeCheck {record : LogRecord} (h : encodeCheck record = .ok ()) :
    Shape record := by
  unfold encodeCheck at h
  split at h
  · cases h
  split at h
  · cases h
  split at h
  · cases h
  split at h
  · cases h
  split at h
  · cases h
  rename_i hupdate hbefore htarget hmatch hplain
  simp only [Bool.and_eq_true,Bool.or_eq_true,decide_eq_true_eq,not_and,not_or,
    Option.isNone_iff_eq_none,Option.not_isSome_iff_eq_none]
    at hupdate hbefore htarget hmatch hplain
  by_cases hu : record.type = .pageUpdate
  · obtain ⟨hb,ha⟩ := hupdate hu
    obtain ⟨before,hb⟩ := Option.ne_none_iff_exists'.mp hb
    obtain ⟨after,ha⟩ := Option.ne_none_iff_exists'.mp ha
    exact .update hu hb ha
  by_cases hc : record.type = .compensation
  · have hm := hmatch hc
    refine .compensation hc (hbefore hc) ?_
    by_cases ht : record.compensationType = .pageUpdate
    · exact .inl ⟨ht,Option.isSome_iff_ne_none.mpr (hm.1 ht)⟩
    · refine .inr ⟨?_,hm.2 ht⟩
      by_contra hother
      rw [not_or] at hother
      exact htarget ⟨⟨hc,ht⟩,hother.1⟩ hother.2
  · obtain ⟨hb,ha⟩ := hplain ⟨hu,hc⟩
    exact .plain hu hc hb ha

theorem length_imageBytes (page : Page) : (imageBytes (some page)).length = pageSize :=
  List.length_ofFn

theorem payload_lt {record : LogRecord} (h : Shape record) :
    headerSize + (payload record).length < 256 ^ 4 := by
  cases h with
  | update ht hb ha =>
    have hn : (payload record).length = pageSize + pageSize := by
      rw [payload,if_neg (by simp [ht]),hb,ha,List.nil_append,List.length_append,
        length_imageBytes,length_imageBytes]
    rw [hn]
    simp [headerSize,pageSize]
  | compensation ht hb _ =>
    cases ha : record.afterImage with
    | none =>
      have hn : (payload record).length = 12 := by simp [payload,ht,hb,ha,imageBytes]
      rw [hn]
      simp [headerSize]
    | some after =>
      have hn : (payload record).length = 12 + pageSize := by
        rw [payload,if_pos ht,hb,ha]
        simp only [imageBytes,List.append_nil,List.length_append,length_storeLE,List.length_ofFn]
      rw [hn]
      simp [headerSize,pageSize]
  | plain hu hc hb ha =>
    have hn : (payload record).length = 0 := by simp [payload,hc,hb,ha,imageBytes]
    rw [hn]
    simp [headerSize]

theorem length_layout (record : LogRecord) (lsn : Lsn) :
    (layout record lsn).length = headerSize + (payload record).length := by
  rw [layout,List.length_append,length_header]

theorem drop_layout (record : LogRecord) (lsn : Lsn) (k : ℕ) :
    (layout record lsn).drop (headerSize + k) = (payload record).drop k := by
  rw [layout,List.drop_append,length_header,Nat.add_sub_cancel_left,
    List.drop_eq_nil_of_le (by simp),List.nil_append]

theorem loadAt_layout (n k : ℕ) (record : LogRecord) (lsn : Lsn) :
    loadAt n (layout record lsn) (headerSize + k) = loadAt n (payload record) k := by
  rw [loadAt,drop_layout,loadAt]

/-- The images and the compensation come back out of the payload. -/
theorem decodePayload_layout {record : LogRecord} (h : Shape record) (hf : Fits record)
    (lsn : Lsn) :
    decodePayload (layout record lsn)
      { type := record.type
        lsn := lsn
        txnId := record.txnId
        prevLsn := record.prevLsn
        pageId := record.pageId } (payload record).length =
      .ok { record.stored with lsn := lsn } := by
  have hdrop : ∀ k, (layout record lsn).drop (headerSize + k) = (payload record).drop k :=
    drop_layout record lsn
  have hload : ∀ n k, loadAt n (layout record lsn) (headerSize + k) = loadAt n (payload record) k :=
    fun n k => loadAt_layout n k record lsn
  have hdrop0 := hdrop 0
  have hload0 := hload 8 0
  simp only [Nat.add_zero,List.drop_zero] at hdrop0 hload0
  cases h with
  | @update before after ht hb ha =>
    have hpayload : payload record = List.ofFn before ++ List.ofFn after := by
      rw [payload,if_neg (by simp [ht]),hb,ha,List.nil_append]
      rfl
    have hn : (payload record).length = pageSize * 2 := by
      rw [hpayload,List.length_append,List.length_ofFn,List.length_ofFn,mul_two]
    unfold decodePayload
    rw [if_pos ht,if_neg (not_not.mpr hn),hdrop0,hdrop,hpayload]
    rw [List.take_left' (by simp),List.drop_left' (by simp),imageOf_ofFn,imageOf_ofFn]
    simp [LogRecord.stored,ht,hb,ha]
  | compensation ht hb hshape =>
    have hpayload : payload record = storeLE 8 record.undoNextLsn ++
        (storeLE 2 record.compensationType.tag ++ (storeLE 2 0 ++ imageBytes record.afterImage)) := by
      simp [payload,ht,hb,imageBytes]
    have hundo : loadAt 8 (payload record) 0 = record.undoNextLsn := by
      rw [hpayload,loadAt_storeLE,Nat.mod_eq_of_lt hf.undoNextLsn]
    have htype : loadAt 2 (payload record) 8 = record.compensationType.tag := by
      rw [hpayload,loadAt_append (by simp),length_storeLE,Nat.sub_self,loadAt_storeLE,
        Nat.mod_eq_of_lt (tag_lt _)]
    have himage : (payload record).drop 12 = imageBytes record.afterImage := by
      have hfront : (storeLE 8 record.undoNextLsn ++ (storeLE 2 record.compensationType.tag ++
          storeLE 2 0)).length = 12 := by simp
      rw [hpayload,← List.append_assoc (storeLE 2 _),← List.append_assoc,List.drop_left' hfront]
    have hn : (payload record).length = 12 + (imageBytes record.afterImage).length := by
      rw [← himage,List.length_drop]
      have hle : 12 ≤ (payload record).length := by simp [hpayload]; omega
      omega
    unfold decodePayload
    rw [if_neg (by simp [ht]),if_pos ht,hload0,hundo,hdrop,himage,hn]
    unfold decodeCompensation
    rw [hload,htype,ofTag_tag]
    rcases hshape with ⟨hc,ha⟩ | ⟨hc,ha⟩
    · obtain ⟨after,ha⟩ := Option.isSome_iff_exists.mp ha
      have hlen : (imageBytes record.afterImage).length = pageSize := by simp [ha,imageBytes]
      rw [if_neg fun h => h.2 (by rw [hlen]),if_pos (by rw [hlen]),hc,ha]
      simp [LogRecord.stored,ht,hb,ha,hc,imageBytes]
    · have hlen : (imageBytes record.afterImage).length = 0 := by simp [ha,imageBytes]
      rw [if_neg fun h => h.1 (by rw [hlen]),if_neg (by rw [hlen]; decide)]
      rcases hc with hc | hc <;> rw [hc] <;> simp [LogRecord.stored,ht,hb,ha,hc]
  | plain hu hc hb ha =>
    have hpayload : payload record = [] := by simp [payload,hc,hb,ha,imageBytes]
    unfold decodePayload
    rw [if_neg hu,if_neg hc,if_neg (by simp [hpayload])]
    simp [LogRecord.stored,hc,hb,ha,invalidLsn]

theorem total_layout {record : LogRecord} (h : Shape record) (lsn : Lsn) (rest : List UInt8) :
    loadAt 4 (layout record lsn ++ rest) 8 = (layout record lsn).length := by
  rw [length_layout,layout,List.append_assoc,header_total (payload_lt h)]

theorem decode_layout {record : LogRecord} (h : encodeCheck record = .ok ()) (hf : Fits record)
    {lsn : Lsn} (hlsn : lsn < 256 ^ 8) :
    decode (layout record lsn) = .ok { record.stored with lsn := lsn } := by
  have hs := shape_of_encodeCheck h
  have hn := payload_lt hs
  have hlength := length_layout record lsn
  have htotal := total_layout hs lsn []
  rw [List.append_nil] at htotal
  have hcrc : (crc32 (layout record lsn) 12 4).toNat = checksumOf record lsn := by
    rw [layout,crc32_header _ _ _ _ 0,checksumOf]
  have hchecksum : loadAt 4 (layout record lsn) 12 = checksumOf record lsn :=
    header_checksum (BitVec.isLt _) _
  have hpayload : loadAt 4 (layout record lsn) 44 = (payload record).length :=
    header_length (Nat.lt_of_le_of_lt (Nat.le_add_left _ _) hn) _
  have hmagic : loadAt 4 (layout record lsn) 0 = logMagic := header_magic _
  have hversion : loadAt 2 (layout record lsn) 4 = logVersion := header_version _
  have htype : loadAt 2 (layout record lsn) 6 = record.type.tag := header_type _
  have hl : loadAt 8 (layout record lsn) 16 = lsn := header_lsn hlsn _
  have ht : loadAt 8 (layout record lsn) 24 = record.txnId := header_txnId hf _
  have hp : loadAt 8 (layout record lsn) 32 = record.prevLsn := header_prevLsn hf _
  have hpage : loadAt 4 (layout record lsn) 40 = record.pageId := header_pageId hf _
  unfold decode
  rw [if_neg (by simp [hlength]),if_neg (by simp [hmagic,hversion]),htype,ofTag_tag]
  dsimp only
  rw [htotal,hpayload,hchecksum,hcrc,hl,ht,hp,hpage,if_neg (by simp [hlength]),
    if_neg (not_not.mpr rfl)]
  exact decodePayload_layout hs hf lsn

/-- What `Encode` lays out, `Decode` reads back, with the number it was given. -/
theorem decode_encode {record : LogRecord} (hf : Fits record) {lsn : Lsn} (hlsn : lsn < 256 ^ 8)
    {bytes : List UInt8} (h : encode record lsn = .ok bytes) :
    ∃ r, decode bytes = .ok r ∧ loadAt 4 bytes 8 = bytes.length ∧ r.lsn = lsn ∧
      r.type = record.type ∧ r.txnId = record.txnId ∧ r.prevLsn = record.prevLsn ∧
      r.pageId = record.pageId ∧ r.beforeImage = record.beforeImage ∧
      r.afterImage = record.afterImage ∧
      (record.type = .compensation →
        r.undoNextLsn = record.undoNextLsn ∧ r.compensationType = record.compensationType) := by
  unfold encode at h
  cases hc : encodeCheck record with
  | error e => simp [hc] at h
  | ok _ =>
    rw [hc] at h
    obtain rfl := Except.ok.inj h
    have htotal := total_layout (shape_of_encodeCheck hc) lsn []
    rw [List.append_nil] at htotal
    refine ⟨_,decode_layout hc hf hlsn,htotal,rfl,?_⟩
    unfold LogRecord.stored
    split
    · exact ⟨rfl,rfl,rfl,rfl,rfl,rfl,fun _ => ⟨rfl,rfl⟩⟩
    · next ht => exact ⟨rfl,rfl,rfl,rfl,rfl,rfl,fun hcomp => absurd hcomp ht⟩

/-- A compensation of a page update, with its image. -/
def sampleCompensation : LogRecord where
  type := .compensation
  txnId := 1
  prevLsn := 5
  pageId := 9
  undoNextLsn := 3
  compensationType := .pageUpdate
  afterImage := some fun _ => 7

theorem decode_encode_compensation : ∃ r,
    encode sampleCompensation 6 = .ok (layout sampleCompensation 6) ∧
    decode (layout sampleCompensation 6) = .ok r ∧ r.lsn = 6 ∧ r.undoNextLsn = 3 ∧
      r.compensationType = .pageUpdate ∧ r.afterImage = some fun _ => 7 := by
  have hf : Fits sampleCompensation := ⟨by decide,by decide,by decide,by decide⟩
  have he : encode sampleCompensation 6 = .ok (layout sampleCompensation 6) := rfl
  obtain ⟨r,hr,-,hl,-,-,-,-,-,ha,hc⟩ := decode_encode hf (by decide) he
  exact ⟨r,he,hr,hl,(hc rfl).1,(hc rfl).2,ha⟩

end Storage
end OurSql
