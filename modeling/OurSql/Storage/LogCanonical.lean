import OurSql.Storage.LogFile

/-! Which byte strings `Decode` accepts, and which of them `Encode` writes. -/
namespace OurSql
namespace Storage

open Bytes

theorem tag_ofTag {n : ℕ} {type : LogRecordType} (h : LogRecordType.ofTag n = some type) :
    type.tag = n := by
  unfold LogRecordType.ofTag at h
  split at h <;> first | cases h; rfl | cases h

theorem tag_inj {a b : LogRecordType} (h : a.tag = b.tag) : a = b := by
  have ha := ofTag_tag a
  rw [h,ofTag_tag b] at ha
  exact (Option.some.inj ha).symm

/-- What the checks of `Decode` have found when it comes to the payload. -/
structure Accepted (data : List UInt8) (type : LogRecordType) : Prop where
  size : headerSize ≤ data.length
  magic : loadAt 4 data 0 = logMagic
  version : loadAt 2 data 4 = logVersion
  type : loadAt 2 data 6 = type.tag
  total : loadAt 4 data 8 = data.length
  length : loadAt 4 data 44 = data.length - headerSize
  checksum : loadAt 4 data 12 = (crc32 data 12 4).toNat

/-- The fields `Decode` reads off the header. -/
def headerRecord (data : List UInt8) (type : LogRecordType) : LogRecord where
  type := type
  lsn := loadAt 8 data 16
  txnId := loadAt 8 data 24
  prevLsn := loadAt 8 data 32
  pageId := loadAt 4 data 40

@[simp] theorem headerRecord_type (data : List UInt8) (type : LogRecordType) :
    (headerRecord data type).type = type := rfl

theorem decode_accepted {data : List UInt8} {record : LogRecord} (h : decode data = .ok record) :
    ∃ type, Accepted data type ∧
      decodePayload data (headerRecord data type) (data.length - headerSize) = .ok record := by
  unfold decode at h
  by_cases hsize : data.length < headerSize
  · rw [if_pos hsize] at h
    cases h
  rw [if_neg hsize] at h
  by_cases hmagic : loadAt 4 data 0 ≠ logMagic ∨ loadAt 2 data 4 ≠ logVersion
  · rw [if_pos hmagic] at h
    cases h
  rw [if_neg hmagic] at h
  cases htype : LogRecordType.ofTag (loadAt 2 data 6) with
  | none =>
    rw [htype] at h
    cases h
  | some type =>
    rw [htype] at h
    dsimp only at h
    by_cases htotal : loadAt 4 data 8 < headerSize ∨ loadAt 4 data 8 ≠ data.length ∨
        loadAt 4 data 44 ≠ loadAt 4 data 8 - headerSize
    · rw [if_pos htotal] at h
      cases h
    rw [if_neg htotal] at h
    by_cases hcrc : loadAt 4 data 12 ≠ (crc32 data 12 4).toNat
    · rw [if_pos hcrc] at h
      cases h
    rw [if_neg hcrc] at h
    simp only [not_or,not_not] at hmagic htotal hcrc
    have hlength := htotal.2.2
    rw [htotal.2.1] at hlength
    rw [hlength] at h
    exact ⟨type,⟨Nat.not_lt.mp hsize,hmagic.1,hmagic.2,(tag_ofTag htype).symm,htotal.2.1,hlength,
      hcrc⟩,h⟩

section accepted

variable {data : List UInt8} {type : LogRecordType} {record : LogRecord}

/-- The header of an accepted string is the one the fields lay out. -/
theorem Accepted.data_eq (h : Accepted data type) :
    data = header (headerRecord data type) (loadAt 8 data 16) (data.length - headerSize)
      (loadAt 4 data 12) ++ data.drop headerSize := by
  have hle : ∀ k, k ≤ headerSize → k ≤ data.length := fun k hk => hk.trans h.size
  have hsize : headerSize + (data.length - headerSize) = data.length := Nat.add_sub_cancel' h.size
  have hdrop : ∀ n k, k + n ≤ headerSize →
      data.drop k = storeLE n (loadAt n data k) ++ data.drop (k + n) :=
    fun n k hk => drop_eq_storeLE (hle _ hk)
  have hsplit := hdrop 4 0 (by decide)
  rw [hdrop 2 4 (by decide),hdrop 2 6 (by decide),hdrop 4 8 (by decide),hdrop 4 12 (by decide),
    hdrop 8 16 (by decide),hdrop 8 24 (by decide),hdrop 8 32 (by decide),hdrop 4 40 (by decide),
    hdrop 4 44 (by decide),h.magic,h.version,h.type,h.total,h.length] at hsplit
  unfold header
  rw [hsize]
  simpa [headerRecord,headerSize] using hsplit

/-- The header does not come into it: the bytes agree as soon as the payloads do. -/
theorem Accepted.layout_eq (h : Accepted data type) (hr : record.type = type)
    (hlsn : record.lsn = loadAt 8 data 16) (htxn : record.txnId = loadAt 8 data 24)
    (hprev : record.prevLsn = loadAt 8 data 32) (hpage : record.pageId = loadAt 4 data 40) :
    layout record record.lsn = data ↔ payload record = data.drop headerSize := by
  have hheader : ∀ n c, header record record.lsn n c =
      header (headerRecord data type) (loadAt 8 data 16) n c := by
    intro n c
    simp only [header,headerRecord,hr,hlsn,htxn,hprev,hpage]
  constructor
  · intro hlayout
    have hdrop := drop_layout record record.lsn 0
    rw [hlayout,List.drop_zero,Nat.add_zero] at hdrop
    exact hdrop.symm
  · intro hpayload
    have hn : (payload record).length = data.length - headerSize := by
      rw [hpayload,List.length_drop]
    have hsum : checksumOf record record.lsn = loadAt 4 data 12 := by
      rw [checksumOf,hheader,hn,hpayload,crc32_header _ _ _ 0 (loadAt 4 data 12),← h.data_eq,
        h.checksum]
    rw [layout,hn,hsum,hheader,hpayload,← h.data_eq]

end accepted

theorem ofFn_imageOf {bytes : List UInt8} (h : bytes.length = pageSize) :
    List.ofFn (imageOf bytes) = bytes := by
  apply List.ext_getElem
  · rw [List.length_ofFn,h]
  · intro i h₁ h₂
    rw [List.getElem_ofFn,imageOf,List.getD_eq_getElem?_getD,List.getElem?_eq_getElem h₂,
      Option.getD_some]

/-- The length a payload has when it holds an image beside the fields of the compensation. -/
def imaged (data : List UInt8) : Prop := data.length - headerSize = 12 + pageSize

instance (data : List UInt8) : Decidable (imaged data) := inferInstanceAs (Decidable (_ = _))

/-- What the payload of an accepted compensation was found to hold. -/
structure CompensationRead (data : List UInt8) (record : LogRecord) : Prop where
  length : data.length - headerSize = 12 ∨ imaged data
  target : loadAt 2 data (headerSize + 8) = record.compensationType.tag
  known : record.compensationType = .pageUpdate ∨ record.compensationType = .pageAllocate ∨
    record.compensationType = .pageFree
  read : record = { headerRecord data .compensation with
    undoNextLsn := loadAt 8 data headerSize
    afterImage := if imaged data then some (imageOf (data.drop (headerSize + 12))) else none
    compensationType := record.compensationType }

theorem decodePayload_update {data : List UInt8} {record : LogRecord} {n : ℕ}
    (h : decodePayload data (headerRecord data .pageUpdate) n = .ok record) :
    n = pageSize * 2 ∧ record = { headerRecord data .pageUpdate with
      beforeImage := some (imageOf ((data.drop headerSize).take pageSize))
      afterImage := some (imageOf (data.drop (headerSize + pageSize))) } := by
  unfold decodePayload at h
  rw [if_pos (headerRecord_type _ _)] at h
  by_cases hn : n ≠ pageSize * 2
  · rw [if_pos hn] at h
    cases h
  rw [if_neg hn] at h
  exact ⟨not_not.mp hn,(Except.ok.inj h).symm⟩

theorem decodePayload_compensation {data : List UInt8} {record : LogRecord}
    (h : decodePayload data (headerRecord data .compensation) (data.length - headerSize) =
      .ok record) : CompensationRead data record := by
  unfold decodePayload at h
  rw [if_neg (by simp),if_pos (headerRecord_type _ _)] at h
  by_cases hn : data.length - headerSize ≠ 12 ∧ data.length - headerSize ≠ 12 + pageSize
  · rw [if_pos hn] at h
    cases h
  rw [if_neg hn] at h
  have hlength : data.length - headerSize = 12 ∨ imaged data := by
    by_contra hc
    rw [not_or] at hc
    exact hn hc
  unfold decodeCompensation at h
  cases ht : LogRecordType.ofTag (loadAt 2 data (headerSize + 8)) with
  | none =>
    rw [ht] at h
    cases h
  | some target =>
    have htag := (tag_ofTag ht).symm
    rw [ht] at h
    cases target with
    | pageUpdate => cases h; exact ⟨hlength,htag,.inl rfl,rfl⟩
    | pageAllocate => cases h; exact ⟨hlength,htag,.inr (.inl rfl),rfl⟩
    | pageFree => cases h; exact ⟨hlength,htag,.inr (.inr rfl),rfl⟩
    | _ => cases h

theorem decodePayload_plain {data : List UInt8} {type : LogRecordType} {record : LogRecord} {n : ℕ}
    (hu : type ≠ .pageUpdate) (hc : type ≠ .compensation)
    (h : decodePayload data (headerRecord data type) n = .ok record) :
    n = 0 ∧ record = headerRecord data type := by
  unfold decodePayload at h
  rw [headerRecord_type,if_neg hu,if_neg hc] at h
  by_cases hn : n ≠ 0
  · rw [if_pos hn] at h
    cases h
  rw [if_neg hn] at h
  exact ⟨not_not.mp hn,(Except.ok.inj h).symm⟩

/-- The record has the images its kind needs and no others. -/
def Imaged (record : LogRecord) : Prop :=
  (record.beforeImage.isSome ↔ record.type = .pageUpdate) ∧
    (record.afterImage.isSome ↔ record.type = .pageUpdate ∨
      (record.type = .compensation ∧ record.compensationType = .pageUpdate))

/-- A compensation carries an image exactly when it undoes a page update. -/
def TargetMatches (data : List UInt8) : Prop :=
  loadAt 2 data 6 = LogRecordType.compensation.tag →
    (loadAt 2 data 56 = LogRecordType.pageUpdate.tag ↔ data.length = headerSize + 12 + pageSize)

/-- The two bytes between the target of a compensation and its image. -/
def PaddingZero (data : List UInt8) : Prop :=
  loadAt 2 data 6 = LogRecordType.compensation.tag → loadAt 2 data 58 = 0

/-- The images fit the kind as soon as the target of a compensation does. -/
theorem imaged_iff {data : List UInt8} {record : LogRecord} (h : decode data = .ok record) :
    Imaged record ↔ TargetMatches data := by
  obtain ⟨type,ha,hp⟩ := decode_accepted h
  unfold TargetMatches
  rw [ha.type]
  by_cases hu : type = .pageUpdate
  · subst hu
    obtain ⟨-,rfl⟩ := decodePayload_update hp
    simp [Imaged,LogRecordType.tag]
  by_cases hc : type = .compensation
  · subst hc
    have hr := decodePayload_compensation hp
    have himage : imaged data ↔ data.length = headerSize + 12 + pageSize := by
      have hsize := ha.size
      unfold imaged
      omega
    have ht : loadAt 2 data 56 = LogRecordType.pageUpdate.tag ↔
        record.compensationType = .pageUpdate := by
      rw [show loadAt 2 data 56 = record.compensationType.tag from hr.target]
      exact ⟨tag_inj,fun h => by rw [h]⟩
    have hb : record.beforeImage = none := by rw [hr.read]; rfl
    have hk : record.type = .compensation := by rw [hr.read]; rfl
    have hi : record.afterImage.isSome ↔ imaged data := by
      rw [hr.read]
      by_cases hd : imaged data <;> simp [hd]
    rw [ht,← himage,← hi]
    simp [Imaged,hb,hk,iff_comm]
  · have htag : type.tag ≠ LogRecordType.compensation.tag := fun h => hc (tag_inj h)
    obtain ⟨-,rfl⟩ := decodePayload_plain hu hc hp
    simp [Imaged,headerRecord,hu,hc,htag]

theorem payload_compensation {data : List UInt8} {record : LogRecord}
    (ha : Accepted data .compensation) (hr : CompensationRead data record) :
    payload record = data.drop headerSize ↔ loadAt 2 data 58 = 0 := by
  have hk : record.type = .compensation := by rw [hr.read]; rfl
  have hb : record.beforeImage = none := by rw [hr.read]; rfl
  have hundo : record.undoNextLsn = loadAt 8 data headerSize := by rw [hr.read]
  have hsize := ha.size
  have hlength : headerSize + 12 ≤ data.length := by
    rcases hr.length with h | h
    · omega
    · unfold imaged at h
      omega
  have himage : imageBytes record.afterImage = data.drop (headerSize + 12) := by
    rw [hr.read]
    dsimp only
    by_cases hi : imaged data
    · rw [if_pos hi]
      refine ofFn_imageOf ?_
      unfold imaged at hi
      rw [List.length_drop]
      omega
    · rw [if_neg hi]
      have hend : data.length ≤ headerSize + 12 := by
        have h := hr.length.resolve_right hi
        omega
      exact (List.drop_eq_nil_of_le hend).symm
  have hread : data.drop headerSize = storeLE 8 record.undoNextLsn ++
      (storeLE 2 record.compensationType.tag ++ (storeLE 2 (loadAt 2 data 58) ++
        data.drop (headerSize + 12))) := by
    rw [drop_eq_storeLE (n := 8) (by omega),
      @drop_eq_storeLE 2 (headerSize + 8) _ (by omega),
      @drop_eq_storeLE 2 (headerSize + 8 + 2) _ (by omega),hr.target,hundo]
    rfl
  have hwritten : payload record = storeLE 8 record.undoNextLsn ++
      (storeLE 2 record.compensationType.tag ++ (storeLE 2 0 ++ data.drop (headerSize + 12))) := by
    rw [payload,if_pos hk,hb,himage]
    simp [imageBytes]
  rw [hread,hwritten]
  simp only [List.append_cancel_left_eq,List.append_cancel_right_eq]
  constructor
  · intro h
    have hload := congrArg loadLE h
    rw [loadLE_storeLE,loadLE_storeLE,Nat.mod_eq_of_lt (loadAt_lt 2 58 data)] at hload
    exact hload.symm
  · intro h
    rw [h]

/-- The bytes come back from `layout` as soon as the padding is what `Encode` leaves there. -/
theorem layout_iff {data : List UInt8} {record : LogRecord} (h : decode data = .ok record) :
    layout record record.lsn = data ↔ PaddingZero data := by
  obtain ⟨type,ha,hp⟩ := decode_accepted h
  unfold PaddingZero
  rw [ha.type]
  by_cases hu : type = .pageUpdate
  · subst hu
    obtain ⟨hn,rfl⟩ := decodePayload_update hp
    rw [ha.layout_eq rfl rfl rfl rfl rfl]
    have hlength : (data.drop headerSize).length = pageSize * 2 := by rw [List.length_drop,hn]
    have hfront : ((data.drop headerSize).take pageSize).length = pageSize := by
      rw [List.length_take]
      omega
    have hback : (data.drop (headerSize + pageSize)).length = pageSize := by
      rw [← List.drop_drop,List.length_drop]
      omega
    have hpayload : payload { headerRecord data .pageUpdate with
        beforeImage := some (imageOf ((data.drop headerSize).take pageSize))
        afterImage := some (imageOf (data.drop (headerSize + pageSize))) } =
        data.drop headerSize := by
      rw [payload,if_neg (by simp)]
      dsimp only [imageBytes]
      rw [List.nil_append,ofFn_imageOf hfront,ofFn_imageOf hback,← List.drop_drop,
        List.take_append_drop]
    exact ⟨fun _ h => by simp [LogRecordType.tag] at h,fun _ => hpayload⟩
  by_cases hc : type = .compensation
  · subst hc
    have hr := decodePayload_compensation hp
    have hl := @Accepted.layout_eq _ _ record ha (by rw [hr.read]; rfl) (by rw [hr.read]; rfl)
      (by rw [hr.read]; rfl) (by rw [hr.read]; rfl) (by rw [hr.read]; rfl)
    rw [hl,payload_compensation ha hr]
    simp
  · have htag : type.tag ≠ LogRecordType.compensation.tag := fun h => hc (tag_inj h)
    obtain ⟨hn,rfl⟩ := decodePayload_plain hu hc hp
    have hnil : data.drop headerSize = [] := List.drop_eq_nil_of_le (by omega)
    rw [ha.layout_eq rfl rfl rfl rfl rfl,hnil]
    simp [payload,headerRecord,hc,htag,imageBytes]

/-- `Encode` checks the images and the target of a compensation, nothing else. -/
theorem encodeCheck_iff (record : LogRecord) : encodeCheck record = .ok () ↔
    Imaged record ∧ (record.type = .compensation → record.compensationType = .pageUpdate ∨
      record.compensationType = .pageAllocate ∨ record.compensationType = .pageFree) := by
  constructor
  · intro h
    cases shape_of_encodeCheck h with
    | update ht hb ha => simp [Imaged,ht,hb,ha]
    | compensation ht hb hm =>
      rcases hm with ⟨hc,ha⟩ | ⟨hc,ha⟩
      · simp [Imaged,ht,hb,ha,hc]
      · rcases hc with hc | hc <;> simp [Imaged,ht,hb,ha,hc]
    | plain hu hc hb ha => simp [Imaged,hu,hc,hb,ha]
  · rintro ⟨⟨hb,ha⟩,hk⟩
    by_cases hu : record.type = .pageUpdate
    · obtain ⟨before,hb⟩ := Option.isSome_iff_exists.mp (hb.mpr hu)
      obtain ⟨after,ha⟩ := Option.isSome_iff_exists.mp (ha.mpr (.inl hu))
      simp [encodeCheck,hu,hb,ha]
    have hb : record.beforeImage = none := by
      rw [← Option.not_isSome_iff_eq_none,hb]
      exact hu
    by_cases hc : record.type = .compensation
    · simp only [hc,true_and,reduceCtorEq,false_or] at ha
      by_cases ht : record.compensationType = .pageUpdate
      · obtain ⟨after,ha⟩ := Option.isSome_iff_exists.mp (ha.mpr ht)
        simp [encodeCheck,hc,hb,ht,ha]
      · have ha : record.afterImage = none := by
          rw [← Option.not_isSome_iff_eq_none,ha]
          exact ht
        rcases (hk hc).resolve_left ht with ht | ht <;> simp [encodeCheck,hc,hb,ht,ha]
    · have ha : record.afterImage = none := by
        rw [← Option.not_isSome_iff_eq_none,ha]
        simp [hu,hc]
      simp [encodeCheck,hu,hc,hb,ha]

/-- The target of an accepted compensation is one that `Encode` lets through. -/
theorem compensationType_of_decode {data : List UInt8} {record : LogRecord}
    (h : decode data = .ok record) (hc : record.type = .compensation) :
    record.compensationType = .pageUpdate ∨ record.compensationType = .pageAllocate ∨
      record.compensationType = .pageFree := by
  obtain ⟨type,-,hp⟩ := decode_accepted h
  by_cases hu : type = .pageUpdate
  · subst hu
    obtain ⟨-,rfl⟩ := decodePayload_update hp
    simp at hc
  by_cases ht : type = .compensation
  · subst ht
    exact (decodePayload_compensation hp).known
  · obtain ⟨-,rfl⟩ := decodePayload_plain hu ht hp
    exact absurd hc ht

/-- An accepted string is one that `Encode` writes for what was read from it, unless the image of
a compensation does not go with its target or the padding is in use. -/
theorem encode_of_decode {data : List UInt8} {record : LogRecord} (h : decode data = .ok record) :
    (encode record record.lsn = .ok data ↔ TargetMatches data ∧ PaddingZero data) ∧
      (Imaged record ↔ TargetMatches data) := by
  have himaged := imaged_iff h
  refine ⟨?_,himaged⟩
  rw [← himaged,← layout_iff h]
  unfold encode
  cases hc : encodeCheck record with
  | error e =>
    have hn : ¬ Imaged record := by
      intro hi
      rw [(encodeCheck_iff record).mpr ⟨hi,compensationType_of_decode h⟩] at hc
      cases hc
    simp [hn]
  | ok _ =>
    have hi := ((encodeCheck_iff record).mp hc).1
    simp [hi]

/-- A compensation of a page update, without the page. -/
def imagelessCompensation : List UInt8 :=
  [0x57,0x41,0x4c,0x31, 1,0, 8,0, 60,0,0,0, 243,154,77,8, 6,0,0,0,0,0,0,0, 1,0,0,0,0,0,0,0,
    5,0,0,0,0,0,0,0, 9,0,0,0, 12,0,0,0, 3,0,0,0,0,0,0,0, 2,0, 0,0]

/-- Whether a record is the compensation of a page update, and has no image at all. -/
def LogRecord.lacksPage (record : LogRecord) : Bool :=
  record.type = .compensation && record.compensationType = .pageUpdate &&
    record.beforeImage.isNone && record.afterImage.isNone

theorem encode_lacksPage {record : LogRecord} (h : record.lacksPage = true) (lsn : Lsn) :
    encode record lsn =
      fail .invalidArgument "Compensation image does not match its target type" := by
  simp only [LogRecord.lacksPage,Bool.and_eq_true,decide_eq_true_eq,Option.isNone_iff_eq_none] at h
  obtain ⟨⟨⟨hc,ht⟩,hb⟩,ha⟩ := h
  simp [encode,encodeCheck,hc,ht,hb,ha,fail]

theorem decode_imagelessCompensation : ∃ record, decode imagelessCompensation = .ok record ∧
    record.lacksPage = true ∧ encode record record.lsn =
      fail .invalidArgument "Compensation image does not match its target type" := by
  have hread : ∃ record, decode imagelessCompensation = .ok record ∧ record.lacksPage = true := by
    have h : ((decode imagelessCompensation).toOption.map (·.lacksPage)) = some true := by
      decide +kernel
    obtain ⟨record,hr,hl⟩ := Option.map_eq_some_iff.mp h
    refine ⟨record,?_,hl⟩
    cases hd : decode imagelessCompensation with
    | error e =>
      rw [hd] at hr
      cases hr
    | ok r =>
      rw [hd] at hr
      rw [Option.some.inj hr]
  obtain ⟨record,hr,hl⟩ := hread
  exact ⟨record,hr,hl,encode_lacksPage hl _⟩

theorem encode_of_decode_imageless : ∃ record, decode imagelessCompensation = .ok record ∧
    ((encode record record.lsn = .ok imagelessCompensation ↔
      TargetMatches imagelessCompensation ∧ PaddingZero imagelessCompensation) ∧
      (Imaged record ↔ TargetMatches imagelessCompensation)) := by
  cases hd : decode imagelessCompensation with
  | error e =>
    exfalso
    have h : (decode imagelessCompensation).toOption.isSome = true := by decide +kernel
    rw [hd] at h
    cases h
  | ok record => exact ⟨record,rfl,encode_of_decode hd⟩

end Storage
end OurSql
