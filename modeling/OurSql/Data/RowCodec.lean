import Mathlib
import OurSql.Lib.Bytes
import OurSql.Data.Value

/-! `RowCodec`: magic, column count, then a tag, a length and the content of each
field. Encoding and decoding undo each other as long as the count fits its
four bytes. -/
namespace OurSql
namespace Data.RowCodec

open Bytes

def kRowMagic : ℕ := 0x31574F52
def kRowHeaderSize : ℕ := 8
def kFieldHeaderSize : ℕ := 5

/-- The persistent tag does not follow the enumeration's own numbers. -/
def typeTag (type : DataType) : UInt8 := if type = .int then 1 else 2

/-- The turn of `Encode`'s loop for column `i`. -/
def encodeField (i : ℕ) (column : Column) (value : Value) : Result (List UInt8) :=
  if value = .null then
    if !column.nullable then fail .invalidArgument ("Row 列不允许 NULL: " ++ column.name)
    else .ok (0::storeLE 4 0)
  else if value.type ≠ column.type then
    fail .typeMismatch
      ("Row 第 " ++ toString (i + 1) ++ " 项与列 " ++ column.name ++ " 类型不匹配")
  else match value with
    | .int n => .ok (typeTag column.type::storeLE 4 8 ++ storeLE 8 n.toUInt64.toNat)
    | .varchar text =>
      if column.length.any (· < text.length) then
        fail .invalidArgument ("字符串超过列长度: " ++ column.name)
      else if 4294967295 < text.length then
        fail .invalidArgument ("字符串长度超过编码上限: " ++ column.name)
      else .ok (typeTag column.type::storeLE 4 text.length ++ text)
    | .null => .ok []

def encodeFields (i : ℕ) : Schema → Row → Result (List UInt8)
  | c::cs, v::vs =>
    match encodeField i c v with
    | .error e => .error e
    | .ok field =>
      match encodeFields (i + 1) cs vs with
      | .error e => .error e
      | .ok fields => .ok (field ++ fields)
  | _, _ => .ok []

/-- The header's count is cut to 32 bits by its cast. -/
def header (columns : ℕ) : List UInt8 := storeLE 4 kRowMagic ++ storeLE 4 columns

def encode (schema : Schema) (row : Row) : Result (List UInt8) :=
  if row.length ≠ schema.length then
    fail .invalidArgument ("Row 列数量与 Schema 不符: 期望 " ++ toString schema.length ++
      "，实际 " ++ toString row.length)
  else match encodeFields 0 schema row with
    | .error e => .error e
    | .ok fields => .ok (header schema.length ++ fields)

def canRead (record : List UInt8) (offset length : ℕ) : Bool :=
  offset ≤ record.length ∧ length ≤ record.length - offset

/-- What `Decode` does with a field whose header it has read: its content starts
at `offset`, and the next field where the second component says. -/
def decodeContent (record : List UInt8) (i : ℕ) (column : Column) (tag : UInt8)
    (length offset : ℕ) : Result (Value × ℕ) :=
  if tag = 0 then
    if length ≠ 0 ∨ !column.nullable then
      fail .invalidArgument ("Row NULL 字段非法: " ++ column.name)
    else .ok (.null,offset)
  else if tag ≠ typeTag column.type then
    fail .typeMismatch ("Row 第 " ++ toString (i + 1) ++ " 项类型标记不匹配")
  else if column.type = .int then
    if length ≠ 8 ∨ !canRead record offset length then
      fail .invalidArgument ("Row INT 字段长度非法: 第 " ++ toString (i + 1) ++ " 项")
    else .ok (.int (UInt64.ofNat (loadAt 8 record offset)).toInt64,offset + length)
  else if !canRead record offset length then
    fail .invalidArgument ("Row VARCHAR 字段越界: 第 " ++ toString (i + 1) ++ " 项")
  else if column.length.any (· < length) then
    fail .invalidArgument ("Row VARCHAR 超过列长度: " ++ column.name)
  else .ok (.varchar ((record.drop offset).take length),offset + length)

def decodeField (record : List UInt8) (i offset : ℕ) (column : Column) : Result (Value × ℕ) :=
  if !canRead record offset kFieldHeaderSize then
    fail .invalidArgument ("Row 字段头部越界: 第 " ++ toString (i + 1) ++ " 项")
  else decodeContent record i column (record.getD offset 0) (loadAt 4 record (offset + 1))
    (offset + kFieldHeaderSize)

def decodeFields (record : List UInt8) (i offset : ℕ) : Schema → Result (Row × ℕ)
  | [] => .ok ([],offset)
  | c::cs =>
    match decodeField record i offset c with
    | .error e => .error e
    | .ok (v,offset') =>
      match decodeFields record (i + 1) offset' cs with
      | .error e => .error e
      | .ok (vs,last) => .ok (v::vs,last)

def decode (schema : Schema) (record : List UInt8) : Result Row :=
  if !canRead record 0 kRowHeaderSize then fail .invalidArgument "Row 记录头部不完整"
  else if loadAt 4 record 0 ≠ kRowMagic then fail .invalidArgument "Row 记录魔数不匹配"
  else if loadAt 4 record 4 ≠ schema.length then
    fail .invalidArgument "Row 列数量与 Schema 不符"
  else match decodeFields record 0 kRowHeaderSize schema with
    | .error e => .error e
    | .ok (row,offset) =>
      if offset ≠ record.length then fail .invalidArgument "Row 记录包含多余或损坏数据"
      else .ok row

theorem canRead_iff {record : List UInt8} {offset length : ℕ} :
    canRead record offset length = true ↔ offset + length ≤ record.length := by
  simp only [canRead,decide_eq_true_eq]
  omega

/-- The bytes of one field. -/
inductive Encodes (c : Column) : Value → List UInt8 → Prop
  | null : c.nullable = true → Encodes c .null (0::storeLE 4 0)
  | int (n : Int64) : c.type = .int →
    Encodes c (.int n) (1::storeLE 4 8 ++ storeLE 8 n.toUInt64.toNat)
  | varchar (text : List UInt8) : c.type = .varchar → (∀ m ∈ c.length, text.length ≤ m) →
    text.length < 4294967296 → Encodes c (.varchar text) (2::storeLE 4 text.length ++ text)

theorem any_lt_eq_false {bound : Option ℕ} {n : ℕ} :
    bound.any (· < n) = false ↔ ∀ m ∈ bound, n ≤ m := by
  cases bound with
  | none => simp
  | some m => simp

theorem encodeField_eq_ok {i : ℕ} {c : Column} {v : Value} {bytes : List UInt8} :
    encodeField i c v = .ok bytes ↔ Encodes c v bytes := by
  constructor
  · intro h
    cases v with
    | null =>
      cases hn : c.nullable with
      | false => simp [encodeField,hn,fail] at h
      | true =>
        obtain rfl : 0::storeLE 4 0 = bytes := by simpa [encodeField,hn] using h
        exact .null hn
    | int n =>
      by_cases ht : c.type = .int
      · obtain rfl : 1::storeLE 4 8 ++ storeLE 8 n.toUInt64.toNat = bytes := by
          simpa [encodeField,Value.type,ht,typeTag] using h
        exact .int n ht
      · simp [encodeField,Value.type,Ne.symm ht,fail] at h
    | varchar text =>
      by_cases ht : c.type = .varchar
      · cases hl : c.length.any (· < text.length) with
        | true => simp [encodeField,Value.type,ht,hl,fail] at h
        | false =>
          by_cases hb : 4294967295 < text.length
          · simp [encodeField,Value.type,ht,hl,hb,fail] at h
          · obtain rfl : 2::storeLE 4 text.length ++ text = bytes := by
              simpa [encodeField,Value.type,ht,hl,hb,typeTag] using h
            exact .varchar text ht (any_lt_eq_false.mp hl) (by omega)
      · simp [encodeField,Value.type,Ne.symm ht,fail] at h
  · intro h
    cases h with
    | null hn => simp [encodeField,hn]
    | int n ht => simp [encodeField,Value.type,ht,typeTag]
    | varchar text ht hl hb =>
      have hl := any_lt_eq_false.mpr hl
      have hb : ¬ 4294967295 < text.length := by omega
      simp [encodeField,Value.type,ht,hl,hb,typeTag]

theorem Encodes.five_le {c : Column} {v : Value} {bytes : List UInt8} (h : Encodes c v bytes) :
    kFieldHeaderSize ≤ bytes.length := by
  cases h <;> simp [kFieldHeaderSize]

theorem toNat_ofNat_load (record : List UInt8) (offset : ℕ) :
    (UInt64.ofNat (loadAt 8 record offset)).toInt64.toUInt64.toNat = loadAt 8 record offset := by
  have h : loadAt 8 record offset < 18446744073709551616 := loadAt_lt 8 offset record
  rw [UInt64.toUInt64_toInt64,UInt64.toNat_ofNat']
  exact Nat.mod_eq_of_lt h

/-- A field header in front of its content, as the decoder meets it. -/
theorem drop_eq_header {record : List UInt8} {offset : ℕ}
    (h : offset + kFieldHeaderSize ≤ record.length) :
    record.drop offset = record.getD offset 0::storeLE 4 (loadAt 4 record (offset + 1)) ++
      record.drop (offset + kFieldHeaderSize) := by
  have ho : offset < record.length := by
    simp only [kFieldHeaderSize] at h
    omega
  have hd : record.drop offset = record.getD offset 0::record.drop (offset + 1) := by
    rw [List.drop_eq_getElem_cons ho,List.getD_eq_getElem _ _ ho]
  rw [hd,drop_eq_storeLE (n := 4) (by simp only [kFieldHeaderSize] at h; omega)]
  rfl

/-- The contents `decodeContent` accepts. -/
inductive Reads (record : List UInt8) (c : Column) (offset : ℕ) : UInt8 → ℕ → Value → ℕ → Prop
  | null : c.nullable = true → Reads record c offset 0 0 .null offset
  | int : c.type = .int → offset + 8 ≤ record.length → Reads record c offset 1 8
    (.int (UInt64.ofNat (loadAt 8 record offset)).toInt64) (offset + 8)
  | varchar {length : ℕ} : c.type = .varchar → offset + length ≤ record.length →
    (∀ m ∈ c.length, length ≤ m) →
    Reads record c offset 2 length (.varchar ((record.drop offset).take length)) (offset + length)

theorem decodeContent_eq_ok {record : List UInt8} {i length offset last : ℕ} {c : Column}
    {tag : UInt8} {v : Value} (hc : c.type ≠ .null) :
    decodeContent record i c tag length offset = .ok (v,last) ↔
      Reads record c offset tag length v last := by
  constructor
  · intro h
    by_cases h0 : tag = 0
    · rw [decodeContent,if_pos h0,ite_fail_eq_ok] at h
      obtain ⟨hn,hv⟩ := h
      obtain ⟨rfl,rfl⟩ : Value.null = v ∧ offset = last := by simpa using hv
      obtain ⟨rfl,hz⟩ : length = 0 ∧ c.nullable = true := by simpa using hn
      rw [h0]
      exact .null hz
    · rw [decodeContent,if_neg h0,ite_fail_eq_ok,not_not] at h
      obtain ⟨rfl,h⟩ := h
      by_cases hk : c.type = .int
      · rw [if_pos hk,ite_fail_eq_ok,Except.ok.injEq,Prod.mk.injEq] at h
        obtain ⟨hl,rfl,rfl⟩ := h
        obtain ⟨rfl,hr⟩ : length = 8 ∧ canRead record offset length = true := by simpa using hl
        rw [typeTag,if_pos hk]
        exact .int hk (canRead_iff.mp hr)
      · rw [if_neg hk,ite_fail_eq_ok,ite_fail_eq_ok,Except.ok.injEq,Prod.mk.injEq] at h
        obtain ⟨hr,hm,rfl,rfl⟩ := h
        rw [Bool.not_eq_true,Bool.not_eq_false'] at hr
        rw [typeTag,if_neg hk]
        have hv : c.type = .varchar := by
          cases hv : c.type with
          | int => exact absurd hv hk
          | varchar => rfl
          | null => exact absurd hv hc
        exact .varchar hv (canRead_iff.mp hr) (any_lt_eq_false.mp (by simpa using hm))
  · intro h
    cases h with
    | null hn => simp [decodeContent,hn]
    | int hk hr => simp [decodeContent,hk,typeTag,canRead_iff.mpr hr]
    | varchar hk hr hm =>
      simp [decodeContent,hk,typeTag,canRead_iff.mpr hr,any_lt_eq_false.mpr hm]

/-- What is read is the encoding of the value. -/
theorem Reads.encodes {record : List UInt8} {c : Column} {offset length last : ℕ} {tag : UInt8}
    {v : Value} (h : Reads record c offset tag length v last) (hb : length < 4294967296)
    (hr : offset ≤ record.length) :
    ∃ content, Encodes c v (tag::storeLE 4 length ++ content) ∧
      record.drop offset = content ++ record.drop last ∧ last = offset + content.length ∧
      last ≤ record.length := by
  cases h with
  | null hn => exact ⟨[],.null hn,rfl,rfl,hr⟩
  | int hk h8 =>
    refine ⟨storeLE 8 (loadAt 8 record offset),?_,drop_eq_storeLE h8,by simp,h8⟩
    have h := Encodes.int (UInt64.ofNat (loadAt 8 record offset)).toInt64 hk
    rwa [toNat_ofNat_load] at h
  | varchar hk hl hm =>
    have hlen : ((record.drop offset).take length).length = length := by
      rw [List.length_take,List.length_drop]
      omega
    refine ⟨(record.drop offset).take length,?_,?_,by rw [hlen],hl⟩
    · have h := Encodes.varchar ((record.drop offset).take length) hk
      rw [hlen] at h
      exact h hm hb
    · rw [← List.drop_drop,List.take_append_drop]

/-- A field that is accepted is the encoding of its value. -/
theorem encodes_of_decodeField {record : List UInt8} {i offset last : ℕ} {c : Column} {v : Value}
    (hc : c.type ≠ .null) (h : decodeField record i offset c = .ok (v,last)) :
    ∃ bytes, Encodes c v bytes ∧ record.drop offset = bytes ++ record.drop last ∧
      last = offset + bytes.length ∧ last ≤ record.length := by
  cases hr : canRead record offset kFieldHeaderSize with
  | false => simp [decodeField,hr,fail] at h
  | true =>
    simp only [decodeField,hr,Bool.not_true,Bool.false_eq_true,if_false] at h
    have hr := canRead_iff.mp hr
    obtain ⟨content,he,hd,hl,hle⟩ :=
      ((decodeContent_eq_ok hc).mp h).encodes (loadAt_lt 4 (offset + 1) record) hr
    refine ⟨_,he,?_,?_,hle⟩
    · rw [drop_eq_header hr,hd,List.append_assoc]
    · rw [hl]
      simp [kFieldHeaderSize]
      omega

/-- An encoding is a field header and a content that is read as the value. -/
theorem Encodes.reads {c : Column} {v : Value} {bytes : List UInt8} (h : Encodes c v bytes) :
    ∃ tag length content, bytes = tag::storeLE 4 length ++ content ∧ length < 4294967296 ∧
      ∀ record offset rest, offset ≤ record.length → record.drop offset = content ++ rest →
        Reads record c offset tag length v (offset + content.length) := by
  cases h with
  | null hn => exact ⟨0,0,[],rfl,by decide,fun record offset rest _ _ => .null hn⟩
  | int n hk =>
    refine ⟨1,8,_,rfl,by decide,fun record offset rest ho hd => ?_⟩
    have hl : record.length - offset = 8 + rest.length := by
      rw [← List.length_drop,hd,List.length_append,length_storeLE]
    have hn : loadAt 8 record offset = n.toUInt64.toNat := by
      have hz := loadAt_storeLE 8 n.toUInt64.toNat rest
      rw [← hd,loadAt,List.drop_zero] at hz
      rw [loadAt,hz]
      exact Nat.mod_eq_of_lt n.toUInt64.toNat_lt
    have hfield : offset + 8 ≤ record.length := by omega
    have hr := Reads.int hk hfield
    rw [hn,UInt64.ofNat_toNat,Int64.toInt64_toUInt64] at hr
    rwa [length_storeLE]
  | varchar text hk hm hb =>
    refine ⟨2,text.length,text,rfl,hb,fun record offset rest ho hd => ?_⟩
    have hl : record.length - offset = text.length + rest.length := by
      rw [← List.length_drop,hd,List.length_append]
    have hfield : offset + text.length ≤ record.length := by omega
    have hr := Reads.varchar hk hfield hm
    rwa [hd,List.take_left' rfl] at hr

theorem storeLE_four_inj {m n : ℕ} (hm : m < 4294967296) (hn : n < 4294967296)
    (h : storeLE 4 m = storeLE 4 n) : m = n := by
  have he := congrArg loadLE h
  rw [loadLE_storeLE,loadLE_storeLE] at he
  omega

/-- An encoded field is accepted wherever it lies. -/
theorem decodeField_of_encodes {record rest : List UInt8} {i offset : ℕ} {c : Column} {v : Value}
    {bytes : List UInt8} (hc : c.type ≠ .null) (he : Encodes c v bytes)
    (h : record.drop offset = bytes ++ rest) :
    decodeField record i offset c = .ok (v,offset + bytes.length) := by
  have hlen : record.length - offset = bytes.length + rest.length := by
    rw [← List.length_drop,h,List.length_append]
  have hfive := he.five_le
  have hr : canRead record offset kFieldHeaderSize = true := by
    apply canRead_iff.mpr
    simp only [kFieldHeaderSize] at hfive ⊢
    omega
  obtain ⟨tag,length,content,rfl,hb,hreads⟩ := he.reads
  -- the header the decoder meets is the one that was written
  have hhead := drop_eq_header (canRead_iff.mp hr)
  rw [h,List.append_assoc,List.cons_append,List.cons_append,List.cons.injEq] at hhead
  obtain ⟨ht,hhead⟩ := hhead
  obtain ⟨hl,hd⟩ := List.append_inj hhead (by simp)
  have hl := storeLE_four_inj hb (loadAt_lt 4 (offset + 1) record) hl
  simp only [decodeField,hr,Bool.not_true,Bool.false_eq_true,if_false,← ht,← hl]
  apply (decodeContent_eq_ok hc).mpr
  have hv := hreads record (offset + kFieldHeaderSize) rest (canRead_iff.mp hr) hd.symm
  have hs : offset + (tag::storeLE 4 length ++ content).length =
      offset + kFieldHeaderSize + content.length := by
    simp [kFieldHeaderSize]
    omega
  rwa [hs]

theorem decodeFields_of_encodes {schema : Schema} (hp : Proper schema) :
    ∀ {record rest : List UInt8} {i j offset : ℕ} {row : Row} {bytes : List UInt8},
      encodeFields j schema row = .ok bytes → row.length = schema.length →
      record.drop offset = bytes ++ rest →
      decodeFields record i offset schema = .ok (row,offset + bytes.length) := by
  induction schema with
  | nil =>
    intro record rest i j offset row bytes h hl hd
    obtain rfl := List.length_eq_zero_iff.mp hl
    obtain rfl : [] = bytes := by simpa [encodeFields] using h
    rfl
  | cons c cs ih =>
    intro record rest i j offset row bytes h hl hd
    cases row with
    | nil => simp at hl
    | cons v vs =>
      cases hf : encodeField j c v with
      | error e => simp [encodeFields,hf] at h
      | ok field =>
        cases hs : encodeFields (j + 1) cs vs with
        | error e => simp [encodeFields,hf,hs] at h
        | ok fields =>
          obtain rfl : field ++ fields = bytes := by simpa [encodeFields,hf,hs] using h
          rw [List.append_assoc] at hd
          have hfield := decodeField_of_encodes (i := i) (hp c (by simp))
            (encodeField_eq_ok.mp hf) hd
          have hrest : record.drop (offset + field.length) = fields ++ rest := by
            rw [← List.drop_drop,hd,List.drop_left' rfl]
          have ih := ih (fun d hd => hp d (by simp [hd])) (i := i + 1) hs (by simpa using hl) hrest
          simp only [decodeFields,hfield,ih,List.length_append,Nat.add_assoc]

theorem encodes_of_decodeFields {schema : Schema} (hp : Proper schema) :
    ∀ {record : List UInt8} {i offset last : ℕ} {row : Row} (j : ℕ), offset ≤ record.length →
      decodeFields record i offset schema = .ok (row,last) →
      ∃ bytes, encodeFields j schema row = .ok bytes ∧ row.length = schema.length ∧
        record.drop offset = bytes ++ record.drop last ∧ last = offset + bytes.length ∧
        last ≤ record.length := by
  induction schema with
  | nil =>
    intro record i offset last row j ho h
    obtain ⟨rfl,rfl⟩ : [] = row ∧ offset = last := by simpa [decodeFields] using h
    exact ⟨[],rfl,rfl,rfl,rfl,ho⟩
  | cons c cs ih =>
    intro record i offset last row j ho h
    cases hf : decodeField record i offset c with
    | error e => simp [decodeFields,hf] at h
    | ok p =>
      obtain ⟨v,mid⟩ := p
      cases hs : decodeFields record (i + 1) mid cs with
      | error e => simp [decodeFields,hf,hs] at h
      | ok q =>
        obtain ⟨vs,last'⟩ := q
        obtain ⟨rfl,rfl⟩ : v::vs = row ∧ last' = last := by simpa [decodeFields,hf,hs] using h
        obtain ⟨field,he,hd,hm,hle⟩ := encodes_of_decodeField (hp c (by simp)) hf
        obtain ⟨fields,hfs,hl,hds,hlast,hle'⟩ :=
          ih (fun d hd => hp d (by simp [hd])) (j + 1) hle hs
        refine ⟨field ++ fields,?_,by simp [hl],?_,?_,hle'⟩
        · simp [encodeFields,encodeField_eq_ok.mpr he,hfs]
        · rw [hd,hds,List.append_assoc]
        · rw [hlast,hm,List.length_append,Nat.add_assoc]

@[simp] theorem length_header (n : ℕ) : (header n).length = kRowHeaderSize := by
  simp [header,kRowHeaderSize]

theorem loadAt_magic (n : ℕ) (rest : List UInt8) : loadAt 4 (header n ++ rest) 0 = kRowMagic := by
  rw [header,List.append_assoc,loadAt_storeLE]
  rfl

theorem loadAt_count (n : ℕ) (rest : List UInt8) :
    loadAt 4 (header n ++ rest) 4 = n % 4294967296 := by
  rw [header,List.append_assoc,loadAt_append (by simp),length_storeLE,Nat.sub_self,loadAt_storeLE]
  rfl

theorem encode_eq_ok {schema : Schema} {row : Row} {record : List UInt8} :
    encode schema row = .ok record ↔ row.length = schema.length ∧
      ∃ fields, encodeFields 0 schema row = .ok fields ∧ record = header schema.length ++ fields := by
  rw [encode,ite_fail_eq_ok,not_not]
  cases encodeFields 0 schema row with
  | error e => simp
  | ok fields => simp [eq_comm]

theorem decode_eq_ok {schema : Schema} {row : Row} {record : List UInt8} :
    decode schema record = .ok row ↔ kRowHeaderSize ≤ record.length ∧
      loadAt 4 record 0 = kRowMagic ∧ loadAt 4 record 4 = schema.length ∧
      decodeFields record 0 kRowHeaderSize schema = .ok (row,record.length) := by
  rw [decode,ite_fail_eq_ok,ite_fail_eq_ok,ite_fail_eq_ok,Bool.not_eq_true,Bool.not_eq_false',
    canRead_iff,Nat.zero_add,not_not,not_not]
  cases decodeFields record 0 kRowHeaderSize schema with
  | error e => simp
  | ok p =>
    obtain ⟨row',last⟩ := p
    simp only [ite_fail_eq_ok,not_not,Except.ok.injEq,Prod.mk.injEq]
    tauto

/-- Decoding accepts the encodings of the schemas whose count fits, and nothing else. -/
theorem decode_iff_encode {schema : Schema} (hp : Proper schema) {row : Row}
    {record : List UInt8} :
    decode schema record = .ok row ↔ schema.length < 4294967296 ∧ encode schema row = .ok record := by
  rw [decode_eq_ok,encode_eq_ok]
  constructor
  · rintro ⟨h8,hm,hc,h⟩
    obtain ⟨fields,he,hl,hd,-,-⟩ := encodes_of_decodeFields hp 0 h8 h
    rw [List.drop_length,List.append_nil] at hd
    refine ⟨hc ▸ loadAt_lt 4 4 record,hl,fields,he,?_⟩
    have h0 : record = storeLE 4 (loadAt 4 record 0) ++ record.drop 4 :=
      @drop_eq_storeLE 4 0 record (by simp only [kRowHeaderSize] at h8; omega)
    have h4 : record.drop 4 = storeLE 4 (loadAt 4 record 4) ++ record.drop 8 :=
      drop_eq_storeLE h8
    calc record = storeLE 4 (loadAt 4 record 0) ++ record.drop 4 := h0
      _ = header schema.length ++ fields := by
        rw [h4,hm,hc,← hd,header,List.append_assoc]
        rfl
  · rintro ⟨hb,hl,fields,he,rfl⟩
    refine ⟨by simp,loadAt_magic _ _,?_,?_⟩
    · rw [loadAt_count,Nat.mod_eq_of_lt hb]
    · have hd : (header schema.length ++ fields).drop kRowHeaderSize = fields ++ [] := by
        rw [List.drop_left' (length_header _),List.append_nil]
      rw [decodeFields_of_encodes hp he hl hd,List.length_append,length_header]

/-- Every field takes at least its header. -/
theorem length_encodeFields : ∀ {schema : Schema} {i : ℕ} {row : Row} {bytes : List UInt8},
    encodeFields i schema row = .ok bytes → row.length = schema.length →
    schema.length * kFieldHeaderSize ≤ bytes.length
  | [], _, _, _, _, _ => by simp
  | _::_, _, [], _, _, hl => by simp at hl
  | c::cs, i, v::vs, bytes, h, hl => by
    cases hf : encodeField i c v with
    | error e => simp [encodeFields,hf] at h
    | ok field =>
      cases hs : encodeFields (i + 1) cs vs with
      | error e => simp [encodeFields,hf,hs] at h
      | ok fields =>
        obtain rfl : field ++ fields = bytes := by simpa [encodeFields,hf,hs] using h
        have hrest := length_encodeFields hs (by simpa using hl)
        have hfield := (encodeField_eq_ok.mp hf).five_le
        rw [List.length_cons,List.length_append,Nat.add_mul,Nat.one_mul]
        omega

theorem length_le_of_encode {schema : Schema} {row : Row} {record : List UInt8}
    (h : encode schema row = .ok record) : schema.length ≤ record.length := by
  obtain ⟨hl,fields,hf,rfl⟩ := encode_eq_ok.mp h
  have hfields := length_encodeFields hf hl
  rw [List.length_append]
  simp only [kFieldHeaderSize] at hfields
  omega

/-- No encoding is a proper beginning of another one. -/
theorem encode_prefix_free {schema : Schema} (hp : Proper schema) {row row' : Row}
    {record rest : List UInt8} (h : encode schema row = .ok record)
    (h' : encode schema row' = .ok (record ++ rest)) : rest = [] := by
  obtain ⟨hl,fields,he,rfl⟩ := encode_eq_ok.mp h
  obtain ⟨hl',fields',he',hf⟩ := encode_eq_ok.mp h'
  rw [List.append_assoc,List.append_cancel_left_eq] at hf
  have hread : (fields ++ rest).drop 0 = fields ++ rest := rfl
  have hread' : (fields ++ rest).drop 0 = fields' ++ [] := by
    rw [List.append_nil,List.drop_zero,hf]
  have hd := decodeFields_of_encodes hp (i := 0) he hl hread
  have hd' := decodeFields_of_encodes hp (i := 0) he' hl' hread'
  rw [hd,Except.ok.injEq,Prod.mk.injEq,← hf,List.length_append] at hd'
  exact List.length_eq_zero_iff.mp (by omega)

/-- A field header or content that no encoding has in column `c`. -/
inductive BadField (c : Column) : UInt8 → ℕ → List UInt8 → Prop
  | tag {tag : UInt8} {length : ℕ} {content : List UInt8} : tag ≠ 0 → tag ≠ typeTag c.type →
    BadField c tag length content
  | nullLength {length : ℕ} {content : List UInt8} : length ≠ 0 → BadField c 0 length content
  | notNullable {length : ℕ} {content : List UInt8} : c.nullable = false →
    BadField c 0 length content
  | intLength {tag : UInt8} {length : ℕ} {content : List UInt8} : tag ≠ 0 → c.type = .int →
    length ≠ 8 → BadField c tag length content
  | tooLong {tag : UInt8} {length m : ℕ} {content : List UInt8} : tag ≠ 0 → c.type = .varchar →
    c.length = some m → m < length → BadField c tag length content
  | short {tag : UInt8} {length : ℕ} {content : List UInt8} : tag ≠ 0 → content.length < length →
    BadField c tag length content

/-- The byte strings that must be rejected. A bad field may follow any well-encoded fields. -/
inductive Malformed (schema : Schema) : List UInt8 → Prop
  | truncated {row : Row} {record : List UInt8} {n : ℕ} : encode schema row = .ok record →
    n < record.length → Malformed schema (record.take n)
  | trailing {row : Row} {record rest : List UInt8} : encode schema row = .ok record →
    rest ≠ [] → Malformed schema (record ++ rest)
  | header {record : List UInt8} : record.length < kRowHeaderSize → Malformed schema record
  | magic {record : List UInt8} : loadAt 4 record 0 ≠ kRowMagic → Malformed schema record
  | columnCount {record : List UInt8} : loadAt 4 record 4 ≠ schema.length →
    Malformed schema record
  | field {before after : Schema} {c : Column} {row : Row} {front fields content : List UInt8}
    {tag : UInt8} {length : ℕ} : schema = before ++ c::after → row.length = before.length →
    encodeFields 0 before row = .ok fields → front.length = kRowHeaderSize →
    length < 4294967296 → BadField c tag length content →
    Malformed schema (front ++ fields ++ tag::storeLE 4 length ++ content)
  | shortHeader {before after : Schema} {c : Column} {row : Row} {front fields rest : List UInt8} :
    schema = before ++ c::after → row.length = before.length →
    encodeFields 0 before row = .ok fields → front.length = kRowHeaderSize →
    rest.length < kFieldHeaderSize → Malformed schema (front ++ fields ++ rest)

theorem Encodes.not_badField {c : Column} {v : Value} {tag : UInt8}
    {length : ℕ} {bytes content rest : List UInt8} (he : Encodes c v bytes)
    (hb : length < 4294967296) (h : tag::storeLE 4 length ++ content = bytes ++ rest) :
    ¬ BadField c tag length content := by
  have split : ∀ {t : UInt8} {n : ℕ} {text : List UInt8}, n < 4294967296 →
      tag::storeLE 4 length ++ content = t::storeLE 4 n ++ text ++ rest →
      tag = t ∧ length = n ∧ content = text ++ rest := by
    intro t n text hn h
    rw [List.append_assoc,List.cons_append,List.cons_append,List.cons.injEq] at h
    obtain ⟨hl,ht⟩ := List.append_inj h.2 (by simp)
    exact ⟨h.1,storeLE_four_inj hb hn hl,ht⟩
  intro hbad
  cases he with
  | null hn =>
    obtain ⟨rfl,rfl,-⟩ := @split _ 0 [] (by decide) (by simpa using h)
    cases hbad with
    | nullLength h0 => exact h0 rfl
    | notNullable hf => simp [hf] at hn
    | tag h0 | intLength h0 | tooLong h0 | short h0 => exact h0 rfl
  | int n hk =>
    obtain ⟨rfl,rfl,rfl⟩ := split (by decide) h
    cases hbad with
    | tag _ ht => exact ht (by simp [typeTag,hk])
    | intLength _ _ hl => exact hl rfl
    | tooLong _ hv => simp [hk] at hv
    | short _ hs => simp at hs
  | varchar text hk hm hn =>
    obtain ⟨rfl,rfl,rfl⟩ := split hn h
    cases hbad with
    | tag _ ht => exact ht (by simp [typeTag,hk])
    | intLength _ hi => simp [hk] at hi
    | tooLong _ _ hl hlt => exact absurd (hm _ hl) (by omega)
    | short _ hs => simp at hs

/-- A decoder that accepts has read the next field right after well-encoded ones. -/
theorem next_of_decodeFields {before after : Schema} {c : Column} (hp : Proper (before ++ c::after)) :
    ∀ {record rest : List UInt8} {i j offset last : ℕ} {row row' : Row} {fields : List UInt8},
      offset ≤ record.length → encodeFields j before row = .ok fields →
      row.length = before.length → record.drop offset = fields ++ rest →
      decodeFields record i offset (before ++ c::after) = .ok (row',last) →
      ∃ v bytes rest', Encodes c v bytes ∧ rest = bytes ++ rest' := by
  induction before with
  | nil =>
    intro record rest i j offset last row row' fields ho h hl hd hok
    obtain rfl := List.length_eq_zero_iff.mp hl
    obtain rfl : [] = fields := by simpa [encodeFields] using h
    cases hf : decodeField record i offset c with
    | error e => simp [decodeFields,hf] at hok
    | ok p =>
      obtain ⟨v,last'⟩ := p
      obtain ⟨bytes,he,hb,-,-⟩ := encodes_of_decodeField (hp c (by simp)) hf
      exact ⟨v,bytes,record.drop last',he,by rw [← hb,hd,List.nil_append]⟩
  | cons d ds ih =>
    intro record rest i j offset last row row' fields ho h hl hd hok
    cases row with
    | nil => simp at hl
    | cons v vs =>
      cases hf : encodeField j d v with
      | error e => simp [encodeFields,hf] at h
      | ok field =>
        cases hs : encodeFields (j + 1) ds vs with
        | error e => simp [encodeFields,hf,hs] at h
        | ok fields' =>
          obtain rfl : field ++ fields' = fields := by simpa [encodeFields,hf,hs] using h
          rw [List.append_assoc] at hd
          have hfield := decodeField_of_encodes (i := i) (hp d (by simp))
            (encodeField_eq_ok.mp hf) hd
          have hrest : record.drop (offset + field.length) = fields' ++ rest := by
            rw [← List.drop_drop,hd,List.drop_left' rfl]
          have hlen : record.length - offset = field.length + (fields' ++ rest).length := by
            rw [← List.length_drop,hd,List.length_append]
          cases hk : decodeFields record (i + 1) (offset + field.length) (ds ++ c::after) with
          | error e => simp [decodeFields,hfield,hk] at hok
          | ok q =>
            obtain ⟨row₁,last₁⟩ := q
            exact ih (fun e he => hp e (by simp at he ⊢; tauto)) (by omega) hs (by simpa using hl)
              hrest hk

theorem Malformed.rejected {schema : Schema} (hp : Proper schema) {record : List UInt8}
    (h : Malformed schema record) : ∃ e, decode schema record = .error e := by
  cases hd : decode schema record with
  | error e => exact ⟨e,rfl⟩
  | ok row' =>
    exfalso
    have h8 := decode_eq_ok.mp hd
    have he := ((decode_iff_encode hp).mp hd).2
    cases h with
    | @truncated row record n hr hn =>
      rw [← List.take_append_drop n record] at hr
      have hz := congrArg List.length (encode_prefix_free hp he hr)
      rw [List.length_drop,List.length_nil] at hz
      omega
    | trailing hr hne => exact hne (encode_prefix_free hp hr he)
    | header hs => omega
    | magic hm => exact hm h8.2.1
    | columnCount hc => exact hc h8.2.2.1
    | @field before after c row front fields content tag length hs hl hf hfront hb hbad =>
      subst hs
      have hdrop : (front ++ fields ++ tag::storeLE 4 length ++ content).drop kRowHeaderSize =
          fields ++ (tag::storeLE 4 length ++ content) := by
        rw [List.append_assoc,List.append_assoc,List.drop_left' hfront]
      obtain ⟨v,bytes,rest',hv,hrest⟩ := next_of_decodeFields hp h8.1 hf hl hdrop h8.2.2.2
      exact hv.not_badField hb hrest hbad
    | @shortHeader before after c row front fields rest hs hl hf hfront hshort =>
      subst hs
      have hdrop : (front ++ fields ++ rest).drop kRowHeaderSize = fields ++ rest := by
        rw [List.append_assoc,List.drop_left' hfront]
      obtain ⟨v,bytes,rest',hv,rfl⟩ := next_of_decodeFields hp h8.1 hf hl hdrop h8.2.2.2
      have := hv.five_le
      rw [List.length_append] at hshort
      omega

/-- Row encoding and decoding undo each other, and nothing malformed is accepted. -/
structure Bijective (schema : Schema) : Prop where
  decode_encode : ∀ row record, encode schema row = .ok record → decode schema record = .ok row
  encode_decode : ∀ record row, decode schema record = .ok row → encode schema row = .ok record
  rejects : ∀ record, Malformed schema record → ∃ e, decode schema record = .error e

/-- The row of zeros and empty strings is accepted by every schema. -/
theorem encode_accepts {schema : Schema} (hp : Proper schema) :
    ∃ row record, encode schema row = .ok record := by
  have h : ∃ row fields, row.length = schema.length ∧ encodeFields 0 schema row = .ok fields := by
    generalize 0 = j
    induction schema generalizing j with
    | nil => exact ⟨[],[],rfl,rfl⟩
    | cons c cs ih =>
      obtain ⟨row,fields,hl,hf⟩ := ih (fun d hd => hp d (by simp [hd])) (j + 1)
      have hc : ∃ v bytes, Encodes c v bytes := by
        cases hk : c.type with
        | int => exact ⟨_,_,.int 0 hk⟩
        | varchar => exact ⟨_,_,.varchar [] hk (by simp) (by simp)⟩
        | null => exact absurd hk (hp c (by simp))
      obtain ⟨v,bytes,hv⟩ := hc
      exact ⟨v::row,bytes ++ fields,by simp [hl],
        by simp [encodeFields,encodeField_eq_ok.mpr hv,hf]⟩
  obtain ⟨row,fields,hl,hf⟩ := h
  exact ⟨row,_,encode_eq_ok.mpr ⟨hl,fields,hf,rfl⟩⟩

/-- The codec is a bijection exactly for the schemas whose column count fits four bytes. -/
theorem bijective_iff {schema : Schema} (hp : Proper schema) :
    Bijective schema ↔ schema.length < 4294967296 := by
  constructor
  · intro h
    obtain ⟨row,record,he⟩ := encode_accepts hp
    exact ((decode_iff_encode hp).mp (h.decode_encode row record he)).1
  · intro hb
    exact ⟨fun row record he => (decode_iff_encode hp).mpr ⟨hb,he⟩,
      fun record row hd => ((decode_iff_encode hp).mp hd).2,fun record hm => hm.rejected hp⟩

theorem bijective_iff_two :
    Bijective [⟨"id",.int,none,false⟩,⟨"name",.varchar,some 8,true⟩] ↔ 2 < 4294967296 :=
  bijective_iff (by simp [Proper])

/-- A schema of 2 ^ 32 nullable columns: the count is written as zero. -/
theorem not_bijective_tooWide :
    ¬ Bijective (List.replicate 4294967296 ⟨"c",.int,none,true⟩) := by
  intro h
  have hp : Proper (List.replicate 4294967296 ⟨"c",.int,none,true⟩) := by
    intro c hc
    rw [List.eq_of_mem_replicate hc]
    decide
  obtain ⟨row,record,he⟩ := encode_accepts hp
  have hb := ((decode_iff_encode hp).mp (h.decode_encode row record he)).1
  rw [List.length_replicate] at hb
  exact absurd hb (by decide)

end Data.RowCodec
end OurSql
