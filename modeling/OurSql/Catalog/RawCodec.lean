import OurSql.Catalog.Codec
import OurSql.Data.Value
import OurSql.Lib.Items

/-! The catalog records of any names: a `std::string` is the list of its bytes, text
or not, and an integer has the 64 bits of `std::int64_t`. -/
namespace OurSql
namespace Catalog
namespace Raw

open Bytes Codec Items

/-- A failed `Status`, its message in bytes. -/
structure Fault where
  code : ErrorCode
  message : List UInt8
  deriving DecidableEq, Repr

abbrev Answer (α : Type) := Except Fault α

def refuse {α : Type} (code : ErrorCode) (message : String) (name : List UInt8) : Answer α :=
  .error ⟨code,textBytes message ++ name⟩

structure Column where
  name : List UInt8
  type : Data.DataType
  length : Option ℕ
  nullable : Bool
  primaryKey : Bool
  unique : Bool
  defaultValue : Option Data.Value
  deriving DecidableEq, Repr

/-- The constructor makes a primary key unique. -/
def column (name : List UInt8) (type : Data.DataType) (length : Option ℕ)
    (nullable primaryKey unique : Bool) (defaultValue : Option Data.Value) : Column :=
  ⟨name,type,length,nullable,primaryKey,unique || primaryKey,defaultValue⟩

structure TableMetadata where
  name : List UInt8
  schema : List Column
  firstDataPageId : UInt32
  deriving DecidableEq, Repr

structure IndexMetadata where
  name : List UInt8
  tableName : List UInt8
  columnName : List UInt8
  rootPageId : UInt32
  isUnique : Bool
  deriving DecidableEq, Repr

/-- The checks `ValidateTable` makes of one column, after those of its name. -/
def validateColumn (c : Column) : Answer Unit :=
  if c.type = .int ∧ c.length.isSome then
    refuse .invalidArgument "INT 列不能设置长度: " c.name
  else if c.type = .varchar ∧ c.length = some 0 then
    refuse .invalidArgument "VARCHAR 长度必须大于 0: " c.name
  else if c.primaryKey ∧ (c.nullable ∨ !c.unique) then
    refuse .invalidArgument "PRIMARY KEY 必须是 NOT NULL UNIQUE: " c.name
  else match c.defaultValue with
    | none => .ok ()
    | some v =>
      if v = .null ∧ !c.nullable then
        refuse .invalidArgument "NOT NULL 列不能使用 NULL DEFAULT: " c.name
      else if v ≠ .null ∧ v.type ≠ c.type then
        refuse .typeMismatch "DEFAULT 类型不匹配: " c.name
      else match v, c.length with
        | .varchar text, some n =>
          if n < text.length then
            refuse .invalidArgument "DEFAULT 字符串超过列长度: " c.name
          else .ok ()
        | _, _ => .ok ()

/-- The columns in order, with the names met so far. -/
def validateColumns (names : List (List UInt8)) : List Column → Answer Unit
  | [] => .ok ()
  | c::cs =>
    if c.name = [] then refuse .invalidArgument "列名不能为空" []
    else if c.name ∈ names then refuse .alreadyExists "重复列名: " c.name
    else match validateColumn c with
      | .error e => .error e
      | .ok () => validateColumns (c.name::names) cs

def validateTable (t : TableMetadata) : Answer Unit :=
  if t.name = [] then refuse .invalidArgument "表名不能为空" []
  else if t.schema = [] then refuse .invalidArgument "表结构不能为空" []
  else validateColumns [] t.schema

def validateIndexShape (i : IndexMetadata) : Answer Unit :=
  if i.name = [] then refuse .invalidArgument "索引名不能为空" []
  else if i.tableName = [] then refuse .invalidArgument "索引所属表不能为空" []
  else if i.columnName = [] then refuse .invalidArgument "索引列不能为空" []
  else if i.rootPageId = 0 then refuse .invalidArgument "索引根页面编号不能是superblock" []
  else .ok ()

/-! ### Encoding -/

def typeTag (type : Data.DataType) : UInt8 := if type = .int then 1 else 2

def flags (c : Column) : UInt8 :=
  (if c.nullable then 1 else 0) + (if c.primaryKey then 2 else 0) + (if c.unique then 4 else 0)

def defaultTag : Option Data.Value → UInt8
  | none => 0
  | some .null => 1
  | some (.int _) => 2
  | some (.varchar _) => 3

def defaultBytes : Option Data.Value → List UInt8
  | some (.int n) => storeLE 8 n.toUInt64.toNat
  | some (.varchar text) => text
  | _ => []

def columnBytes (c : Column) : List UInt8 :=
  storeLE 4 c.name.length ++ (typeTag c.type::(storeLE 4 (c.length.getD 0) ++
    (flags c::defaultTag c.defaultValue::(storeLE 4 (defaultBytes c.defaultValue).length ++
      (c.name ++ defaultBytes c.defaultValue)))))

def tableBytes (t : TableMetadata) : List UInt8 :=
  storeLE 4 kCatalogRecordMagicV2 ++ (storeLE 4 t.firstDataPageId.toNat ++
    (storeLE 4 t.name.length ++ (storeLE 4 t.schema.length ++
      (t.name ++ t.schema.flatMap columnBytes))))

def indexBytes (i : IndexMetadata) : List UInt8 :=
  storeLE 4 kIndexRecordMagic ++ (storeLE 4 i.rootPageId.toNat ++
    (storeLE 4 (if i.isUnique then 1 else 0) ++ (storeLE 4 i.name.length ++
      (storeLE 4 i.tableName.length ++ (storeLE 4 i.columnName.length ++
        (i.name ++ (i.tableName ++ i.columnName)))))))

/-- The lengths of a column that must fit 32 bits. -/
def checkColumn (c : Column) : Answer Unit :=
  if maxU32 < c.name.length then refuse .invalidArgument "Catalog 列名长度超过上限" []
  else if maxU32 < c.length.getD 0 then
    refuse .invalidArgument "Catalog VARCHAR 长度超过上限: " c.name
  else if maxU32 < (defaultBytes c.defaultValue).length then
    refuse .invalidArgument "Catalog 默认字符串过长: " c.name
  else .ok ()

def checkColumns : List Column → Answer Unit
  | [] => .ok ()
  | c::cs =>
    match checkColumn c with
    | .error e => .error e
    | .ok () => checkColumns cs

def encodeTable (t : TableMetadata) : Answer (List UInt8) :=
  if maxU32 < t.name.length ∨ maxU32 < t.schema.length then
    refuse .invalidArgument "Catalog 表元数据长度超过上限" []
  else match checkColumns t.schema with
    | .error e => .error e
    | .ok () =>
      if maxRecordSize < (tableBytes t).length then
        refuse .recordTooLarge ("Catalog 表元数据超过页面上限: " ++ toString maxRecordSize) []
      else .ok (tableBytes t)

def encodeIndex (i : IndexMetadata) : Answer (List UInt8) :=
  match validateIndexShape i with
  | .error e => .error e
  | .ok () =>
    if maxU32 < i.name.length ∨ maxU32 < i.tableName.length ∨ maxU32 < i.columnName.length then
      refuse .invalidArgument "Catalog 索引名称长度超过上限" []
    else if maxRecordSize < (indexBytes i).length then
      refuse .recordTooLarge ("Catalog 索引元数据超过页面上限: " ++ toString maxRecordSize) []
    else .ok (indexBytes i)

/-! ### Decoding: `offset` is what has been dropped of the record -/

/-- A string of `n` bytes and what follows it. -/
def takeBytes (bytes : List UInt8) (n : ℕ) (message : String) :
    Answer (List UInt8 × List UInt8) :=
  if bytes.length < n then refuse .invalidArgument message []
  else .ok (bytes.take n,bytes.drop n)

def decodeDefault (tag : UInt8) (n : ℕ) (bytes : List UInt8) :
    Answer (Option Data.Value × List UInt8) :=
  if tag = 0 then .ok (none,bytes)
  else if bytes.length < n then refuse .invalidArgument "Catalog 列默认值越界" []
  else if tag = 1 then
    if n ≠ 0 then refuse .invalidArgument "Catalog NULL 默认值长度非法" []
    else .ok (some .null,bytes)
  else if tag = 2 then
    if n ≠ 8 then refuse .invalidArgument "Catalog INT 默认值长度非法" []
    else .ok (some (.int (UInt64.ofNat (loadAt 8 bytes 0)).toInt64),bytes.drop 8)
  else .ok (some (.varchar (bytes.take n)),bytes.drop n)

/-- The type tag last: it says which length and which default a column may have. -/
def decodeType (tag flags : UInt8) (n : ℕ) (name : List UInt8) (value : Option Data.Value) :
    Answer Column :=
  if tag = 1 then
    if n ≠ 0 then refuse .invalidArgument "Catalog INT 列带有长度" []
    else if value.any fun v => v ≠ .null ∧ v.type ≠ .int then
      refuse .typeMismatch "Catalog INT 列默认值类型错误" []
    else .ok (column name .int none (flags &&& 1 ≠ 0) (flags &&& 2 ≠ 0) (flags &&& 4 ≠ 0) value)
  else if tag = 2 then
    if value.any fun v => v ≠ .null ∧ v.type ≠ .varchar then
      refuse .typeMismatch "Catalog VARCHAR 列默认值类型错误" []
    else .ok (column name .varchar (if n = 0 then none else some n) (flags &&& 1 ≠ 0)
      (flags &&& 2 ≠ 0) (flags &&& 4 ≠ 0) value)
  else refuse .invalidArgument "Catalog 列类型标记非法" []

def decodeColumn (v2 : Bool) (bytes : List UInt8) : Answer (Column × List UInt8) :=
  let size := if v2 then 15 else 9
  if bytes.length < size then refuse .invalidArgument "Catalog 列定义头越界" []
  else
    let flags := if v2 then bytes.getD 9 0 else 1
    let tag := if v2 then bytes.getD 10 0 else 0
    let n := if v2 then loadAt 4 bytes 11 else 0
    if 7 < flags ∨ 3 < tag then
      refuse .invalidArgument "Catalog 列约束或默认值标记非法" []
    else match takeBytes (bytes.drop size) (loadAt 4 bytes 0) "Catalog 列名越界" with
      | .error e => .error e
      | .ok (name,rest) =>
        match decodeDefault tag n rest with
        | .error e => .error e
        | .ok (value,rest) =>
          match decodeType (bytes.getD 4 0) flags (loadAt 4 bytes 5) name value with
          | .error e => .error e
          | .ok c => .ok (c,rest)

def decodeTable (bytes : List UInt8) : Answer TableMetadata :=
  if bytes.length < 16 ∨ !isTableMagic bytes then
    refuse .invalidArgument "Catalog 表记录头损坏" []
  else
    let v2 : Bool := loadAt 4 bytes 0 = kCatalogRecordMagicV2
    let page := UInt32.ofNat (loadAt 4 bytes 4)
    if page = 0 ∨ page.toNat = invalidPageId then
      refuse .invalidArgument "Catalog 首数据页编号非法" []
    else match takeBytes (bytes.drop 16) (loadAt 4 bytes 8) "Catalog 表名越界" with
      | .error e => .error e
      | .ok (name,rest) =>
        match readMany (decodeColumn v2) (loadAt 4 bytes 12) rest with
        | .error e => .error e
        | .ok (columns,rest) =>
          if rest ≠ [] then refuse .invalidArgument "Catalog 表记录有多余数据" []
          else match validateTable ⟨name,columns,page⟩ with
            | .error e => .error e
            | .ok () => .ok ⟨name,columns,page⟩

def decodeIndex (bytes : List UInt8) : Answer IndexMetadata :=
  if bytes.length < 24 ∨ !isIndexMagic bytes then
    refuse .invalidArgument "Catalog 索引记录头损坏" []
  else
    let unique := loadAt 4 bytes 8
    if 1 < unique then refuse .invalidArgument "Catalog 索引唯一标记非法" []
    else match takeBytes (bytes.drop 24) (loadAt 4 bytes 12) "Catalog 索引名越界" with
      | .error e => .error e
      | .ok (name,rest) =>
        match takeBytes rest (loadAt 4 bytes 16) "Catalog 索引表名越界" with
        | .error e => .error e
        | .ok (table,rest) =>
          match takeBytes rest (loadAt 4 bytes 20) "Catalog 索引列名越界" with
          | .error e => .error e
          | .ok (col,rest) =>
            if rest ≠ [] then refuse .invalidArgument "Catalog 索引记录有多余数据" []
            else
              let i : IndexMetadata :=
                ⟨name,table,col,UInt32.ofNat (loadAt 4 bytes 4),unique = 1⟩
              match validateIndexShape i with
              | .error e => .error e
              | .ok () => .ok i

/-! ### What the checks promise -/

theorem refuse_ne {α : Type} {code : ErrorCode} {message : String} {name : List UInt8} {a : α} :
    refuse code message name ≠ .ok a := by simp [refuse]

/-- A check that refuses is no success. -/
theorem ite_refuse_ok {α : Type} {p : Prop} [Decidable p] {code : ErrorCode} {message : String}
    {name : List UInt8} {r : Answer α} {a : α} :
    (if p then refuse code message name else r) = .ok a ↔ ¬ p ∧ r = .ok a := by
  by_cases h : p <;> simp [h,refuse]

/-- What `ValidateTable` promises of an INT or a VARCHAR column. -/
structure Sound (c : Column) : Prop where
  proper : c.type ≠ .null
  int : c.type = .int → c.length = none
  positive : c.length ≠ some 0
  primary : c.primaryKey = true → c.unique = true
  typed : ∀ v, c.defaultValue = some v → v = .null ∨ v.type = c.type

theorem validateColumn_sound {c : Column} (h : validateColumn c = .ok ()) (ht : c.type ≠ .null) :
    Sound c := by
  obtain ⟨name,type,length,nullable,primaryKey,unique,value⟩ := c
  simp only [validateColumn,ite_refuse_ok] at h
  obtain ⟨hint,hzero,hpk,hv⟩ := h
  have hlen : type = .int → length = none := by
    intro hi
    simpa [hi] using hint
  refine ⟨ht,hlen,?_,?_,?_⟩
  · rintro rfl
    cases type with
    | int => exact absurd (hlen rfl) (by simp)
    | varchar => exact hzero ⟨rfl,rfl⟩
    | null => exact ht rfl
  · intro hp
    by_contra hu
    exact hpk ⟨hp,.inr (by simpa using hu)⟩
  · rintro v rfl
    simp only [ite_refuse_ok] at hv
    by_contra hne
    obtain ⟨hnull,htype⟩ := not_or.mp hne
    exact hv.2.1 ⟨hnull,htype⟩

theorem validateColumns_ok {names : List (List UInt8)} {cs : List Column}
    (h : validateColumns names cs = .ok ()) : ∀ c ∈ cs, validateColumn c = .ok () := by
  induction cs generalizing names with
  | nil => simp
  | cons c cs ih =>
    simp only [validateColumns,ite_refuse_ok] at h
    obtain ⟨-,-,h⟩ := h
    cases hc : validateColumn c with
    | error e => simp [hc] at h
    | ok u =>
      rw [hc] at h
      intro d hd
      rcases List.mem_cons.mp hd with rfl | hd
      · exact hc
      · exact ih h d hd

theorem validateTable_ok {t : TableMetadata} (h : validateTable t = .ok ()) :
    ∀ c ∈ t.schema, validateColumn c = .ok () := by
  simp only [validateTable,ite_refuse_ok] at h
  exact validateColumns_ok h.2.2

theorem checkColumn_ok {c : Column} : checkColumn c = .ok () ↔ c.name.length ≤ maxU32 ∧
    c.length.getD 0 ≤ maxU32 ∧ (defaultBytes c.defaultValue).length ≤ maxU32 := by
  simp only [checkColumn,ite_refuse_ok,not_lt,and_true]

theorem checkColumns_ok {cs : List Column} :
    checkColumns cs = .ok () ↔ ∀ c ∈ cs, checkColumn c = .ok () := by
  induction cs with
  | nil => simp [checkColumns]
  | cons c cs ih =>
    simp only [checkColumns,List.forall_mem_cons]
    cases hc : checkColumn c with
    | error e => simp
    | ok u => simp [ih]

/-! ### Columns -/

theorem takeBytes_append (text rest : List UInt8) (message : String) :
    takeBytes (text ++ rest) text.length message = .ok (text,rest) := by
  rw [takeBytes,if_neg (by simp),List.take_left,List.drop_left]

theorem decodeDefault_bytes (v : Option Data.Value) (rest : List UInt8) :
    decodeDefault (defaultTag v) (defaultBytes v).length (defaultBytes v ++ rest) =
      .ok (v,rest) := by
  have hl : ¬ (defaultBytes v ++ rest).length < (defaultBytes v).length := by simp
  rcases v with _ | _ | n | text
  · rfl
  · rfl
  · have hn : loadAt 8 (storeLE 8 n.toUInt64.toNat ++ rest) 0 = n.toUInt64.toNat := by
      rw [loadAt_storeLE]
      exact Nat.mod_eq_of_lt n.toUInt64.toNat_lt
    have ht : defaultTag (some (.int n)) = 2 := rfl
    rw [decodeDefault,if_neg hl,ht,if_neg (by decide),if_neg (by decide),if_pos rfl]
    simp only [defaultBytes,length_storeLE,ne_eq,not_true,if_false]
    rw [hn,UInt64.ofNat_toNat,Int64.toInt64_toUInt64,List.drop_left' (length_storeLE 8 _)]
  · have ht : defaultTag (some (.varchar text)) = 3 := rfl
    rw [decodeDefault,if_neg hl,ht,if_neg (by decide),if_neg (by decide),if_neg (by decide)]
    simp only [defaultBytes,List.take_left,List.drop_left]

/-- The flags give the constructor what it was given before. -/
theorem column_flags {c : Column} (h : c.primaryKey = true → c.unique = true)
    (type : Data.DataType) (length : Option ℕ) :
    column c.name type length (flags c &&& 1 ≠ 0) (flags c &&& 2 ≠ 0) (flags c &&& 4 ≠ 0)
      c.defaultValue = { c with type := type,length := length } := by
  have hbits : ∀ nullable primaryKey unique : Bool, (primaryKey = true → unique = true) →
      let f : UInt8 := (if nullable then 1 else 0) + (if primaryKey then 2 else 0) +
        (if unique then 4 else 0)
      decide (f &&& 1 ≠ 0) = nullable ∧ decide (f &&& 2 ≠ 0) = primaryKey ∧
        (decide (f &&& 4 ≠ 0) || decide (f &&& 2 ≠ 0)) = unique := by decide
  obtain ⟨hn,hp,hu⟩ := hbits c.nullable c.primaryKey c.unique h
  rw [column,Column.mk.injEq]
  exact ⟨rfl,rfl,rfl,hn,hp,hu,rfl⟩

/-- The tag of a type gives back the column that was checked. -/
theorem decodeType_tag {c : Column} (h : Sound c) :
    decodeType (typeTag c.type) (flags c) (c.length.getD 0) c.name c.defaultValue = .ok c := by
  have hany : ¬ (c.defaultValue.any fun v => v ≠ .null ∧ v.type ≠ c.type) = true := by
    cases hv : c.defaultValue with
    | none => simp
    | some v =>
      rcases h.typed v hv with rfl | hv
      · simp
      · simp [hv]
  cases ht : c.type with
  | null => exact absurd ht h.proper
  | int =>
    have hlen := h.int ht
    rw [ht] at hany
    rw [decodeType,typeTag,if_pos rfl,if_pos rfl,hlen]
    simp only [Option.getD_none,ne_eq,not_true,if_false,if_neg hany]
    rw [column_flags h.primary,← ht,← hlen]
  | varchar =>
    rw [ht] at hany
    have hlen : (if c.length.getD 0 = 0 then none else some (c.length.getD 0)) = c.length := by
      cases hl : c.length with
      | none => rfl
      | some n => simpa using fun hn : n = 0 => h.positive (hn ▸ hl)
    have htag : typeTag .varchar = 2 := rfl
    rw [decodeType,htag,if_neg (by decide),if_pos rfl,if_neg hany,hlen,column_flags h.primary,← ht]

theorem flags_le (c : Column) : ¬ 7 < flags c := by
  simp only [flags]
  cases c.nullable <;> cases c.primaryKey <;> cases c.unique <;> decide

theorem defaultTag_le (v : Option Data.Value) : ¬ 3 < defaultTag v := by
  rcases v with _ | _ | n | text <;> simp [defaultTag]

theorem columnBytes_length (c : Column) : (columnBytes c).length =
    15 + c.name.length + (defaultBytes c.defaultValue).length := by
  simp only [columnBytes,List.length_append,List.length_cons,length_storeLE]
  omega

theorem decodeColumn_bytes {c : Column} (hs : Sound c) (hc : checkColumn c = .ok ()) :
    Undoes (decodeColumn true) columnBytes c := by
  intro rest
  obtain ⟨hn,hl,hd⟩ := checkColumn_ok.mp hc
  have hsize : ¬ (columnBytes c ++ rest).length < 15 := by
    rw [List.length_append,columnBytes_length]
    omega
  have hform : columnBytes c ++ rest = storeLE 4 c.name.length ++ (typeTag c.type::
      (storeLE 4 (c.length.getD 0) ++ (flags c::defaultTag c.defaultValue::
        (storeLE 4 (defaultBytes c.defaultValue).length ++
          (c.name ++ (defaultBytes c.defaultValue ++ rest)))))) := by
    simp [columnBytes]
  have hhead := columnHeader hn hl hd (typeTag c.type) (flags c) (defaultTag c.defaultValue)
    (c.name ++ (defaultBytes c.defaultValue ++ rest))
  rw [← hform] at hhead
  obtain ⟨h0,h4,h5,h9,h10,h11,h15⟩ := hhead
  have hbad : ¬ (7 < flags c ∨ 3 < defaultTag c.defaultValue) :=
    not_or.mpr ⟨flags_le c,defaultTag_le _⟩
  simp only [decodeColumn,if_true,if_neg hsize,h0,h4,h5,h9,h10,h11,h15,if_neg hbad,
    takeBytes_append,decodeDefault_bytes,decodeType_tag hs]

/-- A decoded column is of type INT or VARCHAR. -/
theorem decodeType_proper {tag flags : UInt8} {n : ℕ} {name : List UInt8}
    {value : Option Data.Value} {c : Column} (h : decodeType tag flags n name value = .ok c) :
    c.type ≠ .null := by
  rw [decodeType] at h
  by_cases h₁ : tag = 1
  · rw [if_pos h₁,ite_refuse_ok,ite_refuse_ok] at h
    obtain rfl := Except.ok.inj h.2.2
    simp [column]
  · rw [if_neg h₁] at h
    by_cases h₂ : tag = 2
    · rw [if_pos h₂,ite_refuse_ok] at h
      obtain rfl := Except.ok.inj h.2
      simp [column]
    · rw [if_neg h₂] at h
      exact absurd h refuse_ne

theorem decodeColumn_proper {v2 : Bool} {bytes rest : List UInt8} {c : Column}
    (h : decodeColumn v2 bytes = .ok (c,rest)) : c.type ≠ .null := by
  simp only [decodeColumn,ite_refuse_ok] at h
  obtain ⟨-,-,h⟩ := h
  cases hn : takeBytes (bytes.drop (if v2 then 15 else 9)) (loadAt 4 bytes 0) "Catalog 列名越界" with
  | error e =>
    rw [hn] at h
    simp at h
  | ok named =>
    rw [hn] at h
    dsimp only at h
    cases hd : decodeDefault (if v2 then bytes.getD 10 0 else 0)
        (if v2 then loadAt 4 bytes 11 else 0) named.2 with
    | error e =>
      rw [hd] at h
      simp at h
    | ok valued =>
      rw [hd] at h
      dsimp only at h
      cases ht : decodeType (bytes.getD 4 0) (if v2 then bytes.getD 9 0 else 1) (loadAt 4 bytes 5)
          named.1 valued.1 with
      | error e =>
        rw [ht] at h
        simp at h
      | ok d =>
        rw [ht] at h
        obtain ⟨rfl,-⟩ : d = c ∧ valued.2 = rest := by simpa using h
        exact decodeType_proper ht

/-! ### Tables -/

/-- The columns of a table are of type INT or VARCHAR. -/
def Proper (t : TableMetadata) : Prop := ∀ c ∈ t.schema, c.type ≠ .null

def ValidPage (page : UInt32) : Prop := page ≠ 0 ∧ page.toNat ≠ invalidPageId

theorem tableBytes_length (t : TableMetadata) : (tableBytes t).length =
    16 + t.name.length + (t.schema.map fun c => (columnBytes c).length).sum := by
  simp only [tableBytes,List.length_append,length_storeLE,List.length_flatMap]
  omega

/-- Each column takes at least one byte, and no more than the record. -/
theorem schema_length_le (t : TableMetadata) : t.schema.length ≤ (tableBytes t).length := by
  have hsum : (t.schema.map fun _ => 1).sum ≤ (t.schema.map fun c => (columnBytes c).length).sum := by
    refine List.sum_le_sum fun c _ => ?_
    rw [columnBytes_length]
    omega
  simp only [List.map_const',List.sum_replicate,smul_eq_mul,mul_one] at hsum
  rw [tableBytes_length]
  omega

theorem columnBytes_le {t : TableMetadata} {c : Column} (hc : c ∈ t.schema) :
    (columnBytes c).length ≤ (tableBytes t).length := by
  have hsum := List.le_sum_of_mem (List.mem_map_of_mem (f := fun c => (columnBytes c).length) hc)
  rw [tableBytes_length]
  omega

/-- `EncodeTable` refuses a record that is too long and a VARCHAR whose length takes more than
32 bits, and nothing else. -/
theorem encodeTable_ok {t : TableMetadata} {bytes : List UInt8} : encodeTable t = .ok bytes ↔
    bytes = tableBytes t ∧ (tableBytes t).length ≤ maxRecordSize ∧
      ∀ c ∈ t.schema, c.length.getD 0 ≤ maxU32 := by
  have hmax : maxRecordSize ≤ maxU32 := by decide
  rw [encodeTable,ite_refuse_ok]
  constructor
  · rintro ⟨-,h⟩
    cases hc : checkColumns t.schema with
    | error e => simp [hc] at h
    | ok u =>
      simp only [hc,ite_refuse_ok] at h
      refine ⟨(Except.ok.inj h.2).symm,not_lt.mp h.1,fun c hmem => ?_⟩
      exact (checkColumn_ok.mp (checkColumns_ok.mp hc c hmem)).2.1
  · rintro ⟨rfl,hl,hlen⟩
    have hname : t.name.length ≤ maxU32 := by
      rw [tableBytes_length] at hl
      omega
    have hcols : checkColumns t.schema = .ok () := by
      refine checkColumns_ok.mpr fun c hc => checkColumn_ok.mpr ?_
      have hle := columnBytes_le hc
      rw [columnBytes_length] at hle
      exact ⟨by omega,hlen c hc,by omega⟩
    have hcount := schema_length_le t
    refine ⟨not_or.mpr ⟨not_lt.mpr hname,by omega⟩,?_⟩
    simp only [hcols]
    rw [if_neg (not_lt.mpr hl)]

theorem decodeTable_bytes {t : TableMetadata} (hp : Proper t) (hv : validateTable t = .ok ())
    (hpage : ValidPage t.firstDataPageId) {bytes : List UInt8} (he : encodeTable t = .ok bytes) :
    decodeTable bytes = .ok t := by
  obtain ⟨rfl,hl,hlen⟩ := encodeTable_ok.mp he
  have hmax : maxRecordSize ≤ maxU32 := by decide
  rw [encodeTable,ite_refuse_ok] at he
  obtain ⟨hlong,he⟩ := he
  obtain ⟨hn,hk⟩ := not_or.mp hlong
  have hcheck : checkColumns t.schema = .ok () := by
    cases hc : checkColumns t.schema with
    | error e => simp [hc] at he
    | ok u => rfl
  have hpn : t.firstDataPageId.toNat ≤ maxU32 := by
    have := t.firstDataPageId.toNat_lt
    simp only [maxU32]
    omega
  obtain ⟨h0,h4,h8,h12,h16⟩ := tableHeader hpn (not_lt.mp hn) (not_lt.mp hk)
    (t.name ++ t.schema.flatMap columnBytes)
  have hform : tableBytes t = storeLE 4 kCatalogRecordMagicV2 ++
      (storeLE 4 t.firstDataPageId.toNat ++ (storeLE 4 t.name.length ++
        (storeLE 4 t.schema.length ++ (t.name ++ t.schema.flatMap columnBytes)))) := rfl
  rw [← hform] at h0 h4 h8 h12 h16
  have hcols : ∀ c ∈ t.schema, Undoes (decodeColumn true) columnBytes c := by
    intro c hc
    exact decodeColumn_bytes (validateColumn_sound (validateTable_ok hv c hc) (hp c hc))
      (checkColumns_ok.mp hcheck c hc)
  have hread := readMany_flatMap hcols []
  rw [List.append_nil] at hread
  have hshort : ¬ ((tableBytes t).length < 16 ∨ !isTableMagic (tableBytes t)) := by
    rw [tableBytes_length,isTableMagic,h0]
    simp
    omega
  have hzero : ¬ (t.firstDataPageId = 0 ∨ t.firstDataPageId.toNat = invalidPageId) :=
    not_or.mpr hpage
  simp only [decodeTable,if_neg hshort,h0,h4,h8,h12,h16,UInt32.ofNat_toNat,if_neg hzero,
    takeBytes_append,decide_true,hread,ne_eq,not_true,if_false,hv]

/-- Whatever `DecodeTable` accepts is a table that may be stored. -/
theorem decodeTable_sound {bytes : List UInt8} {t : TableMetadata}
    (h : decodeTable bytes = .ok t) :
    validateTable t = .ok () ∧ Proper t ∧ ValidPage t.firstDataPageId := by
  simp only [decodeTable,ite_refuse_ok] at h
  obtain ⟨-,hpage,h⟩ := h
  cases hn : takeBytes (bytes.drop 16) (loadAt 4 bytes 8) "Catalog 表名越界" with
  | error e => simp [hn] at h
  | ok named =>
    obtain ⟨name,rest₁⟩ := named
    simp only [hn] at h
    cases hr : readMany (decodeColumn (loadAt 4 bytes 0 = kCatalogRecordMagicV2))
        (loadAt 4 bytes 12) rest₁ with
    | error e => simp [hr] at h
    | ok read =>
      obtain ⟨columns,rest₂⟩ := read
      simp only [hr,ite_refuse_ok] at h
      obtain ⟨-,h⟩ := h
      cases hv : validateTable ⟨name,columns,UInt32.ofNat (loadAt 4 bytes 4)⟩ with
      | error e => simp [hv] at h
      | ok u =>
        obtain rfl : (⟨name,columns,UInt32.ofNat (loadAt 4 bytes 4)⟩ : TableMetadata) = t := by
          simpa [hv] using h
        exact ⟨hv,readMany_forall (fun _ _ _ => decodeColumn_proper) hr,not_or.mp hpage⟩

/-! ### Indexes -/

theorem indexBytes_length (i : IndexMetadata) : (indexBytes i).length =
    24 + i.name.length + i.tableName.length + i.columnName.length := by
  simp only [indexBytes,List.length_append,length_storeLE]
  omega

theorem encodeIndex_ok {i : IndexMetadata} {bytes : List UInt8} : encodeIndex i = .ok bytes ↔
    bytes = indexBytes i ∧ validateIndexShape i = .ok () ∧
      (indexBytes i).length ≤ maxRecordSize := by
  have hmax : maxRecordSize ≤ maxU32 := by decide
  rw [encodeIndex]
  cases hv : validateIndexShape i with
  | error e => simp
  | ok u =>
    simp only [ite_refuse_ok,not_lt,true_and]
    constructor
    · rintro ⟨-,hl,h⟩
      exact ⟨(Except.ok.inj h).symm,hl⟩
    · rintro ⟨rfl,hl⟩
      rw [indexBytes_length] at hl ⊢
      exact ⟨by omega,hl,rfl⟩

theorem decodeIndex_bytes {i : IndexMetadata} {bytes : List UInt8}
    (he : encodeIndex i = .ok bytes) : decodeIndex bytes = .ok i := by
  obtain ⟨rfl,hv,hl⟩ := encodeIndex_ok.mp he
  have hmax : maxRecordSize ≤ maxU32 := by decide
  have hlen := hl
  rw [indexBytes_length] at hlen
  have hbit : (if i.isUnique then 1 else 0) ≤ 1 := by split <;> decide
  have hroot : i.rootPageId.toNat ≤ maxU32 := by
    have := i.rootPageId.toNat_lt
    simp only [maxU32]
    omega
  obtain ⟨h0,h4,h8,h12,h16,h20,h24⟩ := indexHeader hroot (le_trans hbit (by decide))
    (a := i.name.length) (b := i.tableName.length) (c := i.columnName.length)
    (by omega) (by omega) (by omega) (i.name ++ (i.tableName ++ i.columnName))
  have hform : indexBytes i = storeLE 4 kIndexRecordMagic ++ (storeLE 4 i.rootPageId.toNat ++
      (storeLE 4 (if i.isUnique then 1 else 0) ++ (storeLE 4 i.name.length ++
        (storeLE 4 i.tableName.length ++ (storeLE 4 i.columnName.length ++
          (i.name ++ (i.tableName ++ i.columnName))))))) := rfl
  rw [← hform] at h0 h4 h8 h12 h16 h20 h24
  have hlast := takeBytes_append i.columnName [] "Catalog 索引列名越界"
  rw [List.append_nil] at hlast
  have hshort : ¬ ((indexBytes i).length < 24 ∨ !isIndexMagic (indexBytes i)) := by
    rw [indexBytes_length,isIndexMagic,h0]
    simp only [decide_true,Bool.not_true,Bool.false_eq_true,or_false]
    omega
  have hflag : decide ((if i.isUnique then 1 else 0) = 1) = i.isUnique := by
    cases i.isUnique <;> rfl
  simp only [decodeIndex,if_neg hshort,h4,h8,h12,h16,h20,h24,if_neg (not_lt.mpr hbit),
    takeBytes_append,hlast,ne_eq,not_true,if_false,hflag,UInt32.ofNat_toNat,hv]

/-! ### Names that are text -/

def ofValue : Catalog.Value → Data.Value
  | .null => .null
  | .int n => .int (Int64.ofInt n)
  | .varchar s => .varchar (textBytes s)

def ofType : Catalog.DataType → Data.DataType
  | .int => .int
  | .varchar => .varchar

def ofColumn (c : Catalog.Column) : Column :=
  ⟨textBytes c.name,ofType c.type,c.length,c.nullable,c.primaryKey,c.unique,
    c.defaultValue.map ofValue⟩

def ofTable (t : Catalog.TableMetadata) : TableMetadata :=
  ⟨textBytes t.name,t.schema.map ofColumn,UInt32.ofNat t.firstDataPageId⟩

def ofIndex (i : Catalog.IndexMetadata) : IndexMetadata :=
  ⟨textBytes i.name,textBytes i.tableName,textBytes i.columnName,UInt32.ofNat i.rootPageId,
    i.isUnique⟩

theorem toNat_page {page : ℕ} (h : page ≤ maxU32) : (UInt32.ofNat page).toNat = page :=
  UInt32.toNat_ofNat_of_lt' (Nat.lt_of_le_of_lt h (by decide))

theorem toU64_eq (n : ℤ) : (Int64.ofInt n).toUInt64.toNat = toU64 n := by
  rw [toU64]
  exact BitVec.toNat_ofInt n

theorem defaultBytes_ofValue (v : Option Catalog.Value) :
    defaultBytes (v.map ofValue) = Codec.defaultBytes v := by
  rcases v with _ | _ | n | s
  · rfl
  · rfl
  · simp [defaultBytes,Codec.defaultBytes,ofValue,toU64_eq]
  · rfl

theorem columnBytes_ofColumn (c : Catalog.Column) :
    columnBytes (ofColumn c) = Codec.columnBytes c := by
  have htype : typeTag (ofType c.type) = Codec.typeTag c.type := by cases c.type <;> rfl
  have htag : defaultTag (c.defaultValue.map ofValue) = Codec.defaultTag c.defaultValue := by
    rcases c.defaultValue with _ | _ | n | s <;> rfl
  have hflags : flags (ofColumn c) = Codec.flags c := rfl
  rw [columnBytes,Codec.columnBytes,hflags]
  simp only [ofColumn,htype,htag,defaultBytes_ofValue,length_textBytes,Codec.defaultBytes_length]

/-- The two encoders write the same bytes of a table whose names are text. -/
theorem tableBytes_ofTable {t : Catalog.TableMetadata} (h : t.firstDataPageId ≤ maxU32) :
    tableBytes (ofTable t) = Codec.tableBytes t := by
  have hcols : (t.schema.map ofColumn).flatMap columnBytes =
      t.schema.flatMap Codec.columnBytes := by
    rw [List.flatMap_map]
    exact List.flatMap_congr fun c _ => columnBytes_ofColumn c
  simp only [tableBytes,Codec.tableBytes,ofTable,toNat_page h,hcols,length_textBytes,List.length_map]

theorem indexBytes_ofIndex {i : Catalog.IndexMetadata} (h : i.rootPageId ≤ maxU32) :
    indexBytes (ofIndex i) = Codec.indexBytes i := by
  obtain ⟨name,table,col,root,unique⟩ := i
  cases unique <;> simp [indexBytes,Codec.indexBytes,ofIndex,toNat_page h]

/-- A stored table and a stored index are read back as they were, and every table record that is
accepted describes a table that could have been stored. -/
theorem records_read_back :
    (∀ t : TableMetadata, Proper t → validateTable t = .ok () → ValidPage t.firstDataPageId →
      (∀ bytes, encodeTable t = .ok bytes ↔ bytes = tableBytes t ∧
        (tableBytes t).length ≤ maxRecordSize ∧ ∀ c ∈ t.schema, c.length.getD 0 ≤ maxU32) ∧
      ∀ bytes, encodeTable t = .ok bytes → decodeTable bytes = .ok t) ∧
    (∀ i : IndexMetadata, validateIndexShape i = .ok () →
      (∀ bytes, encodeIndex i = .ok bytes ↔ bytes = indexBytes i ∧
        (indexBytes i).length ≤ maxRecordSize) ∧
      ∀ bytes, encodeIndex i = .ok bytes → decodeIndex bytes = .ok i) ∧
    ∀ bytes t, decodeTable bytes = .ok t →
      validateTable t = .ok () ∧ Proper t ∧ ValidPage t.firstDataPageId := by
  refine ⟨fun t hp hv hpage => ⟨fun bytes => encodeTable_ok,fun bytes he => ?_⟩,
    fun i hv => ⟨fun bytes => ?_,fun bytes he => decodeIndex_bytes he⟩,
    fun bytes t h => decodeTable_sound h⟩
  · exact decodeTable_bytes hp hv hpage he
  · rw [encodeIndex_ok,hv]
    simp

end Raw
end Catalog
end OurSql
