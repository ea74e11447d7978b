import OurSql.Catalog.Records
import OurSql.Lib.Bytes

/-! The bytes of catalog records: what `EncodeTable` and `EncodeIndex` write and what
the decoders read back. A name is text, written as its UTF-8 bytes; bytes that spell
no text are the name of nothing here. -/
namespace OurSql
namespace Catalog
namespace Codec

open Bytes

def kCatalogRecordMagic : ℕ := 0x314C4254
def kCatalogRecordMagicV2 : ℕ := 0x324C4254
def kIndexRecordMagic : ℕ := 0x31584449

/-- `std::numeric_limits<std::uint32_t>::max()`. -/
def maxU32 : ℕ := 4294967295

def textBytes (s : String) : List UInt8 := s.toByteArray.data.toList

def readText (bytes : List UInt8) : Option String := String.fromUTF8? ⟨bytes.toArray⟩

/-- `static_cast<std::uint64_t>` and back. -/
def toU64 (n : ℤ) : ℕ := (n % 18446744073709551616).toNat

def toI64 (n : ℕ) : ℤ := if n < 9223372036854775808 then n else n - 18446744073709551616

/-! ### Encoding -/

def typeTag : DataType → UInt8
  | .int => 1
  | .varchar => 2

def flags (c : Column) : UInt8 :=
  (if c.nullable then 1 else 0) + (if c.primaryKey then 2 else 0) + (if c.unique then 4 else 0)

def defaultTag : Option Value → UInt8
  | none => 0
  | some .null => 1
  | some (.int _) => 2
  | some (.varchar _) => 3

def defaultBytes : Option Value → List UInt8
  | some (.int n) => storeLE 8 (toU64 n)
  | some (.varchar s) => textBytes s
  | _ => []

def columnBytes (c : Column) : List UInt8 :=
  storeLE 4 c.name.utf8ByteSize ++ (typeTag c.type::(storeLE 4 (c.length.getD 0) ++
    (flags c::defaultTag c.defaultValue::(storeLE 4 (defaultLength c.defaultValue) ++
      (textBytes c.name ++ defaultBytes c.defaultValue)))))

def tableBytes (t : TableMetadata) : List UInt8 :=
  storeLE 4 kCatalogRecordMagicV2 ++ (storeLE 4 t.firstDataPageId ++
    (storeLE 4 t.name.utf8ByteSize ++ (storeLE 4 t.schema.length ++
      (textBytes t.name ++ t.schema.flatMap columnBytes))))

def indexBytes (i : IndexMetadata) : List UInt8 :=
  storeLE 4 kIndexRecordMagic ++ (storeLE 4 i.rootPageId ++
    (storeLE 4 (if i.isUnique then 1 else 0) ++ (storeLE 4 i.name.utf8ByteSize ++
      (storeLE 4 i.tableName.utf8ByteSize ++ (storeLE 4 i.columnName.utf8ByteSize ++
        (textBytes i.name ++ (textBytes i.tableName ++ textBytes i.columnName)))))))

/-- The lengths of a column that must fit 32 bits. -/
def checkColumn (c : Column) : Status :=
  if maxU32 < c.name.utf8ByteSize then fail .invalidArgument "Catalog 列名长度超过上限"
  else if maxU32 < c.length.getD 0 then
    fail .invalidArgument ("Catalog VARCHAR 长度超过上限: " ++ c.name)
  else if maxU32 < defaultLength c.defaultValue then
    fail .invalidArgument ("Catalog 默认字符串过长: " ++ c.name)
  else .ok ()

def checkColumns : List Column → Status
  | [] => .ok ()
  | c::cs =>
    match checkColumn c with
    | .error e => .error e
    | .ok () => checkColumns cs

def encodeTable (t : TableMetadata) : Result (List UInt8) :=
  if maxU32 < t.name.utf8ByteSize ∨ maxU32 < t.schema.length then
    fail .invalidArgument "Catalog 表元数据长度超过上限"
  else match checkColumns t.schema with
    | .error e => .error e
    | .ok () =>
      if maxRecordSize < (tableBytes t).length then
        fail .recordTooLarge ("Catalog 表元数据超过页面上限: " ++ toString maxRecordSize)
      else .ok (tableBytes t)

def encodeIndex (i : IndexMetadata) : Result (List UInt8) :=
  match validateIndexShape i with
  | .error e => .error e
  | .ok () =>
    if maxU32 < i.name.utf8ByteSize ∨ maxU32 < i.tableName.utf8ByteSize ∨
        maxU32 < i.columnName.utf8ByteSize then
      fail .invalidArgument "Catalog 索引名称长度超过上限"
    else if maxRecordSize < (indexBytes i).length then
      fail .recordTooLarge ("Catalog 索引元数据超过页面上限: " ++ toString maxRecordSize)
    else .ok (indexBytes i)

/-! ### Decoding: `offset` is what has been dropped of the record -/

/-- A string of `n` bytes and what follows it. -/
def takeText (bytes : List UInt8) (n : ℕ) (message : String) : Result (String × List UInt8) :=
  if bytes.length < n then fail .invalidArgument message
  else match readText (bytes.take n) with
    | none => fail .invalidArgument message
    | some s => .ok (s,bytes.drop n)

def decodeDefault (tag : UInt8) (n : ℕ) (bytes : List UInt8) :
    Result (Option Value × List UInt8) :=
  if tag = 0 then .ok (none,bytes)
  else if bytes.length < n then fail .invalidArgument "Catalog 列默认值越界"
  else if tag = 1 then
    if n ≠ 0 then fail .invalidArgument "Catalog NULL 默认值长度非法"
    else .ok (some .null,bytes)
  else if tag = 2 then
    if n ≠ 8 then fail .invalidArgument "Catalog INT 默认值长度非法"
    else .ok (some (.int (toI64 (loadAt 8 bytes 0))),bytes.drop 8)
  else match takeText bytes n "Catalog 列默认值越界" with
    | .error e => .error e
    | .ok (s,rest) => .ok (some (.varchar s),rest)

/-- The type tag last: it says which length and which default a column may have. -/
def decodeType (tag : UInt8) (n : ℕ) (c : Column) : Result Column :=
  if tag = 1 then
    if n ≠ 0 then fail .invalidArgument "Catalog INT 列带有长度"
    else if c.defaultValue.any fun v => !v.hasType .int then
      fail .typeMismatch "Catalog INT 列默认值类型错误"
    else .ok { c with type := .int,length := none }
  else if tag = 2 then
    if c.defaultValue.any fun v => !v.hasType .varchar then
      fail .typeMismatch "Catalog VARCHAR 列默认值类型错误"
    else .ok { c with type := .varchar,length := if n = 0 then none else some n }
  else fail .invalidArgument "Catalog 列类型标记非法"

def decodeColumn (v2 : Bool) (bytes : List UInt8) : Result (Column × List UInt8) :=
  let size := if v2 then 15 else 9
  if bytes.length < size then fail .invalidArgument "Catalog 列定义头越界"
  else
    let flags := if v2 then bytes.getD 9 0 else 1
    let tag := if v2 then bytes.getD 10 0 else 0
    let n := if v2 then loadAt 4 bytes 11 else 0
    if 7 < flags ∨ 3 < tag then fail .invalidArgument "Catalog 列约束或默认值标记非法"
    else match takeText (bytes.drop size) (loadAt 4 bytes 0) "Catalog 列名越界" with
      | .error e => .error e
      | .ok (name,rest) =>
        match decodeDefault tag n rest with
        | .error e => .error e
        | .ok (value,rest) =>
          -- the constructor of `Column` makes a primary key unique
          let c : Column := ⟨name,.int,none,flags &&& 1 ≠ 0,flags &&& 2 ≠ 0,
            flags &&& 4 ≠ 0 ∨ flags &&& 2 ≠ 0,value⟩
          match decodeType (bytes.getD 4 0) (loadAt 4 bytes 5) c with
          | .error e => .error e
          | .ok c => .ok (c,rest)

def decodeColumns (v2 : Bool) : ℕ → List UInt8 → Result (List Column × List UInt8)
  | 0, bytes => .ok ([],bytes)
  | n+1, bytes =>
    match decodeColumn v2 bytes with
    | .error e => .error e
    | .ok (c,rest) =>
      match decodeColumns v2 n rest with
      | .error e => .error e
      | .ok (cs,rest) => .ok (c::cs,rest)

def isTableMagic (bytes : List UInt8) : Bool :=
  loadAt 4 bytes 0 = kCatalogRecordMagic ∨ loadAt 4 bytes 0 = kCatalogRecordMagicV2

def isIndexMagic (bytes : List UInt8) : Bool := loadAt 4 bytes 0 = kIndexRecordMagic

def decodeTable (bytes : List UInt8) : Result TableMetadata :=
  if bytes.length < 16 ∨ !isTableMagic bytes then
    fail .invalidArgument "Catalog 表记录头损坏"
  else
    let page := loadAt 4 bytes 4
    if page = 0 ∨ page = invalidPageId then fail .invalidArgument "Catalog 首数据页编号非法"
    else match takeText (bytes.drop 16) (loadAt 4 bytes 8) "Catalog 表名越界" with
      | .error e => .error e
      | .ok (name,rest) =>
        match decodeColumns (loadAt 4 bytes 0 = kCatalogRecordMagicV2) (loadAt 4 bytes 12) rest with
        | .error e => .error e
        | .ok (columns,rest) =>
          if rest ≠ [] then fail .invalidArgument "Catalog 表记录有多余数据"
          else match validateTable ⟨name,columns,page⟩ with
            | .error e => .error e
            | .ok () => .ok ⟨name,columns,page⟩

def decodeIndex (bytes : List UInt8) : Result IndexMetadata :=
  if bytes.length < 24 ∨ !isIndexMagic bytes then
    fail .invalidArgument "Catalog 索引记录头损坏"
  else
    let unique := loadAt 4 bytes 8
    if 1 < unique then fail .invalidArgument "Catalog 索引唯一标记非法"
    else match takeText (bytes.drop 24) (loadAt 4 bytes 12) "Catalog 索引名越界" with
      | .error e => .error e
      | .ok (name,rest) =>
        match takeText rest (loadAt 4 bytes 16) "Catalog 索引表名越界" with
        | .error e => .error e
        | .ok (table,rest) =>
          match takeText rest (loadAt 4 bytes 20) "Catalog 索引列名越界" with
          | .error e => .error e
          | .ok (column,rest) =>
            if rest ≠ [] then fail .invalidArgument "Catalog 索引记录有多余数据"
            else
              let i : IndexMetadata := ⟨name,table,column,loadAt 4 bytes 4,unique = 1⟩
              match validateIndexShape i with
              | .error e => .error e
              | .ok () => .ok i

/-! ### Round trips -/

/-- The integers of a column fit `std::int64_t`. -/
def MachineColumn (c : Column) : Prop :=
  ∀ n, c.defaultValue = some (.int n) → -9223372036854775808 ≤ n ∧ n < 9223372036854775808

/-- Page identifiers have 32 bits, integers 64. -/
def MachineTable (t : TableMetadata) : Prop := ∀ c ∈ t.schema, MachineColumn c

@[simp] theorem length_textBytes (s : String) : (textBytes s).length = s.utf8ByteSize := by
  rw [textBytes,Array.length_toList]
  rfl

theorem readText_textBytes (s : String) : readText (textBytes s) = some s := by
  have h : (⟨(textBytes s).toArray⟩ : ByteArray) = s.toByteArray := by
    simp [textBytes]
  rw [readText,h,String.fromUTF8?,dif_pos s.isValidUTF8]
  rfl

theorem takeText_textBytes (s : String) (rest : List UInt8) (message : String) :
    takeText (textBytes s ++ rest) s.utf8ByteSize message = .ok (s,rest) := by
  have hl := length_textBytes s
  rw [takeText,if_neg (by rw [List.length_append]; omega),List.take_left' hl,
    List.drop_left' hl,readText_textBytes]

theorem toI64_toU64 {n : ℤ} (h : -9223372036854775808 ≤ n ∧ n < 9223372036854775808) :
    toI64 (toU64 n) = n := by
  have h0 : 0 ≤ n % 18446744073709551616 := Int.emod_nonneg _ (by decide)
  have hu : (toU64 n : ℤ) = n % 18446744073709551616 := Int.toNat_of_nonneg h0
  rw [toI64]
  split <;> omega

theorem toU64_lt (n : ℤ) : toU64 n < 256 ^ 8 := by
  simp only [toU64]
  omega

/-- A 32-bit number at the front. -/
theorem loadAt_four {value : ℕ} (h : value ≤ maxU32) (rest : List UInt8) :
    loadAt 4 (storeLE 4 value ++ rest) 0 = value := by
  rw [loadAt_storeLE,Nat.mod_eq_of_lt]
  simp only [maxU32] at h
  omega

theorem loadAt_skip {k : ℕ} (h : 4 ≤ k) (value : ℕ) (rest : List UInt8) :
    loadAt 4 (storeLE 4 value ++ rest) k = loadAt 4 rest (k - 4) := by
  rw [loadAt_append (by rw [length_storeLE]; omega),length_storeLE]

theorem loadAt_cons (b : UInt8) (rest : List UInt8) (k : ℕ) :
    loadAt 4 (b::rest) (k + 1) = loadAt 4 rest k := rfl

theorem getD_skip {k : ℕ} (h : 4 ≤ k) (value : ℕ) (rest : List UInt8) :
    (storeLE 4 value ++ rest).getD k 0 = rest.getD (k - 4) 0 := by
  rw [List.getD_append_right _ _ _ _ (by rw [length_storeLE]; omega),length_storeLE]

theorem defaultBytes_length (v : Option Value) : (defaultBytes v).length = defaultLength v := by
  rcases v with _ | _ | n | s
  · rfl
  · rfl
  · simp [defaultBytes,defaultLength]
  · simp [defaultBytes,defaultLength]

theorem decodeDefault_bytes {v : Option Value}
    (h : ∀ n, v = some (.int n) → -9223372036854775808 ≤ n ∧ n < 9223372036854775808)
    (rest : List UInt8) :
    decodeDefault (defaultTag v) (defaultLength v) (defaultBytes v ++ rest) = .ok (v,rest) := by
  have hl : ¬ (defaultBytes v ++ rest).length < defaultLength v := by
    rw [List.length_append,defaultBytes_length]
    omega
  rcases v with _ | _ | n | s
  · rfl
  · simp [decodeDefault,defaultTag,defaultLength,defaultBytes]
  · have hn := toI64_toU64 (h n rfl)
    have hlt := Nat.mod_eq_of_lt (toU64_lt n)
    have ht : defaultTag (some (.int n)) = 2 := rfl
    have hk : defaultLength (some (.int n)) = 8 := rfl
    rw [decodeDefault,if_neg hl,ht,hk,if_neg (by decide),if_neg (by decide),if_pos rfl,
      if_neg (by decide)]
    simp only [defaultBytes]
    rw [loadAt_storeLE,hlt,hn,List.drop_left' (length_storeLE 8 _)]
  · have ht : defaultTag (some (.varchar s)) = 3 := rfl
    rw [decodeDefault,if_neg hl,ht,if_neg (by decide),if_neg (by decide),if_neg (by decide)]
    simp only [defaultBytes,defaultLength,takeText_textBytes]

theorem validateColumn_ok {c : Column} (h : validateColumn c = .ok ()) :
    (c.type = .int → c.length = none) ∧ c.length ≠ some 0 ∧
      (c.primaryKey = true → c.unique = true) ∧
      ∀ v, c.defaultValue = some v → v.hasType c.type = true := by
  obtain ⟨name,type,length,nullable,primaryKey,unique,value⟩ := c
  simp only [validateColumn] at h
  split at h
  · simp [fail] at h
  split at h
  · simp [fail] at h
  next hi =>
  split at h
  · simp [fail] at h
  next hz =>
  split at h
  · simp [fail] at h
  next hpk =>
  have hint : type = .int → length = none := by
    intro ht
    simpa [ht] using hi
  refine ⟨hint,?_,?_,?_⟩
  · rintro rfl
    cases type with
    | int => exact absurd (hint rfl) (by simp)
    | varchar => exact hz ⟨rfl,rfl⟩
  · intro hp
    simp only at hp hpk ⊢
    simpa [hp] using fun hu : unique = false => hpk ⟨hp,.inr (by simpa using hu)⟩
  · rintro v rfl
    simp only at h
    split at h
    · simp [fail] at h
    split at h
    · simp [fail] at h
    · next hv => simpa using hv

theorem checkColumn_ok {c : Column} (h : checkColumn c = .ok ()) : c.name.utf8ByteSize ≤ maxU32 ∧
    c.length.getD 0 ≤ maxU32 ∧ defaultLength c.defaultValue ≤ maxU32 := by
  simp only [checkColumn] at h
  split at h
  · simp [fail] at h
  split at h
  · simp [fail] at h
  split at h
  · simp [fail] at h
  · omega

/-- The tag of a type gives back the column that was checked. -/
theorem decodeType_tag {c d : Column} (hv : validateColumn c = .ok ())
    (hd : d = { c with type := .int,length := none }) :
    decodeType (typeTag c.type) (c.length.getD 0) d = .ok c := by
  obtain ⟨hint,hzero,-,hdef⟩ := validateColumn_ok hv
  obtain ⟨name,type,length,nullable,primaryKey,unique,value⟩ := c
  subst hd
  cases type with
  | int =>
    obtain rfl : length = none := hint rfl
    have hany : ¬ (value.any fun v => !v.hasType .int) = true := by
      cases value with
      | none => simp
      | some v => simpa using hdef v rfl
    simp [decodeType,typeTag,hany]
  | varchar =>
    have hany : ¬ (value.any fun v => !v.hasType .varchar) = true := by
      cases value with
      | none => simp
      | some v => simpa using hdef v rfl
    have hlen : (if length.getD 0 = 0 then none else some (length.getD 0)) = length := by
      cases length with
      | none => rfl
      | some n => simpa using hzero
    simp [decodeType,typeTag,hany,hlen]

theorem flags_le (c : Column) : ¬ 7 < flags c := by
  simp only [flags]
  cases c.nullable <;> cases c.primaryKey <;> cases c.unique <;> decide

theorem defaultTag_le (v : Option Value) : ¬ 3 < defaultTag v := by
  rcases v with _ | _ | n | s <;> simp [defaultTag]

/-- What `Decode` makes of the flags of a column whose primary key is unique. -/
theorem flags_bits (nullable primaryKey unique : Bool) (h : primaryKey = true → unique = true) :
    let f : UInt8 := (if nullable then 1 else 0) + (if primaryKey then 2 else 0) +
      (if unique then 4 else 0)
    decide (f &&& 1 ≠ 0) = nullable ∧ decide (f &&& 2 ≠ 0) = primaryKey ∧
      decide (f &&& 4 ≠ 0 ∨ f &&& 2 ≠ 0) = unique := by
  revert nullable primaryKey unique
  decide

theorem flags_column {c : Column} (h : c.primaryKey = true → c.unique = true) :
    (⟨c.name,.int,none,flags c &&& 1 ≠ 0,flags c &&& 2 ≠ 0,
      flags c &&& 4 ≠ 0 ∨ flags c &&& 2 ≠ 0,c.defaultValue⟩ : Column) =
        { c with type := .int,length := none } := by
  obtain ⟨hn,hp,hu⟩ := flags_bits c.nullable c.primaryKey c.unique h
  rw [Column.mk.injEq]
  exact ⟨rfl,rfl,rfl,hn,hp,hu,rfl⟩

theorem columnBytes_length (c : Column) :
    (columnBytes c).length = 15 + c.name.utf8ByteSize + defaultLength c.defaultValue := by
  simp only [columnBytes,List.length_append,List.length_cons,length_storeLE,length_textBytes,
    defaultBytes_length]
  omega

/-- The fixed part of a column definition, field by field. -/
theorem columnHeader {a l n : ℕ} (ha : a ≤ maxU32) (hl : l ≤ maxU32) (hn : n ≤ maxU32)
    (t f d : UInt8) (rest : List UInt8) :
    let bytes := storeLE 4 a ++ (t::(storeLE 4 l ++ (f::d::(storeLE 4 n ++ rest))))
    loadAt 4 bytes 0 = a ∧ bytes.getD 4 0 = t ∧ loadAt 4 bytes 5 = l ∧ bytes.getD 9 0 = f ∧
      bytes.getD 10 0 = d ∧ loadAt 4 bytes 11 = n ∧ bytes.drop 15 = rest := by
  intro bytes
  refine ⟨loadAt_four ha _,?_,?_,?_,?_,?_,?_⟩
  · exact getD_skip (by decide) _ _
  · rw [loadAt_skip (by decide),loadAt_cons]
    exact loadAt_four hl _
  · rw [getD_skip (by decide)]
    exact getD_skip (by decide) _ _
  · rw [getD_skip (by decide)]
    exact getD_skip (by decide) _ _
  · rw [loadAt_skip (by decide),loadAt_cons,loadAt_skip (by decide),loadAt_cons,loadAt_cons]
    exact loadAt_four hn _
  · rfl

theorem decodeColumn_bytes {c : Column} (hv : validateColumn c = .ok ())
    (hc : checkColumn c = .ok ()) (hm : MachineColumn c) (rest : List UInt8) :
    decodeColumn true (columnBytes c ++ rest) = .ok (c,rest) := by
  obtain ⟨hn,hl,hd⟩ := checkColumn_ok hc
  have hsize : ¬ (columnBytes c ++ rest).length < 15 := by
    rw [List.length_append,columnBytes_length]
    omega
  have hform : columnBytes c ++ rest = storeLE 4 c.name.utf8ByteSize ++ (typeTag c.type::
      (storeLE 4 (c.length.getD 0) ++ (flags c::defaultTag c.defaultValue::
        (storeLE 4 (defaultLength c.defaultValue) ++
          (textBytes c.name ++ (defaultBytes c.defaultValue ++ rest)))))) := by
    simp [columnBytes]
  have hhead := columnHeader hn hl hd (typeTag c.type) (flags c) (defaultTag c.defaultValue)
    (textBytes c.name ++ (defaultBytes c.defaultValue ++ rest))
  rw [← hform] at hhead
  obtain ⟨h0,h4,h5,h9,h10,h11,h15⟩ := hhead
  have hbad : ¬ (7 < flags c ∨ 3 < defaultTag c.defaultValue) :=
    not_or.mpr ⟨flags_le c,defaultTag_le _⟩
  simp only [decodeColumn,if_true,if_neg hsize,h0,h4,h5,h9,h10,h11,h15,if_neg hbad,
    takeText_textBytes,decodeDefault_bytes hm,decodeType_tag hv (flags_column (validateColumn_ok hv).2.2.1)]

theorem checkColumns_ok {cs : List Column} (h : checkColumns cs = .ok ()) :
    ∀ c ∈ cs, checkColumn c = .ok () := by
  induction cs with
  | nil => simp
  | cons c cs ih =>
    simp only [checkColumns] at h
    split at h
    · simp at h
    · next hc =>
      intro d hd
      rcases List.mem_cons.mp hd with rfl | hd
      · exact hc
      · exact ih h d hd

theorem validateColumns_ok {names : List String} {cs : List Column}
    (h : validateColumns names cs = .ok ()) : ∀ c ∈ cs, validateColumn c = .ok () := by
  induction cs generalizing names with
  | nil => simp
  | cons c cs ih =>
    simp only [validateColumns] at h
    split at h
    · simp [fail] at h
    split at h
    · next hc =>
      intro d hd
      rcases List.mem_cons.mp hd with rfl | hd
      · exact hc
      · exact ih h d hd
    · simp at h

theorem decodeColumns_bytes {cs : List Column} (hv : ∀ c ∈ cs, validateColumn c = .ok ())
    (hc : ∀ c ∈ cs, checkColumn c = .ok ()) (hm : ∀ c ∈ cs, MachineColumn c)
    (rest : List UInt8) :
    decodeColumns true cs.length (cs.flatMap columnBytes ++ rest) = .ok (cs,rest) := by
  induction cs with
  | nil => rfl
  | cons c cs ih =>
    have hcol := decodeColumn_bytes (hv c List.mem_cons_self) (hc c List.mem_cons_self)
      (hm c List.mem_cons_self) (cs.flatMap columnBytes ++ rest)
    have hrest := ih (fun d hd => hv d (List.mem_cons_of_mem _ hd))
      (fun d hd => hc d (List.mem_cons_of_mem _ hd))
      fun d hd => hm d (List.mem_cons_of_mem _ hd)
    rw [List.length_cons,List.flatMap_cons,List.append_assoc,decodeColumns,hcol]
    simp only [hrest]

theorem tableBytes_length (t : TableMetadata) : (tableBytes t).length = (Record.table t).size := by
  have hsum : (t.schema.flatMap columnBytes).length =
      (t.schema.map fun c => 15 + c.name.utf8ByteSize + defaultLength c.defaultValue).sum := by
    rw [List.length_flatMap]
    congr 1
    refine List.map_congr_left fun c _ => ?_
    exact columnBytes_length c
  simp only [tableBytes,List.length_append,length_storeLE,length_textBytes,hsum,Record.size]
  omega

theorem indexBytes_length (i : IndexMetadata) :
    (indexBytes i).length = (Record.index i).size := by
  simp only [indexBytes,List.length_append,length_storeLE,length_textBytes,Record.size]
  omega

theorem tableHeader {p n k : ℕ} (hp : p ≤ maxU32) (hn : n ≤ maxU32) (hk : k ≤ maxU32)
    (rest : List UInt8) :
    let bytes := storeLE 4 kCatalogRecordMagicV2 ++ (storeLE 4 p ++ (storeLE 4 n ++
      (storeLE 4 k ++ rest)))
    loadAt 4 bytes 0 = kCatalogRecordMagicV2 ∧ loadAt 4 bytes 4 = p ∧ loadAt 4 bytes 8 = n ∧
      loadAt 4 bytes 12 = k ∧ bytes.drop 16 = rest := by
  intro bytes
  refine ⟨loadAt_four (by decide) _,?_,?_,?_,rfl⟩
  · rw [loadAt_skip (by decide)]
    exact loadAt_four hp _
  · rw [loadAt_skip (by decide),loadAt_skip (by decide)]
    exact loadAt_four hn _
  · rw [loadAt_skip (by decide),loadAt_skip (by decide),loadAt_skip (by decide)]
    exact loadAt_four hk _

/-- `DecodeTable` reads back what `EncodeTable` wrote of a valid table. -/
theorem decodeTable_encodeTable {t : TableMetadata} {bytes : List UInt8}
    (he : encodeTable t = .ok bytes) (hd : Catalog.decodeTable t = .ok ()) (hm : MachineTable t)
    (hp : t.firstDataPageId ≤ maxU32) : bytes = tableBytes t ∧ decodeTable bytes = .ok t ∧
      (Record.table t).size ≤ maxRecordSize := by
  simp only [encodeTable] at he
  split at he
  · simp [fail] at he
  next hlen =>
  split at he
  · simp at he
  next hc =>
  split at he
  · simp [fail] at he
  next hsize =>
  obtain rfl := Except.ok.inj he
  obtain ⟨hn,hk⟩ := not_or.mp hlen
  simp only [Catalog.decodeTable] at hd
  split at hd
  · simp [fail] at hd
  next hpage =>
  have hcols : ∀ c ∈ t.schema, validateColumn c = .ok () := by
    simp only [validateTable] at hd
    split at hd
    · simp [fail] at hd
    split at hd
    · simp [fail] at hd
    · exact validateColumns_ok hd
  obtain ⟨h0,h4,h8,h12,h16⟩ := tableHeader hp (not_lt.mp hn) (not_lt.mp hk)
    (textBytes t.name ++ t.schema.flatMap columnBytes)
  have hform : tableBytes t = storeLE 4 kCatalogRecordMagicV2 ++ (storeLE 4 t.firstDataPageId ++
      (storeLE 4 t.name.utf8ByteSize ++ (storeLE 4 t.schema.length ++
        (textBytes t.name ++ t.schema.flatMap columnBytes)))) := rfl
  rw [← hform] at h0 h4 h8 h12 h16
  have hread := decodeColumns_bytes hcols (checkColumns_ok hc) hm []
  rw [List.append_nil] at hread
  have hshort : ¬ ((tableBytes t).length < 16 ∨ !isTableMagic (tableBytes t)) := by
    rw [tableBytes_length,isTableMagic,h0]
    simp only [Record.size]
    simp
    omega
  refine ⟨rfl,?_,by rw [← tableBytes_length]; exact not_lt.mp hsize⟩
  simp only [decodeTable,if_neg hshort,h0,h4,h8,h12,h16,if_neg hpage,takeText_textBytes,
    decide_true,hread,ne_eq,not_true,if_false,hd]

theorem encodeIndex_ok_iff {i : IndexMetadata} {bytes : List UInt8} :
    encodeIndex i = .ok bytes ↔ Catalog.encodeIndex i = .ok () ∧ bytes = indexBytes i := by
  simp only [encodeIndex,Catalog.encodeIndex]
  cases hv : validateIndexShape i with
  | error e => simp
  | ok _ =>
    simp only [indexBytes_length]
    by_cases hs : maxRecordSize < (Record.index i).size
    · simp only [if_pos hs]
      split <;> simp [fail]
    · have hlen : ¬ (maxU32 < i.name.utf8ByteSize ∨ maxU32 < i.tableName.utf8ByteSize ∨
          maxU32 < i.columnName.utf8ByteSize) := by
        simp only [Record.size,maxRecordSize,pageSize,headerSize,slotSize] at hs
        simp only [maxU32]
        omega
      simp only [if_neg hs,if_neg hlen,Except.ok.injEq,true_and]
      exact eq_comm

theorem indexHeader {p u a b c : ℕ} (hp : p ≤ maxU32) (hu : u ≤ maxU32) (ha : a ≤ maxU32)
    (hb : b ≤ maxU32) (hc : c ≤ maxU32) (rest : List UInt8) :
    let bytes := storeLE 4 kIndexRecordMagic ++ (storeLE 4 p ++ (storeLE 4 u ++ (storeLE 4 a ++
      (storeLE 4 b ++ (storeLE 4 c ++ rest)))))
    loadAt 4 bytes 0 = kIndexRecordMagic ∧ loadAt 4 bytes 4 = p ∧ loadAt 4 bytes 8 = u ∧
      loadAt 4 bytes 12 = a ∧ loadAt 4 bytes 16 = b ∧ loadAt 4 bytes 20 = c ∧
      bytes.drop 24 = rest := by
  intro bytes
  refine ⟨loadAt_four (by decide) _,?_,?_,?_,?_,?_,rfl⟩
  · rw [loadAt_skip (by decide)]
    exact loadAt_four hp _
  · rw [loadAt_skip (by decide),loadAt_skip (by decide)]
    exact loadAt_four hu _
  · rw [loadAt_skip (by decide),loadAt_skip (by decide),loadAt_skip (by decide)]
    exact loadAt_four ha _
  · rw [loadAt_skip (by decide),loadAt_skip (by decide),loadAt_skip (by decide),
      loadAt_skip (by decide)]
    exact loadAt_four hb _
  · rw [loadAt_skip (by decide),loadAt_skip (by decide),loadAt_skip (by decide),
      loadAt_skip (by decide),loadAt_skip (by decide)]
    exact loadAt_four hc _

/-- `DecodeIndex` reads back an index that `EncodeIndex` accepts. -/
theorem decodeIndex_indexBytes {i : IndexMetadata} (he : Catalog.encodeIndex i = .ok ())
    (hp : i.rootPageId ≤ maxU32) : decodeIndex (indexBytes i) = .ok i := by
  simp only [Catalog.encodeIndex] at he
  split at he
  · simp at he
  next hv =>
  split at he
  · simp [fail] at he
  next hsize =>
  have hs := hsize
  simp only [Record.size,maxRecordSize,pageSize,headerSize,slotSize] at hs
  have hbit : (if i.isUnique then 1 else 0) ≤ 1 := by split <;> decide
  obtain ⟨h0,h4,h8,h12,h16,h20,h24⟩ := indexHeader hp (le_trans hbit (by decide))
    (a := i.name.utf8ByteSize) (b := i.tableName.utf8ByteSize) (c := i.columnName.utf8ByteSize)
    (by simp only [maxU32]; omega) (by simp only [maxU32]; omega) (by simp only [maxU32]; omega)
    (textBytes i.name ++ (textBytes i.tableName ++ textBytes i.columnName))
  have hform : indexBytes i = storeLE 4 kIndexRecordMagic ++ (storeLE 4 i.rootPageId ++
      (storeLE 4 (if i.isUnique then 1 else 0) ++ (storeLE 4 i.name.utf8ByteSize ++
        (storeLE 4 i.tableName.utf8ByteSize ++ (storeLE 4 i.columnName.utf8ByteSize ++
          (textBytes i.name ++ (textBytes i.tableName ++ textBytes i.columnName))))))) := rfl
  rw [← hform] at h0 h4 h8 h12 h16 h20 h24
  have hlast := takeText_textBytes i.columnName [] "Catalog 索引列名越界"
  rw [List.append_nil] at hlast
  have hshort : ¬ ((indexBytes i).length < 24 ∨ !isIndexMagic (indexBytes i)) := by
    rw [indexBytes_length,isIndexMagic,h0]
    simp only [Record.size,decide_true,Bool.not_true,Bool.false_eq_true,or_false]
    omega
  have hflag : decide ((if i.isUnique then 1 else 0) = 1) = i.isUnique := by
    cases i.isUnique <;> rfl
  simp only [decodeIndex,if_neg hshort,h4,h8,h12,h16,h20,h24,if_neg (not_lt.mpr hbit),
    takeText_textBytes,hlast,ne_eq,not_true,if_false,hflag,hv]

theorem decodeTable_magic {bytes : List UInt8} {t : TableMetadata}
    (h : decodeTable bytes = .ok t) : 16 ≤ bytes.length ∧ isTableMagic bytes = true := by
  rw [decodeTable] at h
  by_cases hhead : bytes.length < 16 ∨ !isTableMagic bytes
  · rw [if_pos hhead] at h
    simp [fail] at h
  · obtain ⟨hl,hm⟩ := not_or.mp hhead
    exact ⟨not_lt.mp hl,by simpa using hm⟩

theorem decodeIndex_magic {bytes : List UInt8} {i : IndexMetadata}
    (h : decodeIndex bytes = .ok i) : 24 ≤ bytes.length ∧ isIndexMagic bytes = true := by
  rw [decodeIndex] at h
  by_cases hhead : bytes.length < 24 ∨ !isIndexMagic bytes
  · rw [if_pos hhead] at h
    simp [fail] at h
  · obtain ⟨hl,hm⟩ := not_or.mp hhead
    exact ⟨not_lt.mp hl,by simpa using hm⟩

theorem takeText_ok {bytes rest : List UInt8} {n : ℕ} {message s : String}
    (h : takeText bytes n message = .ok (s,rest)) :
    s.utf8ByteSize = n ∧ bytes.length = n + rest.length := by
  rw [takeText] at h
  by_cases hl : bytes.length < n
  · rw [if_pos hl] at h
    simp [fail] at h
  rw [if_neg hl] at h
  split at h
  · simp [fail] at h
  next t ht =>
  obtain ⟨rfl,rfl⟩ : t = s ∧ bytes.drop n = rest := by simpa using h
  rw [readText,String.fromUTF8?] at ht
  split at ht
  · obtain rfl := Option.some.inj ht
    have hsize : (bytes.take n).length = n := by
      rw [List.length_take]
      omega
    refine ⟨hsize,?_⟩
    rw [List.length_drop]
    omega
  · simp at ht

/-- An index record is as long as its names need. -/
theorem decodeIndex_length {bytes : List UInt8} {i : IndexMetadata}
    (h : decodeIndex bytes = .ok i) : bytes.length = (Record.index i).size := by
  have hl := (decodeIndex_magic h).1
  simp only [decodeIndex] at h
  split at h
  · simp [fail] at h
  split at h
  · simp [fail] at h
  split at h
  · simp at h
  next name rest₁ h₁ =>
  split at h
  · simp at h
  next table rest₂ h₂ =>
  split at h
  · simp at h
  next column rest₃ h₃ =>
  split at h
  · simp [fail] at h
  next hrest =>
  split at h
  · simp at h
  obtain rfl := Except.ok.inj h
  obtain ⟨hn,hn'⟩ := takeText_ok h₁
  obtain ⟨ht,ht'⟩ := takeText_ok h₂
  obtain ⟨hc,hc'⟩ := takeText_ok h₃
  have hnil : rest₃.length = 0 := by
    rw [not_not.mp hrest]
    rfl
  rw [List.length_drop] at hn'
  simp only [Record.size]
  omega

/-- What a decoded table record promises. -/
theorem decodeTable_ok {bytes : List UInt8} {t : TableMetadata}
    (h : decodeTable bytes = .ok t) : Catalog.decodeTable t = .ok () := by
  simp only [decodeTable] at h
  split at h
  · simp [fail] at h
  split at h
  · simp [fail] at h
  next hp =>
  split at h
  · simp at h
  split at h
  · simp at h
  split at h
  · simp [fail] at h
  split at h
  · simp at h
  next hv =>
  obtain rfl := Except.ok.inj h
  rw [Catalog.decodeTable,if_neg hp]
  exact hv

theorem decodeIndex_ok {bytes : List UInt8} {i : IndexMetadata}
    (h : decodeIndex bytes = .ok i) : validateIndexShape i = .ok () := by
  simp only [decodeIndex] at h
  split at h
  · simp [fail] at h
  split at h
  · simp [fail] at h
  split at h
  · simp at h
  split at h
  · simp at h
  split at h
  · simp at h
  split at h
  · simp [fail] at h
  split at h
  · simp at h
  next hv =>
  obtain rfl := Except.ok.inj h
  exact hv

end Codec
end Catalog
end OurSql
