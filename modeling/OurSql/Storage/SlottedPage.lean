import Mathlib
import OurSql.Common
import OurSql.Lib.Memory

/-! `SlottedPage` on the bytes of a page: header, slot directory growing up, records
growing down. The guard is valid, so `MarkDirty` succeeds. -/
namespace OurSql
namespace Storage.SlottedPage

open Bytes Memory

def kSize : ℕ := 4096
def kPageType : ℕ := 1
def kHeaderSize : ℕ := 32
def kSlotSize : ℕ := 12
def kMaxRecordSize : ℕ := kSize - kHeaderSize - kSlotSize
def kPageTypeOffset : ℕ := 0
def kSlotCountOffset : ℕ := 4
def kFreeStartOffset : ℕ := 8
def kFreeEndOffset : ℕ := 12
def kNextPageIdOffset : ℕ := 16
def kReservedOffset : ℕ := 20
def kDeletedSlot : ℕ := 0
def kUsedSlot : ℕ := 1
def maxSlots : ℕ := (kSize - kHeaderSize) / kSlotSize

def slotOffset (slot field : ℕ) : ℕ := kHeaderSize + slot * kSlotSize + field

def slotField (data : Mem) (slot field : ℕ) : ℕ := load data (slotOffset slot field)

def setSlotField (data : Mem) (slot field value : ℕ) : Mem :=
  store data (slotOffset slot field) value

/-- The three fields of a slot, in the order they are written. -/
def setSlot (data : Mem) (slot offset length state : ℕ) : Mem :=
  setSlotField (setSlotField (setSlotField data slot 0 offset) slot 4 length) slot 8 state

/-- The inner loop of `ValidateBytes`: the record of `slot` against one before it. -/
def overlaps (data : Mem) (slot prior : ℕ) : Bool :=
  slotField data prior 8 = kUsedSlot &&
    !(slotField data prior 0 + slotField data prior 4 ≤ slotField data slot 0) &&
    !(slotField data slot 0 + slotField data slot 4 ≤ slotField data prior 0)

def validateSlot (data : Mem) (freeStart freeEnd slot : ℕ) : Status :=
  let offset := slotField data slot 0
  let length := slotField data slot 4
  let state := slotField data slot 8
  if state ≠ kDeletedSlot ∧ state ≠ kUsedSlot then
    fail .invalidArgument ("Slotted Page 槽状态非法: " ++ toString slot)
  else if state = kDeletedSlot then
    if offset ≠ 0 ∨ length ≠ 0 then
      fail .invalidArgument ("已删除槽必须清空目录项: " ++ toString slot)
    else .ok ()
  else if offset < freeStart ∨ offset < freeEnd ∨ kSize < offset ∨ kSize < offset + length then
    fail .invalidArgument ("Slotted Page 记录边界非法: " ++ toString slot)
  else if (List.range slot).any (overlaps data slot) then
    fail .invalidArgument "Slotted Page 有重叠记录"
  else .ok ()

/-- The loop over the slots from `slot` on. -/
def validateSlots (data : Mem) (freeStart freeEnd : ℕ) : ℕ → ℕ → Status
  | _, 0 => .ok ()
  | slot, n+1 =>
    match validateSlot data freeStart freeEnd slot with
    | .error e => .error e
    | .ok () => validateSlots data freeStart freeEnd (slot + 1) n

def validateBytes (data : Mem) : Status :=
  let slotCount := load data kSlotCountOffset
  let freeStart := load data kFreeStartOffset
  let freeEnd := load data kFreeEndOffset
  if load data kPageTypeOffset ≠ kPageType then
    fail .invalidArgument "页面类型不是 Slotted Page"
  else if load data kReservedOffset ≠ 0 ∨ load data (kReservedOffset + 4) ≠ 0 ∨
      load data (kReservedOffset + 8) ≠ 0 then
    fail .invalidArgument "Slotted Page 保留字段必须为 0"
  else if maxSlots < slotCount then fail .invalidArgument "Slotted Page slot_count 越界"
  else if freeStart ≠ kHeaderSize + slotCount * kSlotSize ∨ freeEnd < freeStart ∨
      kSize < freeEnd then
    fail .invalidArgument "Slotted Page 空闲区边界非法"
  else if load data kNextPageIdOffset = 0 then
    fail .invalidArgument "Slotted Page next_page_id 不能指向 Page 0"
  else validateSlots data freeStart freeEnd 0 slotCount

def initializePage (data : Mem) (nextPageId : UInt32) : Mem × Status :=
  if nextPageId = 0 then (data,fail .invalidArgument "next_page_id 不能指向 Page 0")
  else
    let data := write data 0 (List.replicate kSize 0)
    let data := store data kPageTypeOffset kPageType
    let data := store data kSlotCountOffset 0
    let data := store data kFreeStartOffset kHeaderSize
    let data := store data kFreeEndOffset kSize
    (store data kNextPageIdOffset nextPageId.toNat,.ok ())

/-- The loop of `Compact` from `slot` on; `newFreeEnd` is where the last record moved. -/
def compactSlots (oldData : Mem) : ℕ → ℕ → Mem → ℕ → Mem × ℕ
  | _, 0, data, newFreeEnd => (data,newFreeEnd)
  | slot, n+1, data, newFreeEnd =>
    if slotField oldData slot 8 ≠ kUsedSlot then
      compactSlots oldData (slot + 1) n (setSlot data slot 0 0 kDeletedSlot) newFreeEnd
    else
      let length := slotField oldData slot 4
      let newFreeEnd := newFreeEnd - length
      let data := write data newFreeEnd (read oldData (slotField oldData slot 0) length)
      compactSlots oldData (slot + 1) n (setSlot data slot newFreeEnd length kUsedSlot) newFreeEnd

def compact (data : Mem) : Mem × Status :=
  match validateBytes data with
  | .error e => (data,.error e)
  | .ok () =>
    let freeStart := load data kFreeStartOffset
    let moved := compactSlots data 0 (load data kSlotCountOffset) data kSize
    let cleared := write moved.1 freeStart (List.replicate (moved.2 - freeStart) 0)
    (store cleared kFreeEndOffset moved.2,.ok ())

def reusableSlot (data : Mem) (slotCount : ℕ) : Option ℕ :=
  (List.range slotCount).find? fun slot => slotField data slot 8 = kDeletedSlot

def activeBytes (data : Mem) : ℕ → ℕ
  | 0 => 0
  | n+1 => activeBytes data n + if slotField data n 8 = kUsedSlot then slotField data n 4 else 0

/-- `new_free_start`: a reused slot takes no room in the directory. -/
def newFreeStart (slotCount : ℕ) (reusable : Option ℕ) : ℕ :=
  kHeaderSize + (slotCount + if reusable = none then 1 else 0) * kSlotSize

def hasContiguousSpace (slotCount freeEnd : ℕ) (reusable : Option ℕ) (size : ℕ) : Bool :=
  newFreeStart slotCount reusable ≤ freeEnd && size ≤ freeEnd - newFreeStart slotCount reusable

/-- The end of `InsertRecord`, where the record has room. -/
def placeRecord (data : Mem) (reusable : Option ℕ) (record : List UInt8) : Mem × Result ℕ :=
  let slotCount := load data kSlotCountOffset
  let newFreeEnd := load data kFreeEndOffset - record.length
  let target := reusable.getD slotCount
  let data := write data newFreeEnd record
  let data := setSlot data target newFreeEnd record.length kUsedSlot
  let data := if reusable = none then store data kSlotCountOffset (slotCount + 1) else data
  let data := store data kFreeStartOffset (newFreeStart slotCount reusable)
  (store data kFreeEndOffset newFreeEnd,.ok target)

def insertRecord (data : Mem) (record : List UInt8) : Mem × Result ℕ :=
  match validateBytes data with
  | .error e => (data,.error e)
  | .ok () =>
    if 4294967295 < record.length then
      (data,fail .invalidArgument "记录长度超过页面格式上限")
    else if kMaxRecordSize < record.length then
      (data,fail .recordTooLarge
        ("单条记录超过 Slotted Page 上限: " ++ toString kMaxRecordSize))
    else
      let slotCount := load data kSlotCountOffset
      let reusable := reusableSlot data slotCount
      let required := record.length + if reusable = none then kSlotSize else 0
      -- the subtraction wraps at 64 bits
      let totalFree := (18446744073709551616 + kSize - load data kFreeStartOffset -
        activeBytes data slotCount) % 18446744073709551616
      if totalFree < required then
        (data,fail .outOfSpace "页面没有足够的总空间容纳记录")
      else if reusable = none ∧ maxSlots ≤ slotCount then (data,fail .outOfSpace "槽目录已满")
      else if hasContiguousSpace slotCount (load data kFreeEndOffset) reusable record.length then
        placeRecord data reusable record
      else match compact data with
        | (data',.error e) => (data',.error e)
        | (data',.ok ()) =>
          if hasContiguousSpace (load data' kSlotCountOffset) (load data' kFreeEndOffset) reusable
              record.length then placeRecord data' reusable record
          else (data',fail .outOfSpace "整理后连续空间仍不足")

def getRecord (data : Mem) (slot : ℕ) : Result (List UInt8) :=
  match validateBytes data with
  | .error e => .error e
  | .ok () =>
    if load data kSlotCountOffset ≤ slot then
      fail .notFound ("slot_id 不存在: " ++ toString slot)
    else if slotField data slot 8 ≠ kUsedSlot then
      fail .notFound ("slot_id 已删除: " ++ toString slot)
    else .ok (read data (slotField data slot 0) (slotField data slot 4))

def deleteRecord (data : Mem) (slot : ℕ) : Mem × Status :=
  match validateBytes data with
  | .error e => (data,.error e)
  | .ok () =>
    if load data kSlotCountOffset ≤ slot then
      (data,fail .notFound ("slot_id 不存在: " ++ toString slot))
    else if slotField data slot 8 ≠ kUsedSlot then
      (data,fail .notFound ("slot_id 已删除: " ++ toString slot))
    else (setSlot data slot 0 0 kDeletedSlot,.ok ())

def setNextPageId (data : Mem) (nextPageId : UInt32) : Mem × Status :=
  if nextPageId = 0 then (data,fail .invalidArgument "next_page_id 不能指向 Page 0")
  else match validateBytes data with
    | .error e => (data,.error e)
    | .ok () => (store data kNextPageIdOffset nextPageId.toNat,.ok ())

def slotCount (data : Mem) : Result ℕ :=
  (validateBytes data).map fun _ => load data kSlotCountOffset

def nextPageId (data : Mem) : Result PageId :=
  (validateBytes data).map fun _ => load data kNextPageIdOffset

/-! ### What the bytes of one slot depend on -/

theorem slotField_congr {data data' : Mem} {s f : ℕ} (hf : f ≤ 8)
    (h : ∀ i, 32 + s * 12 ≤ i → i < 32 + s * 12 + 12 → data i = data' i) :
    slotField data s f = slotField data' s f := by
  rw [slotField,slotField,load,load]
  congr 1
  apply read_congr
  intro i hi hi'
  simp only [slotOffset,kHeaderSize,kSlotSize] at hi hi'
  exact h i (by omega) (by omega)

theorem load_congr {data data' : Mem} {o : ℕ} (h : ∀ i, o ≤ i → i < o + 4 → data i = data' i) :
    load data o = load data' o := by
  rw [load,load,read_congr h]

theorem setSlot_outside {data : Mem} {t offset length state i : ℕ}
    (h : i < 32 + t * 12 ∨ 32 + t * 12 + 12 ≤ i) : setSlot data t offset length state i = data i := by
  simp only [setSlot,setSlotField,slotOffset,kHeaderSize,kSlotSize]
  rw [store_outside (by omega),store_outside (by omega),store_outside (by omega)]

theorem setSlot_fields (data : Mem) (t : ℕ) {offset length state : ℕ} (ho : offset < 4294967296)
    (hl : length < 4294967296) (hs : state < 4294967296) :
    slotField (setSlot data t offset length state) t 0 = offset ∧
      slotField (setSlot data t offset length state) t 4 = length ∧
      slotField (setSlot data t offset length state) t 8 = state := by
  simp only [slotField,setSlot,setSlotField,slotOffset,kHeaderSize,kSlotSize]
  refine ⟨?_,?_,load_store hs⟩
  · rw [load_store_apart (by omega),load_store_apart (by omega),load_store ho]
  · rw [load_store_apart (by omega),load_store hl]

theorem kUsedSlot_lt : kUsedSlot < 4294967296 := by decide
theorem kDeletedSlot_lt : kDeletedSlot < 4294967296 := by decide
theorem zero_lt : 0 < 4294967296 := by decide

/-- A page as the operations leave it: `count` slots, records from `freeEnd` on. -/
structure Layout (data : Mem) (count freeEnd : ℕ) : Prop where
  pageType : load data 0 = 1
  slotCount : load data 4 = count
  freeStart : load data 8 = 32 + count * 12
  freeEnd_eq : load data 12 = freeEnd
  next : load data 16 ≠ 0
  reserved : load data 20 = 0 ∧ load data 24 = 0 ∧ load data 28 = 0
  room : 32 + count * 12 ≤ freeEnd
  fits : freeEnd + activeBytes data count ≤ 4096
  deleted : ∀ s < count, slotField data s 8 ≠ 1 →
    slotField data s 8 = 0 ∧ slotField data s 0 = 0 ∧ slotField data s 4 = 0
  bounds : ∀ s < count, slotField data s 8 = 1 →
    freeEnd ≤ slotField data s 0 ∧ slotField data s 0 + slotField data s 4 ≤ 4096
  apart : ∀ s < count, ∀ t < count, s ≠ t → slotField data s 8 = 1 → slotField data t 8 = 1 →
    slotField data s 0 + slotField data s 4 ≤ slotField data t 0 ∨
      slotField data t 0 + slotField data t 4 ≤ slotField data s 0

/-- The bytes that only `SetNextPageId` and `Initialize` write. -/
def Outside (i : ℕ) : Prop := 4096 ≤ i ∨ 16 ≤ i ∧ i < 32

/-- The record in a live slot. -/
def content (data : Mem) (slot : ℕ) : Option (List UInt8) :=
  if slot < load data 4 ∧ slotField data slot 8 = 1 then
    some (read data (slotField data slot 0) (slotField data slot 4))
  else none

theorem validateSlots_ok {data : Mem} {freeStart freeEnd : ℕ} :
    ∀ (n slot : ℕ), (∀ s, slot ≤ s → s < slot + n → validateSlot data freeStart freeEnd s = .ok ()) →
      validateSlots data freeStart freeEnd slot n = .ok ()
  | 0, _, _ => rfl
  | n+1, slot, h => by
    rw [validateSlots,h slot (by omega) (by omega)]
    exact validateSlots_ok n (slot + 1) fun s hs hs' => h s (by omega) (by omega)

theorem Layout.validSlot {data : Mem} {count freeEnd s : ℕ} (h : Layout data count freeEnd)
    (hs : s < count) : validateSlot data (32 + count * 12) freeEnd s = .ok () := by
  have hroom := h.room
  unfold validateSlot
  by_cases hu : slotField data s 8 = 1
  · have hb := h.bounds s hs hu
    have hover : (List.range s).any (overlaps data s) = false := by
      rw [List.any_eq_false]
      intro t ht
      rw [List.mem_range] at ht
      simp only [overlaps,Bool.not_eq_true,Bool.and_eq_false_iff,Bool.not_eq_false',
        decide_eq_true_eq,kUsedSlot]
      by_cases hut : slotField data t 8 = 1
      · rcases h.apart t (by omega) s hs (by omega) hut hu with h' | h'
        · exact Or.inl (Or.inr h')
        · exact Or.inr h'
      · exact Or.inl (Or.inl (decide_eq_false hut))
    have hbound : ¬ (slotField data s 0 < 32 + count * 12 ∨ slotField data s 0 < freeEnd ∨
        kSize < slotField data s 0 ∨ kSize < slotField data s 0 + slotField data s 4) := by
      simp only [kSize]
      omega
    simp only [hu,hover,hbound,kDeletedSlot,kUsedSlot,if_false,ne_eq,not_true,and_false,
      Bool.false_eq_true,Nat.one_ne_zero]
  · obtain ⟨h8,h0,h4⟩ := h.deleted s hs hu
    simp [h8,h0,h4,kDeletedSlot]

theorem Layout.valid {data : Mem} {count freeEnd : ℕ} (h : Layout data count freeEnd) :
    validateBytes data = .ok () := by
  have hroom := h.room
  have hfits := h.fits
  have hslots : validateSlots data (32 + count * 12) freeEnd 0 count = .ok () :=
    validateSlots_ok count 0 fun s _ hs => h.validSlot (by omega)
  have hmax : ¬ maxSlots < count := by
    simp only [maxSlots,kSize,kHeaderSize,kSlotSize]
    omega
  have hbound : ¬ (32 + count * 12 ≠ kHeaderSize + count * kSlotSize ∨ freeEnd < 32 + count * 12 ∨
      kSize < freeEnd) := by
    simp only [kSize,kHeaderSize,kSlotSize]
    omega
  simp only [validateBytes,kPageTypeOffset,kSlotCountOffset,kFreeStartOffset,kFreeEndOffset,
    kNextPageIdOffset,kReservedOffset,h.pageType,h.slotCount,h.freeStart,h.freeEnd_eq,h.reserved,
    h.next,hmax,hbound,kPageType,if_false,ne_eq,not_true,or_self,hslots]

/-- `GetRecord` reads the content of the slot. -/
theorem Layout.getRecord {data : Mem} {count freeEnd : ℕ} (h : Layout data count freeEnd)
    (slot : ℕ) : (∀ r, getRecord data slot = .ok r ↔ content data slot = some r) ∧
      (content data slot = none → ∃ message, getRecord data slot = fail .notFound message) := by
  rw [SlottedPage.getRecord,h.valid]
  simp only [kSlotCountOffset,content,h.slotCount,kUsedSlot]
  by_cases hs : slot < count
  · have hle : ¬ count ≤ slot := by omega
    by_cases hu : slotField data slot 8 = 1
    · simp [hs,hle,hu]
    · simp [hs,hle,hu,fail]
  · have hle : count ≤ slot := by omega
    simp [hs,hle,fail]

theorem activeBytes_congr {data data' : Mem} : ∀ {n : ℕ}, (∀ s < n,
    slotField data' s 8 = slotField data s 8 ∧ slotField data' s 4 = slotField data s 4) →
    activeBytes data' n = activeBytes data n
  | 0, _ => rfl
  | n+1, h => by
    rw [activeBytes,activeBytes,(h n (by omega)).1,(h n (by omega)).2,
      activeBytes_congr fun s hs => h s (by omega)]

theorem activeBytes_mono (data : Mem) {m n : ℕ} (h : m ≤ n) :
    activeBytes data m ≤ activeBytes data n := by
  induction h with
  | refl => exact Nat.le_refl _
  | step _ ih => exact Nat.le_trans ih (Nat.le_add_right _ _)

/-- A free slot that is filled adds the bytes of its record. -/
theorem activeBytes_fill {data data' : Mem} {t len : ℕ} (hfree : slotField data t 8 ≠ 1)
    (hused : slotField data' t 8 = 1) (hlen : slotField data' t 4 = len) :
    ∀ {n : ℕ}, t < n → (∀ s < n, s ≠ t →
      slotField data' s 8 = slotField data s 8 ∧ slotField data' s 4 = slotField data s 4) →
      activeBytes data' n = activeBytes data n + len := by
  intro n
  induction n with
  | zero => intro h; omega
  | succ n ih =>
    intro ht h
    rw [activeBytes,activeBytes]
    by_cases hn : n = t
    · subst hn
      rw [activeBytes_congr fun s hs => h s (by omega) (by omega)]
      simp [kUsedSlot,hfree,hused,hlen]
    · rw [ih (by omega) fun s hs hst => h s (by omega) hst,(h n (by omega) hn).1,
        (h n (by omega) hn).2]
      omega

/-- The bytes a new record leaves alone: all but the header's counters, its slot and itself. -/
def Untouched (data data' : Mem) (target newEnd size : ℕ) : Prop :=
  ∀ i, i < 4 ∨ 16 ≤ i → i < 32 + target * 12 ∨ 32 + target * 12 + 12 ≤ i →
    i < newEnd ∨ newEnd + size ≤ i → data' i = data i

/-- `data'` is `data` after a record has gone to slot `target`: the record ends where the free
bytes ended, and the directory may have grown by that slot. -/
structure Placed (data data' : Mem) (count count' freeEnd target newEnd : ℕ)
    (record : List UInt8) : Prop where
  within : target < count'
  grows : count ≤ count'
  others : ∀ s < count', s ≠ target → s < count
  free : target < count → slotField data target 8 ≠ 1
  room : 32 + count' * 12 ≤ newEnd
  bottom : newEnd + record.length = freeEnd
  same : Untouched data data' target newEnd record.length
  slotCount : load data' 4 = count'
  freeStart : load data' 8 = 32 + count' * 12
  freeEnd_eq : load data' 12 = newEnd
  offset : slotField data' target 0 = newEnd
  length : slotField data' target 4 = record.length
  state : slotField data' target 8 = 1
  record_eq : read data' newEnd record.length = record

section

variable {data data' : Mem} {count count' freeEnd target newEnd : ℕ} {record : List UInt8}

theorem Placed.slot (h : Placed data data' count count' freeEnd target newEnd record)
    {s : ℕ} (hs : s < count') (hst : s ≠ target) {f : ℕ} (hf : f ≤ 8) :
    slotField data' s f = slotField data s f := by
  have hroom := h.room
  apply slotField_congr hf
  intro i hi hi'
  exact h.same i (by omega) (by omega) (by omega)

theorem Placed.activeBytes (h : Placed data data' count count' freeEnd target newEnd record) :
    activeBytes data' count' = activeBytes data count + record.length := by
  have hwithin := h.within
  have hgrows := h.grows
  by_cases ht : target < count
  · obtain rfl : count' = count := by
      by_contra hne
      have := h.others count (by omega) (by omega)
      omega
    exact activeBytes_fill (h.free ht) h.state h.length ht fun s hs hst =>
      ⟨h.slot hs hst (by omega),h.slot hs hst (by omega)⟩
  · -- a new slot at the end of the directory
    obtain rfl : target = count := by
      by_contra hne
      have := h.others count (by omega) (fun h => hne h.symm)
      omega
    obtain rfl : count' = target + 1 := by
      by_contra hne
      have := h.others (target + 1) (by omega) (by omega)
      omega
    rw [SlottedPage.activeBytes,h.state,h.length]
    rw [activeBytes_congr fun s hs =>
      ⟨h.slot (by omega) (by omega) (by omega),h.slot (by omega) (by omega) (by omega)⟩]
    simp [kUsedSlot]

/-- The other records lie above the new one. -/
theorem Placed.above (h : Placed data data' count count' freeEnd target newEnd record)
    (hl : Layout data count freeEnd) {s : ℕ} (hs : s < count') (hst : s ≠ target)
    (hu : slotField data' s 8 = 1) :
    freeEnd ≤ slotField data' s 0 ∧ slotField data' s 0 + slotField data' s 4 ≤ 4096 := by
  rw [h.slot hs hst (by omega)] at hu
  rw [h.slot hs hst (by omega),h.slot hs hst (by omega)]
  exact hl.bounds s (h.others s hs hst) hu

theorem Placed.content_other (h : Placed data data' count count' freeEnd target newEnd record)
    (hl : Layout data count freeEnd) {s : ℕ} (hst : s ≠ target) :
    content data' s = content data s := by
  have hwithin := h.within
  have hroom := h.room
  have hbottom := h.bottom
  have hgrows := h.grows
  simp only [content,h.slotCount,hl.slotCount]
  by_cases hs : s < count'
  · have hsc := h.others s hs hst
    rw [h.slot hs hst (by omega),h.slot hs hst (by omega),h.slot hs hst (by omega)]
    by_cases hu : slotField data s 8 = 1
    · rw [if_pos ⟨hs,hu⟩,if_pos ⟨hsc,hu⟩]
      have hb := hl.bounds s hsc hu
      congr 1
      apply read_congr
      intro i hi hi'
      exact h.same i (by omega) (by omega) (by omega)
    · rw [if_neg (fun h => hu h.2),if_neg (fun h => hu h.2)]
  · rw [if_neg (fun h => hs h.1),if_neg (fun h => hs (by omega))]

/-- A page that has taken a record is laid out again. -/
theorem Layout.placed (hl : Layout data count freeEnd)
    (h : Placed data data' count count' freeEnd target newEnd record) :
    Layout data' count' newEnd := by
  have hfits := hl.fits
  have hactive := h.activeBytes
  have hroom := h.room
  have hbottom := h.bottom
  have hheader : ∀ o, o + 4 ≤ 4 ∨ (16 ≤ o ∧ o + 4 ≤ 32) → load data' o = load data o := by
    intro o ho
    apply load_congr
    intro i hi hi'
    exact h.same i (by omega) (by omega) (by omega)
  constructor
  · rw [hheader 0 (by omega),hl.pageType]
  · exact h.slotCount
  · exact h.freeStart
  · exact h.freeEnd_eq
  · rw [hheader 16 (by omega)]
    exact hl.next
  · rw [hheader 20 (by omega),hheader 24 (by omega),hheader 28 (by omega)]
    exact hl.reserved
  · exact hroom
  · omega
  · intro s hs hu
    by_cases hst : s = target
    · exact absurd (hst ▸ h.state) hu
    · rw [h.slot hs hst (by omega)] at hu
      rw [h.slot hs hst (by omega),h.slot hs hst (by omega),h.slot hs hst (by omega)]
      exact hl.deleted s (h.others s hs hst) hu
  · intro s hs hu
    by_cases hst : s = target
    · rw [hst,h.offset,h.length]
      omega
    · have := h.above hl hs hst hu
      omega
  · intro s hs t ht hst hus hut
    by_cases h1 : s = target
    · rw [h1,h.offset,h.length]
      have := h.above hl ht (fun he => hst (h1.trans he.symm)) hut
      omega
    · by_cases h2 : t = target
      · rw [h2,h.offset,h.length]
        have := h.above hl hs h1 hus
        omega
      · rw [h.slot hs h1 (by omega)] at hus
        rw [h.slot ht h2 (by omega)] at hut
        rw [h.slot hs h1 (by omega),h.slot hs h1 (by omega),h.slot ht h2 (by omega),
          h.slot ht h2 (by omega)]
        exact hl.apart s (h.others s hs h1) t (h.others t ht h2) hst hus hut

theorem Placed.content_target (h : Placed data data' count count' freeEnd target newEnd record)
    (hl : Layout data count freeEnd) : content data target = none := by
  simp only [content,hl.slotCount]
  rw [if_neg (fun hu => h.free hu.1 hu.2)]

/-- Only the record's own slot has changed. -/
theorem Placed.content_eq (h : Placed data data' count count' freeEnd target newEnd record)
    (hl : Layout data count freeEnd) :
    content data' = Function.update (content data) target (some record) := by
  funext s
  by_cases hst : s = target
  · subst hst
    simp [content,h.slotCount,h.within,h.state,h.offset,h.length,h.record_eq]
  · rw [h.content_other hl hst,Function.update_of_ne hst]

end

theorem reusableSlot_some {data : Mem} {count t : ℕ} (h : reusableSlot data count = some t) :
    t < count ∧ slotField data t 8 = 0 := by
  have hm := List.mem_of_find?_eq_some h
  have hp := List.find?_some h
  exact ⟨List.mem_range.mp hm,of_decide_eq_true hp⟩

/-- `InsertRecord` at its end: the record has room between directory and records. -/
theorem Layout.placeRecord {data : Mem} {count freeEnd : ℕ} {reusable : Option ℕ}
    {record : List UInt8} (hl : Layout data count freeEnd)
    (hreuse : ∀ t, reusable = some t → t < count ∧ slotField data t 8 = 0)
    (hroom : newFreeStart count reusable + record.length ≤ freeEnd) :
    ∃ count' target, (SlottedPage.placeRecord data reusable record).2 = .ok target ∧
      Layout (SlottedPage.placeRecord data reusable record).1 count' (freeEnd - record.length) ∧
      content data target = none ∧
      content (SlottedPage.placeRecord data reusable record).1 =
        Function.update (content data) target (some record) ∧
      ∀ i, Outside i → (SlottedPage.placeRecord data reusable record).1 i = data i := by
  have hfits := hl.fits
  have hcount := hl.slotCount
  have hfree := hl.freeEnd_eq
  let target := reusable.getD count
  let newEnd := freeEnd - record.length
  let count' := count + if reusable = none then 1 else 0
  have hstart : newFreeStart count reusable = 32 + count' * 12 := by
    simp only [newFreeStart,kHeaderSize,kSlotSize,count']
  have htarget : target < count' := by
    cases hr : reusable with
    | none => simp [target,count',hr]
    | some t => simpa [target,count',hr] using (hreuse t hr).1
  have hnew : ∀ s < count', s ≠ target → s < count := by
    intro s hs hst
    cases hr : reusable with
    | none => simp only [target,count',hr,if_true,Option.getD_none] at hs hst; omega
    | some t => simpa [count',hr] using hs
  let data1 := write data newEnd record
  let data2 := setSlot data1 target newEnd record.length kUsedSlot
  let data3 := if reusable = none then store data2 4 (count + 1) else data2
  let data4 := store data3 8 (newFreeStart count reusable)
  let data5 := store data4 12 newEnd
  have hresult : SlottedPage.placeRecord data reusable record = (data5,.ok target) := by
    simp only [SlottedPage.placeRecord,kSlotCountOffset,kFreeEndOffset,kFreeStartOffset,hcount,hfree,
      data5,data4,data3,data2,data1,target,newEnd]
  have hstores : ∀ i, i < 4 ∨ 16 ≤ i → data5 i = data2 i := by
    intro i hi
    have h3 : data3 i = data2 i := by
      by_cases hr : reusable = none
      · simp only [data3,if_pos hr]
        exact store_outside (by omega)
      · simp only [data3,if_neg hr]
    simp only [data5,data4]
    rw [store_outside (by omega),store_outside (by omega),h3]
  have hsame : Untouched data data5 target newEnd record.length := by
    intro i hi hs hr
    rw [hstores i hi]
    simp only [data2,data1]
    rw [setSlot_outside hs,write_outside (by omega)]
  have hend : newEnd < 4294967296 := by omega
  have hlen : record.length < 4294967296 := by omega
  have hfields := setSlot_fields data1 target hend hlen kUsedSlot_lt
  have hslot : ∀ f ≤ 8, slotField data5 target f = slotField data2 target f := by
    intro f hf
    apply slotField_congr hf
    intro i hi hi'
    exact hstores i (by omega)
  have h4 : load data5 4 = count' := by
    simp only [data5,data4]
    rw [load_store_apart (by omega),load_store_apart (by omega)]
    by_cases hr : reusable = none
    · simp only [data3,if_pos hr,count']
      exact load_store (by omega)
    · simp only [data3,if_neg hr,count',Nat.add_zero]
      rw [← hcount]
      apply load_congr
      intro i hi hi'
      simp only [data2,data1]
      rw [setSlot_outside (by omega),write_outside (by omega)]
  have hbottom : newEnd + record.length = freeEnd := by omega
  have hread : read data5 newEnd record.length = record := by
    have h : read data5 newEnd record.length = read data1 newEnd record.length := by
      apply read_congr
      intro i hi hi'
      rw [hstores i (by omega)]
      exact setSlot_outside (by omega)
    rw [h]
    exact read_write data newEnd record
  have hplaced : Placed data data5 count count' freeEnd target newEnd record := by
    refine ⟨htarget,by simp only [count']; omega,hnew,?_,by omega,hbottom,hsame,h4,?_,
      load_store (by omega),(hslot 0 (by omega)).trans hfields.1,
      (hslot 4 (by omega)).trans hfields.2.1,(hslot 8 (by omega)).trans hfields.2.2,hread⟩
    · intro ht
      cases hr : reusable with
      | none => simp [target,hr] at ht
      | some t =>
        have h0 := (hreuse t hr).2
        simp only [target,hr,Option.getD_some]
        omega
    · simp only [data5,data4]
      rw [load_store_apart (by omega),load_store (by omega),hstart]
  rw [hresult]
  refine ⟨count',target,rfl,hl.placed hplaced,hplaced.content_target hl,hplaced.content_eq hl,?_⟩
  intro i hi
  simp only [Outside] at hi
  exact hsame i (by omega) (by omega) (by omega)

/-- A deleted slot keeps its place in the directory. -/
theorem Layout.deleteSlot {data : Mem} {count freeEnd t : ℕ} (hl : Layout data count freeEnd)
    (ht : t < count) : Layout (setSlot data t 0 0 kDeletedSlot) count freeEnd ∧
      content (setSlot data t 0 0 kDeletedSlot) = Function.update (content data) t none ∧
      ∀ i, Outside i → setSlot data t 0 0 kDeletedSlot i = data i := by
  have hroom := hl.room
  have hfits := hl.fits
  have hheader : ∀ o, o + 4 ≤ 32 → load (setSlot data t 0 0 kDeletedSlot) o = load data o := by
    intro o ho
    apply load_congr
    intro i hi hi'
    exact setSlot_outside (by omega)
  have hslot : ∀ s, s ≠ t → ∀ f ≤ 8,
      slotField (setSlot data t 0 0 kDeletedSlot) s f = slotField data s f := by
    intro s hst f hf
    apply slotField_congr hf
    intro i hi hi'
    exact setSlot_outside (by omega)
  have hfields := setSlot_fields data t zero_lt zero_lt kDeletedSlot_lt
  have hunused : slotField (setSlot data t 0 0 kDeletedSlot) t 8 ≠ 1 := by
    rw [hfields.2.2]
    decide
  have hactive : activeBytes (setSlot data t 0 0 kDeletedSlot) count ≤ activeBytes data count := by
    generalize count = n
    induction n with
    | zero => exact Nat.le_refl _
    | succ n ih =>
      rw [activeBytes,activeBytes]
      by_cases hn : n = t
      · subst hn
        rw [hfields.2.1,ite_self,Nat.add_zero]
        exact Nat.le_trans ih (Nat.le_add_right _ _)
      · rw [hslot n hn 8 (by omega),hslot n hn 4 (by omega)]
        omega
  refine ⟨?_,?_,?_⟩
  · constructor
    · rw [hheader 0 (by omega),hl.pageType]
    · rw [hheader 4 (by omega),hl.slotCount]
    · rw [hheader 8 (by omega),hl.freeStart]
    · rw [hheader 12 (by omega),hl.freeEnd_eq]
    · rw [hheader 16 (by omega)]
      exact hl.next
    · rw [hheader 20 (by omega),hheader 24 (by omega),hheader 28 (by omega)]
      exact hl.reserved
    · exact hroom
    · omega
    · intro s hs hu
      by_cases hst : s = t
      · subst hst
        exact ⟨hfields.2.2,hfields.1,hfields.2.1⟩
      · rw [hslot s hst 8 (by omega)] at hu
        rw [hslot s hst 8 (by omega),hslot s hst 0 (by omega),hslot s hst 4 (by omega)]
        exact hl.deleted s hs hu
    · intro s hs hu
      by_cases hst : s = t
      · exact absurd (hst ▸ hu) hunused
      · rw [hslot s hst 8 (by omega)] at hu
        rw [hslot s hst 0 (by omega),hslot s hst 4 (by omega)]
        exact hl.bounds s hs hu
    · intro s hs u hu hsu hus huu
      have h1 : s ≠ t := fun h => hunused (h ▸ hus)
      have h2 : u ≠ t := fun h => hunused (h ▸ huu)
      rw [hslot s h1 8 (by omega)] at hus
      rw [hslot u h2 8 (by omega)] at huu
      rw [hslot s h1 0 (by omega),hslot s h1 4 (by omega),hslot u h2 0 (by omega),
        hslot u h2 4 (by omega)]
      exact hl.apart s hs u hu hsu hus huu
  · funext s
    by_cases hst : s = t
    · subst hst
      simp [content,hunused]
    · rw [Function.update_of_ne hst]
      simp only [content,hheader 4 (by omega),hslot s hst 8 (by omega),hslot s hst 0 (by omega),
        hslot s hst 4 (by omega),hl.slotCount]
      by_cases hu : s < count ∧ slotField data s 8 = 1
      · rw [if_pos hu,if_pos hu]
        have hb := hl.bounds s hu.1 hu.2
        congr 1
        apply read_congr
        intro i hi hi'
        exact setSlot_outside (by omega)
      · rw [if_neg hu,if_neg hu]
  · intro i hi
    simp only [Outside] at hi
    exact setSlot_outside (by omega)

/-- `DeleteRecord` knows the live slots from the others. -/
theorem Layout.deleteRecord {data : Mem} {count freeEnd : ℕ} (hl : Layout data count freeEnd)
    (slot : ℕ) : (content data slot = none ∧
      ∃ message, SlottedPage.deleteRecord data slot = (data,fail .notFound message)) ∨
    ∃ data', content data slot ≠ none ∧ SlottedPage.deleteRecord data slot = (data',.ok ()) ∧
      Layout data' count freeEnd ∧ content data' = Function.update (content data) slot none ∧
      ∀ i, Outside i → data' i = data i := by
  simp only [SlottedPage.deleteRecord,hl.valid,kSlotCountOffset,hl.slotCount,content]
  by_cases hs : count ≤ slot
  · rw [if_pos hs,if_neg (fun h => by omega)]
    exact Or.inl ⟨rfl,_,rfl⟩
  rw [if_neg hs]
  by_cases hu : slotField data slot 8 ≠ kUsedSlot
  · rw [if_pos hu,if_neg (fun h => hu h.2)]
    exact Or.inl ⟨rfl,_,rfl⟩
  · rw [if_neg hu,if_pos ⟨by omega,not_not.mp hu⟩]
    obtain ⟨hlay,hcont,hout⟩ := hl.deleteSlot (t := slot) (by omega)
    exact Or.inr ⟨_,Option.some_ne_none _,rfl,hlay,hcont,hout⟩

/-- A header field that the layout does not read may change. -/
theorem Layout.setNext {data : Mem} {count freeEnd next : ℕ} (hl : Layout data count freeEnd)
    (hn : next ≠ 0) (hlt : next < 4294967296) : Layout (store data 16 next) count freeEnd ∧
      content (store data 16 next) = content data ∧
      ∀ i, 4096 ≤ i → store data 16 next i = data i := by
  have hslot : ∀ s, ∀ f ≤ 8, slotField (store data 16 next) s f = slotField data s f := by
    intro s f hf
    apply slotField_congr hf
    intro i hi hi'
    exact store_outside (by omega)
  have hroom := hl.room
  have hactive : activeBytes (store data 16 next) count = activeBytes data count :=
    activeBytes_congr fun s _ => ⟨hslot s 8 (by omega),hslot s 4 (by omega)⟩
  refine ⟨?_,?_,?_⟩
  · constructor
    · rw [load_store_apart (by omega),hl.pageType]
    · rw [load_store_apart (by omega),hl.slotCount]
    · rw [load_store_apart (by omega),hl.freeStart]
    · rw [load_store_apart (by omega),hl.freeEnd_eq]
    · rw [load_store hlt]
      exact hn
    · rw [load_store_apart (by omega),load_store_apart (by omega),load_store_apart (by omega)]
      exact hl.reserved
    · exact hroom
    · rw [hactive]
      exact hl.fits
    · intro s hs
      rw [hslot s 8 (by omega),hslot s 0 (by omega),hslot s 4 (by omega)]
      exact hl.deleted s hs
    · intro s hs
      rw [hslot s 8 (by omega),hslot s 0 (by omega),hslot s 4 (by omega)]
      exact hl.bounds s hs
    · intro s hs t ht
      rw [hslot s 8 (by omega),hslot s 0 (by omega),hslot s 4 (by omega),hslot t 8 (by omega),
        hslot t 0 (by omega),hslot t 4 (by omega)]
      exact hl.apart s hs t ht
  · funext s
    simp only [content,hslot s 8 (by omega),hslot s 0 (by omega),hslot s 4 (by omega),
      hl.slotCount,load_store_apart (m := data) (v := next) (a := 4) (o := 16) (by omega)]
    by_cases hu : s < count ∧ slotField data s 8 = 1
    · rw [if_pos hu,if_pos hu]
      have hb := hl.bounds s hu.1 hu.2
      rw [read_store_apart (by omega)]
    · rw [if_neg hu,if_neg hu]
  · intro i hi
    exact store_outside (by omega)

/-- The state of `Compact`'s loop before slot `k`: the slots before it point at moved copies
of their records above `e`, and nothing else has been lost. -/
structure Moving (old data : Mem) (count k e : ℕ) : Prop where
  header : ∀ i < 32, data i = old i
  later : ∀ i, 32 + k * 12 ≤ i → i < 32 + count * 12 → data i = old i
  beyond : ∀ i, 4096 ≤ i → data i = old i
  used : e + activeBytes old k = 4096
  deleted : ∀ s < k, slotField old s 8 ≠ 1 →
    slotField data s 8 = 0 ∧ slotField data s 0 = 0 ∧ slotField data s 4 = 0
  moved : ∀ s < k, slotField old s 8 = 1 → slotField data s 8 = 1 ∧
    slotField data s 4 = slotField old s 4 ∧ e ≤ slotField data s 0 ∧
    slotField data s 0 + slotField data s 4 ≤ 4096 ∧
    read data (slotField data s 0) (slotField data s 4) =
      read old (slotField old s 0) (slotField old s 4)
  apart : ∀ s t, s < t → t < k → slotField old s 8 = 1 → slotField old t 8 = 1 →
    slotField data t 0 + slotField data t 4 ≤ slotField data s 0

theorem Moving.start (old : Mem) (count : ℕ) : Moving old old count 0 4096 :=
  ⟨fun _ _ => rfl,fun _ _ _ => rfl,fun _ _ => rfl,rfl,by omega,by omega,by omega⟩

/-- A turn writes slot `k` and the bytes from `e'` up to `e`, so what the slots below `k` and
their records hold stays. -/
theorem Moving.extend {old data data' : Mem} {count k e e' : ℕ} (h : Moving old data count k e)
    (hk : k < count) (hroom : 32 + count * 12 ≤ e') (he : e' ≤ e)
    (hused : e' + activeBytes old (k + 1) = 4096)
    (hsame : ∀ i, (i < 32 + k * 12 ∨ 32 + k * 12 + 12 ≤ i) → (i < e' ∨ e ≤ i) → data' i = data i)
    (hdeleted : slotField old k 8 ≠ 1 →
      slotField data' k 8 = 0 ∧ slotField data' k 0 = 0 ∧ slotField data' k 4 = 0)
    (hmoved : slotField old k 8 = 1 → slotField data' k 8 = 1 ∧
      slotField data' k 4 = slotField old k 4 ∧ e' ≤ slotField data' k 0 ∧
      slotField data' k 0 + slotField data' k 4 ≤ e ∧
      read data' (slotField data' k 0) (slotField data' k 4) =
        read old (slotField old k 0) (slotField old k 4)) :
    Moving old data' count (k + 1) e' := by
  have hbound : e ≤ 4096 := by have := h.used; omega
  have hslot : ∀ s < k, ∀ f ≤ 8, slotField data' s f = slotField data s f := by
    intro s hs f hf
    apply slotField_congr hf
    intro i hi hi'
    exact hsame i (by omega) (by omega)
  constructor
  · intro i hi
    rw [hsame i (by omega) (by omega),h.header i hi]
  · intro i hi hi'
    rw [hsame i (by omega) (by omega),h.later i (by omega) hi']
  · intro i hi
    rw [hsame i (by omega) (by omega),h.beyond i hi]
  · exact hused
  · intro s hs hus
    by_cases hsk : s < k
    · rw [hslot s hsk 8 (by omega),hslot s hsk 0 (by omega),hslot s hsk 4 (by omega)]
      exact h.deleted s hsk hus
    · obtain rfl : s = k := by omega
      exact hdeleted hus
  · intro s hs hus
    by_cases hsk : s < k
    · rw [hslot s hsk 8 (by omega),hslot s hsk 0 (by omega),hslot s hsk 4 (by omega)]
      obtain ⟨h8,h4,h0,hend,hread⟩ := h.moved s hsk hus
      refine ⟨h8,h4,by omega,hend,?_⟩
      rw [← hread]
      apply read_congr
      intro i hi hi'
      exact hsame i (by omega) (by omega)
    · obtain rfl : s = k := by omega
      obtain ⟨h8,h4,h0,hend,hread⟩ := hmoved hus
      exact ⟨h8,h4,h0,by omega,hread⟩
  · intro s t hst ht hus hut
    by_cases htk : t < k
    · rw [hslot t htk 0 (by omega),hslot t htk 4 (by omega),hslot s (by omega) 0 (by omega)]
      exact h.apart s t hst htk hus hut
    · -- the record of slot `k` lies under `e`, and every earlier one above it
      obtain rfl : t = k := by omega
      rw [hslot s hst 0 (by omega)]
      exact (hmoved hut).2.2.2.1.trans (h.moved s hst hus).2.2.1

/-- A used slot's record moves to the bytes that end at `e`. -/
theorem Moving.turn_used {old data : Mem} {count k e freeEnd : ℕ} (hl : Layout old count freeEnd)
    (h : Moving old data count k e) (hk : k < count) (hu : slotField old k 8 = 1) :
    Moving old (setSlot (write data (e - slotField old k 4)
        (read old (slotField old k 0) (slotField old k 4))) k (e - slotField old k 4)
        (slotField old k 4) kUsedSlot) count (k + 1) (e - slotField old k 4) := by
  have hroom := hl.room
  have hfits := hl.fits
  have hmono := activeBytes_mono old (m := k + 1) (n := count) hk
  have hactive : activeBytes old (k + 1) = activeBytes old k + slotField old k 4 := by
    simp [activeBytes,hu,kUsedSlot]
  have hused := h.used
  have hbounds := (hl.bounds k hk hu).2
  generalize hlen : slotField old k 4 = len at *
  generalize hrec : read old (slotField old k 0) len = record
  have hrl : record.length = len := by rw [← hrec,length_read]
  have hoffset : e - len < 4294967296 := by omega
  have hlength : len < 4294967296 := by omega
  have hfields := setSlot_fields (write data (e - len) record) k hoffset hlength kUsedSlot_lt
  refine h.extend hk (by omega) (by omega) (by omega) ?_ (absurd hu) fun _ => ?_
  · intro i hi hi'
    rw [setSlot_outside hi,write_outside (by omega)]
  · rw [hfields.1,hfields.2.1,hlen,hrec]
    refine ⟨hfields.2.2,rfl,le_rfl,by omega,?_⟩
    have hread : read (setSlot (write data (e - len) record) k (e - len) len kUsedSlot)
        (e - len) len = read (write data (e - len) record) (e - len) len := by
      apply read_congr
      intro i hi hi'
      exact setSlot_outside (by omega)
    rw [hread,← hrl]
    exact read_write data _ record

/-- A deleted slot is written as deleted, and no record moves. -/
theorem Moving.turn_deleted {old data : Mem} {count k e freeEnd : ℕ}
    (hl : Layout old count freeEnd) (h : Moving old data count k e) (hk : k < count)
    (hu : slotField old k 8 ≠ 1) :
    Moving old (setSlot data k 0 0 kDeletedSlot) count (k + 1) e := by
  have hroom := hl.room
  have hfits := hl.fits
  have hmono := activeBytes_mono old (m := k + 1) (n := count) hk
  have hactive : activeBytes old (k + 1) = activeBytes old k := by
    simp [activeBytes,hu,kUsedSlot]
  have hused := h.used
  have hfields := setSlot_fields data k zero_lt zero_lt kDeletedSlot_lt
  refine h.extend hk (by omega) le_rfl (by omega) (fun i hi _ => setSlot_outside hi) ?_ ?_
  · exact fun _ => ⟨hfields.2.2,hfields.1,hfields.2.1⟩
  · exact fun hn => absurd hn hu

/-- One turn of the loop. -/
theorem Moving.turn {old data : Mem} {count k e freeEnd : ℕ} (hl : Layout old count freeEnd)
    (h : Moving old data count k e) (hk : k < count) :
    Moving old (compactSlots old k 1 data e).1 count (k + 1) (compactSlots old k 1 data e).2 := by
  by_cases hu : slotField old k 8 = 1
  · have hstep : compactSlots old k 1 data e =
        (setSlot (write data (e - slotField old k 4)
          (read old (slotField old k 0) (slotField old k 4))) k (e - slotField old k 4)
          (slotField old k 4) kUsedSlot,e - slotField old k 4) := by
      simp [compactSlots,hu,kUsedSlot]
    rw [hstep]
    exact h.turn_used hl hk hu
  · have hstep : compactSlots old k 1 data e = (setSlot data k 0 0 kDeletedSlot,e) := by
      simp [compactSlots,hu,kUsedSlot]
    rw [hstep]
    exact h.turn_deleted hl hk hu

theorem compactSlots_succ (old : Mem) (k n : ℕ) (data : Mem) (e : ℕ) :
    compactSlots old k (n + 1) data e =
      compactSlots old (k + 1) n (compactSlots old k 1 data e).1 (compactSlots old k 1 data e).2 := by
  by_cases hu : slotField old k 8 = kUsedSlot
  · simp [compactSlots,hu]
  · simp [compactSlots,hu]

theorem Moving.run {old : Mem} {count freeEnd : ℕ} (hl : Layout old count freeEnd) :
    ∀ (n k : ℕ) (data : Mem) (e : ℕ), Moving old data count k e → k + n = count →
      Moving old (compactSlots old k n data e).1 count count (compactSlots old k n data e).2
  | 0, k, data, e, h, hk => by
    obtain rfl : k = count := by omega
    exact h
  | n+1, k, data, e, h, hk => by
    rw [compactSlots_succ]
    exact Moving.run hl n (k + 1) _ _ (h.turn hl (by omega)) (by omega)

section

variable {old data data' : Mem} {count e freeEnd s : ℕ}

theorem Moving.state_eq (hl : Layout old count freeEnd) (h : Moving old data count count e)
    (hs : s < count) : slotField data s 8 = slotField old s 8 := by
  by_cases hu : slotField old s 8 = 1
  · rw [(h.moved s hs hu).1,hu]
  · rw [(h.deleted s hs hu).1,(hl.deleted s hs hu).1]

theorem Moving.length_eq (hl : Layout old count freeEnd) (h : Moving old data count count e)
    (hs : s < count) : slotField data s 4 = slotField old s 4 := by
  by_cases hu : slotField old s 8 = 1
  · exact (h.moved s hs hu).2.1
  · rw [(h.deleted s hs hu).2.2,(hl.deleted s hs hu).2.2]

/-- After the slots only the bytes between directory and records change, and the counter at 12. -/
def Cleared (data data' : Mem) (count e : ℕ) : Prop :=
  ∀ i, i < 12 ∨ 16 ≤ i → i < 32 + count * 12 ∨ e ≤ i → data' i = data i

theorem Cleared.slot (h : Cleared data data' count e) (hs : s < count) {f : ℕ} (hf : f ≤ 8) :
    slotField data' s f = slotField data s f := by
  apply slotField_congr hf
  intro i hi hi'
  exact h i (by omega) (by omega)

theorem Moving.layout (hl : Layout old count freeEnd) (h : Moving old data count count e)
    (hc : Cleared data data' count e) (he : load data' 12 = e) : Layout data' count e := by
  have hroom := hl.room
  have hfits := hl.fits
  have hused := h.used
  have hheader : ∀ o, o + 4 ≤ 12 ∨ (16 ≤ o ∧ o + 4 ≤ 32) → load data' o = load old o := by
    intro o ho
    apply load_congr
    intro i hi hi'
    rw [hc i (by omega) (by omega),h.header i (by omega)]
  have hstate : ∀ s < count, slotField data' s 8 = slotField old s 8 := fun s hs =>
    (hc.slot hs (by omega)).trans (h.state_eq hl hs)
  have hlen : ∀ s < count, slotField data' s 4 = slotField old s 4 := fun s hs =>
    (hc.slot hs (by omega)).trans (h.length_eq hl hs)
  constructor
  · rw [hheader 0 (by omega),hl.pageType]
  · rw [hheader 4 (by omega),hl.slotCount]
  · rw [hheader 8 (by omega),hl.freeStart]
  · exact he
  · rw [hheader 16 (by omega)]
    exact hl.next
  · rw [hheader 20 (by omega),hheader 24 (by omega),hheader 28 (by omega)]
    exact hl.reserved
  · omega
  · rw [activeBytes_congr fun s hs => ⟨hstate s hs,hlen s hs⟩]
    omega
  · intro s hs hu
    rw [hstate s hs] at hu
    rw [hc.slot hs (by omega),hc.slot hs (by omega),hc.slot hs (by omega)]
    exact h.deleted s hs hu
  · intro s hs hu
    rw [hstate s hs] at hu
    rw [hc.slot hs (by omega),hc.slot hs (by omega)]
    exact ⟨(h.moved s hs hu).2.2.1,(h.moved s hs hu).2.2.2.1⟩
  · intro s hs t ht hst hus hut
    rw [hstate s hs] at hus
    rw [hstate t ht] at hut
    rw [hc.slot hs (by omega),hc.slot hs (by omega),hc.slot ht (by omega),hc.slot ht (by omega)]
    rcases Nat.lt_or_gt_of_ne hst with hlt | hlt
    · exact Or.inr (h.apart s t hlt ht hus hut)
    · exact Or.inl (h.apart t s hlt hs hut hus)

theorem Moving.content_eq (hl : Layout old count freeEnd) (h : Moving old data count count e)
    (hc : Cleared data data' count e) : content data' = content old := by
  have hroom := hl.room
  have hfits := hl.fits
  have hused := h.used
  have hcount : load data' 4 = load old 4 := by
    apply load_congr
    intro i hi hi'
    rw [hc i (by omega) (by omega),h.header i (by omega)]
  funext s
  simp only [content,hcount,hl.slotCount]
  by_cases hs : s < count
  · have hstate := (hc.slot hs (by omega)).trans (h.state_eq hl hs)
    rw [hstate]
    by_cases hu : slotField old s 8 = 1
    · rw [if_pos ⟨hs,hu⟩,if_pos ⟨hs,hu⟩,hc.slot hs (by omega),hc.slot hs (by omega)]
      obtain ⟨-,-,h0,-,hread⟩ := h.moved s hs hu
      rw [← hread]
      congr 1
      apply read_congr
      intro i hi hi'
      exact hc i (by omega) (by omega)
    · rw [if_neg (fun h => hu h.2),if_neg (fun h => hu h.2)]
  · rw [if_neg (fun h => hs h.1),if_neg (fun h => hs h.1)]

end

/-- `Compact` moves the records together and loses none. -/
theorem Layout.compact {data : Mem} {count freeEnd : ℕ} (hl : Layout data count freeEnd) :
    ∃ e, (SlottedPage.compact data).2 = .ok () ∧ Layout (SlottedPage.compact data).1 count e ∧
      content (SlottedPage.compact data).1 = content data ∧ e + activeBytes data count = 4096 ∧
      (∀ s < count, slotField data s 8 = 0 → slotField (SlottedPage.compact data).1 s 8 = 0) ∧
      ∀ i, Outside i → (SlottedPage.compact data).1 i = data i := by
  have hroom := hl.room
  have hfits := hl.fits
  have hm := Moving.run hl count 0 data 4096 (Moving.start data count) (by omega)
  generalize hmoved : compactSlots data 0 count data 4096 = moved at hm
  obtain ⟨data',e⟩ := moved
  dsimp only at hm
  have hused := hm.used
  let cleared := write data' (32 + count * 12) (List.replicate (e - (32 + count * 12)) 0)
  have hresult : SlottedPage.compact data = (store cleared 12 e,.ok ()) := by
    rw [SlottedPage.compact,hl.valid]
    simp only [kFreeStartOffset,kSlotCountOffset,kFreeEndOffset,kSize,hl.freeStart,hl.slotCount,
      hmoved,cleared]
  have hcleared : Cleared data' (store cleared 12 e) count e := by
    intro i hi hi'
    rw [store_outside (by omega)]
    exact write_outside (by rw [List.length_replicate]; omega)
  rw [hresult]
  dsimp only
  refine ⟨e,rfl,hm.layout hl hcleared (load_store (by omega)),hm.content_eq hl hcleared,hused,?_,?_⟩
  · intro s hs h0
    rw [hcleared.slot hs (by omega),hm.state_eq hl hs,h0]
  · intro i hi
    simp only [Outside] at hi
    rw [hcleared i (by omega) (by omega)]
    rcases hi with hi | hi
    · exact hm.beyond i hi
    · exact hm.header i hi.2

/-- `InsertRecord` fails without a trace or fills a slot that was free. That a page it has
compacted may still be too full does not happen: the total room was counted before. -/
theorem Layout.insertRecord {data : Mem} {count freeEnd : ℕ} (hl : Layout data count freeEnd)
    (record : List UInt8) :
    ((∃ e, (SlottedPage.insertRecord data record).2 = .error e ∧
        (record.length ≤ kMaxRecordSize → e.code = .outOfSpace ∧ count ≠ 0)) ∧
      (SlottedPage.insertRecord data record).1 = data) ∨
    ∃ count' e target, (SlottedPage.insertRecord data record).2 = .ok target ∧
      Layout (SlottedPage.insertRecord data record).1 count' e ∧ content data target = none ∧
      content (SlottedPage.insertRecord data record).1 =
        Function.update (content data) target (some record) ∧
      ∀ i, Outside i → (SlottedPage.insertRecord data record).1 i = data i := by
  have hroom := hl.room
  have hfits := hl.fits
  have hreuse := fun t => @reusableSlot_some data count t
  rw [SlottedPage.insertRecord,hl.valid]
  simp only [kSlotCountOffset,kFreeStartOffset,kFreeEndOffset,hl.slotCount,hl.freeStart,
    hl.freeEnd_eq]
  generalize reusableSlot data count = reusable at hreuse ⊢
  by_cases hbig : 4294967295 < record.length
  · rw [if_pos hbig]
    refine Or.inl ⟨⟨_,rfl,fun h => ?_⟩,rfl⟩
    simp only [kMaxRecordSize,kSize,kHeaderSize,kSlotSize] at h
    omega
  rw [if_neg hbig]
  by_cases hmax : kMaxRecordSize < record.length
  · rw [if_pos hmax]
    exact Or.inl ⟨⟨_,rfl,fun h => absurd h (not_le.mpr hmax)⟩,rfl⟩
  rw [if_neg hmax]
  have htotal : (18446744073709551616 + kSize - (32 + count * 12) - activeBytes data count) %
      18446744073709551616 = 4096 - (32 + count * 12) - activeBytes data count := by
    simp only [kSize]
    omega
  rw [htotal]
  by_cases htot : 4096 - (32 + count * 12) - activeBytes data count <
      record.length + if reusable = none then kSlotSize else 0
  · rw [if_pos htot]
    refine Or.inl ⟨⟨_,rfl,fun _ => ⟨rfl,?_⟩⟩,rfl⟩
    -- an empty page has room for the largest record and its slot
    rintro rfl
    simp only [kMaxRecordSize,kSize,kHeaderSize,kSlotSize,activeBytes] at htot hmax
    split_ifs at htot <;> omega
  rw [if_neg htot]
  by_cases hslots : reusable = none ∧ maxSlots ≤ count
  · rw [if_pos hslots]
    refine Or.inl ⟨⟨_,rfl,fun _ => ⟨rfl,?_⟩⟩,rfl⟩
    rintro rfl
    exact absurd hslots.2 (by decide)
  rw [if_neg hslots]
  have hstart : newFreeStart count reusable = 32 + count * 12 +
      if reusable = none then kSlotSize else 0 := by
    simp only [newFreeStart,kHeaderSize,kSlotSize]
    split_ifs <;> omega
  by_cases hspace : hasContiguousSpace count freeEnd reusable record.length = true
  · rw [if_pos hspace]
    have hsp : newFreeStart count reusable + record.length ≤ freeEnd := by
      simp only [hasContiguousSpace,Bool.and_eq_true,decide_eq_true_eq] at hspace
      omega
    obtain ⟨count',target,hok,hlay,hfree,hcont,hout⟩ := hl.placeRecord hreuse hsp
    exact Or.inr ⟨count',_,target,hok,hlay,hfree,hcont,hout⟩
  rw [if_neg hspace]
  obtain ⟨e,hok,hlay,hcont,hactive,hdel,hout⟩ := hl.compact
  generalize SlottedPage.compact data = compacted at hok hlay hcont hdel hout
  obtain ⟨data',status⟩ := compacted
  dsimp only at hok hlay hcont hdel hout
  subst hok
  have hsp : newFreeStart count reusable + record.length ≤ e := by omega
  have hspace : hasContiguousSpace count e reusable record.length = true := by
    simp only [hasContiguousSpace,Bool.and_eq_true,decide_eq_true_eq]
    omega
  simp only [hlay.slotCount,hlay.freeEnd_eq,hspace,if_true]
  obtain ⟨count',target,hok,hlay',hfree,hcont',hout'⟩ := hlay.placeRecord
    (fun t ht => ⟨(hreuse t ht).1,hdel t (hreuse t ht).1 (hreuse t ht).2⟩) hsp
  refine Or.inr ⟨count',_,target,hok,hlay',by rw [← hcont]; exact hfree,by rw [hcont',hcont],?_⟩
  intro i hi
  rw [hout' i hi,hout i hi]

theorem layout_initializePage {data : Mem} {next : UInt32} (hn : next ≠ 0) :
    (initializePage data next).2 = .ok () ∧ Layout (initializePage data next).1 0 4096 ∧
      load (initializePage data next).1 16 = next.toNat := by
  have hzero : ∀ i < 4096, write data 0 (List.replicate kSize 0) i = 0 := by
    intro i hi
    have hin : 0 ≤ i ∧ i < 0 + (List.replicate kSize (0 : UInt8)).length := by
      rw [List.length_replicate]
      exact ⟨by omega,by simpa [kSize] using hi⟩
    rw [write,if_pos hin,List.getD_eq_getElem _ _ (by simpa using hin.2),List.getElem_replicate]
  have hload : ∀ o, o + 4 ≤ 4096 → load (write data 0 (List.replicate kSize 0)) o = 0 := by
    intro o ho
    exact load_congr fun i _ hi => hzero i (by omega)
  have hne : next.toNat ≠ 0 := fun h => hn (UInt32.toNat.inj h)
  have hlt : next.toNat < 4294967296 := next.toNat_lt
  have hresult : initializePage data next = (store (store (store (store (store
      (write data 0 (List.replicate kSize 0)) 0 1) 4 0) 8 32) 12 4096) 16 next.toNat,.ok ()) := by
    rw [initializePage,if_neg hn]
    rfl
  rw [hresult]
  refine ⟨rfl,?_,load_store hlt⟩
  dsimp only
  generalize write data 0 (List.replicate kSize 0) = blank at hload
  constructor
  · rw [load_store_apart (by omega),load_store_apart (by omega),load_store_apart (by omega),
      load_store_apart (by omega),load_store (by omega)]
  · rw [load_store_apart (by omega),load_store_apart (by omega),load_store_apart (by omega),
      load_store (by omega)]
  · rw [load_store_apart (by omega),load_store_apart (by omega),load_store (by omega)]
  · rw [load_store_apart (by omega),load_store (by omega)]
  · rw [load_store hlt]
    exact hne
  · have reserved : ∀ o, 20 ≤ o → o + 4 ≤ 4096 → load (store (store (store (store (store
        blank 0 1) 4 0) 8 32) 12 4096) 16 next.toNat) o = 0 := by
      intro o ho ho'
      rw [load_store_apart (by omega),load_store_apart (by omega),load_store_apart (by omega),
        load_store_apart (by omega),load_store_apart (by omega),hload o ho']
    exact ⟨reserved 20 (by omega) (by omega),reserved 24 (by omega) (by omega),
      reserved 28 (by omega) (by omega)⟩
  · omega
  · exact Nat.le_refl _
  · omega
  · omega
  · omega

/-! ### Runs of operations -/

inductive Op
  | insert (record : List UInt8)
  | delete (slot : ℕ)
  | compact
  | setNext (nextPageId : UInt32)

/-- The page after the operation, and its result; only an insert returns a slot. -/
def Op.run (op : Op) (data : Mem) : Mem × Result (Option ℕ) :=
  match op with
  | .insert record => ((insertRecord data record).1,(insertRecord data record).2.map some)
  | .delete slot => ((deleteRecord data slot).1,(deleteRecord data slot).2.map fun _ => none)
  | .compact => ((SlottedPage.compact data).1,(SlottedPage.compact data).2.map fun _ => none)
  | .setNext next => ((setNextPageId data next).1,(setNextPageId data next).2.map fun _ => none)

/-- A finite map from slots to records: what the page is for. -/
abbrev RecordMap := ℕ → Option (List UInt8)

/-- What a result says about the map: an insert fills its slot, a delete empties its own. -/
def Op.effect (op : Op) (result : Result (Option ℕ)) (m : RecordMap) : RecordMap :=
  match op, result with
  | .insert record, .ok (some slot) => Function.update m slot (some record)
  | .delete slot, .ok _ => Function.update m slot none
  | _, _ => m

/-- The pages that operations reach from `Initialize`, with the map their results describe. -/
inductive Reached : Mem → RecordMap → Prop
  | start {data : Mem} {next : UInt32} : (initializePage data next).2 = .ok () →
    Reached (initializePage data next).1 fun _ => none
  | step {data : Mem} {m : RecordMap} (op : Op) : Reached data m →
    Reached (op.run data).1 (op.effect (op.run data).2 m)

/-- One operation on a laid out page: no trace of a failure, the described effect of a
success, and no byte written past the page. -/
theorem Layout.step {data : Mem} {count freeEnd : ℕ} (hl : Layout data count freeEnd) (op : Op) :
    (∃ count' e, Layout (op.run data).1 count' e) ∧
      content (op.run data).1 = op.effect (op.run data).2 (content data) ∧
      (∀ e, (op.run data).2 = .error e → (op.run data).1 = data) ∧
      ∀ i, 4096 ≤ i → (op.run data).1 i = data i := by
  cases op with
  | insert record =>
    simp only [Op.run]
    rcases hl.insertRecord record with ⟨⟨e,he,-⟩,hd⟩ | ⟨count',e,target,hok,hlay,-,hcont,hout⟩
    · rw [he,hd]
      exact ⟨⟨_,_,hl⟩,rfl,fun _ _ => rfl,fun _ _ => rfl⟩
    · rw [hok]
      exact ⟨⟨_,_,hlay⟩,hcont,(fun _ h => by cases h),fun i hi => hout i (Or.inl hi)⟩
  | delete slot =>
    simp only [Op.run]
    rcases hl.deleteRecord slot with ⟨-,message,he⟩ | ⟨data',-,hok,hlay,hcont,hout⟩
    · rw [he]
      exact ⟨⟨_,_,hl⟩,rfl,fun _ _ => rfl,fun _ _ => rfl⟩
    · rw [hok]
      exact ⟨⟨_,_,hlay⟩,hcont,(fun _ h => by cases h),fun i hi => hout i (Or.inl hi)⟩
  | compact =>
    simp only [Op.run]
    obtain ⟨e,hok,hlay,hcont,-,-,hout⟩ := hl.compact
    rw [hok]
    exact ⟨⟨_,_,hlay⟩,hcont,(fun _ h => by cases h),fun i hi => hout i (Or.inl hi)⟩
  | setNext next =>
    simp only [Op.run,setNextPageId,hl.valid,kNextPageIdOffset]
    by_cases hn : next = 0
    · rw [if_pos hn]
      exact ⟨⟨_,_,hl⟩,rfl,fun _ _ => rfl,fun _ _ => rfl⟩
    · rw [if_neg hn]
      obtain ⟨hlay,hcont,hout⟩ :=
        hl.setNext (fun h => hn (UInt32.toNat.inj h)) next.toNat_lt
      exact ⟨⟨_,_,hlay⟩,hcont,(fun _ h => by cases h),hout⟩

theorem Reached.layout {data : Mem} {m : RecordMap} (h : Reached data m) :
    (∃ count freeEnd, Layout data count freeEnd) ∧ content data = m := by
  induction h with
  | @start data next hok =>
    have hn : next ≠ 0 := by
      intro h
      rw [initializePage,if_pos h] at hok
      cases hok
    have hl := (@layout_initializePage data _ hn).2.1
    refine ⟨⟨0,4096,hl⟩,?_⟩
    funext s
    simp [content,hl.slotCount]
  | step op _ ih =>
    obtain ⟨⟨count,freeEnd,hl⟩,hm⟩ := ih
    obtain ⟨hlay,hcont,-,-⟩ := hl.step op
    exact ⟨hlay,hm ▸ hcont⟩

end Storage.SlottedPage
end OurSql
