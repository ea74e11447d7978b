import OurSql.Latch.Guards

/-! Slotted pages without the bytes of their records, and the operations of a heap table
that run in a transaction, with the guards they hold. -/
namespace OurSql
namespace Latch

/-! ### Slotted pages -/

def kSize : ℕ := 4096
def kPageType : ℕ := 1
def kHeaderSize : ℕ := 32
def kSlotSize : ℕ := 12
def kMaxRecordSize : ℕ := kSize - kHeaderSize - kSlotSize
def kDeletedSlot : ℕ := 0
def kUsedSlot : ℕ := 1
def maxSlots : ℕ := (kSize - kHeaderSize) / kSlotSize

structure Slot where
  offset : ℕ
  length : ℕ
  state : ℕ
  deriving DecidableEq, Repr

/-- The header and the slot directory of a page. -/
structure SlottedPage where
  pageType : ℕ
  freeStart : ℕ
  freeEnd : ℕ
  nextPageId : PageId
  reserved : ℕ × ℕ × ℕ
  slots : List Slot
  deriving DecidableEq, Repr

def Slot.overlaps (slot prior : Slot) : Bool :=
  !(prior.offset + prior.length ≤ slot.offset) && !(slot.offset + slot.length ≤ prior.offset)

/-- The loop of `ValidateBytes` over the slots; `prior` has the used ones before. -/
def SlottedPage.validateSlots (page : SlottedPage) : ℕ → List Slot → List Slot → Status
  | _, _, [] => .ok ()
  | n, prior, slot::rest =>
    if slot.state ≠ kDeletedSlot && slot.state ≠ kUsedSlot then
      fail .invalidArgument ("Slotted Page 槽状态非法: " ++ toString n)
    else if slot.state = kDeletedSlot then
      if slot.offset ≠ 0 || slot.length ≠ 0 then
        fail .invalidArgument ("已删除槽必须清空目录项: " ++ toString n)
      else page.validateSlots (n+1) prior rest
    else if slot.offset < page.freeStart || slot.offset < page.freeEnd || kSize < slot.offset ||
        kSize < slot.offset + slot.length then
      fail .invalidArgument ("Slotted Page 记录边界非法: " ++ toString n)
    else if prior.any slot.overlaps then fail .invalidArgument "Slotted Page 有重叠记录"
    else page.validateSlots (n+1) (prior ++ [slot]) rest

def SlottedPage.validateBytes (page : SlottedPage) : Status :=
  if page.pageType ≠ kPageType then fail .invalidArgument "页面类型不是 Slotted Page"
  else if page.reserved ≠ (0,0,0) then fail .invalidArgument "Slotted Page 保留字段必须为 0"
  else if maxSlots < page.slots.length then
    fail .invalidArgument "Slotted Page slot_count 越界"
  else if page.freeStart ≠ kHeaderSize + page.slots.length * kSlotSize ||
      page.freeEnd < page.freeStart || kSize < page.freeEnd then
    fail .invalidArgument "Slotted Page 空闲区边界非法"
  else if page.nextPageId = 0 then
    fail .invalidArgument "Slotted Page next_page_id 不能指向 Page 0"
  else page.validateSlots 0 [] page.slots

/-- `Initialize`. -/
def SlottedPage.initializePage (nextPageId : PageId) : Result SlottedPage :=
  if nextPageId = 0 then fail .invalidArgument "next_page_id 不能指向 Page 0"
  else .ok ⟨kPageType,kHeaderSize,kSize,nextPageId,(0,0,0),[]⟩

/-- `active_bytes` of `InsertRecord`. -/
def activeBytes : List Slot → ℕ
  | [] => 0
  | slot::rest => (if slot.state = kUsedSlot then slot.length else 0) + activeBytes rest

/-- The loop of `Compact`: the records move to the end of the page in slot order. -/
def compactSlots : ℕ → List Slot → List Slot × ℕ
  | freeEnd, [] => ([],freeEnd)
  | freeEnd, slot::rest =>
    if slot.state ≠ kUsedSlot then
      let moved := compactSlots freeEnd rest
      (⟨0,0,kDeletedSlot⟩::moved.1,moved.2)
    else
      let moved := compactSlots (freeEnd - slot.length) rest
      (⟨freeEnd - slot.length,slot.length,kUsedSlot⟩::moved.1,moved.2)

def SlottedPage.compact (page : SlottedPage) : SlottedPage :=
  let moved := compactSlots kSize page.slots
  { page with slots := moved.1, freeEnd := moved.2 }

/-- `new_free_start` of `InsertRecord`: a reused slot takes no room in the directory. -/
def SlottedPage.newFreeStart (page : SlottedPage) (reusable : Option SlotId) : ℕ :=
  kHeaderSize + (page.slots.length + if reusable.isNone then 1 else 0) * kSlotSize

def SlottedPage.hasContiguousSpace (page : SlottedPage) (reusable : Option SlotId)
    (size : ℕ) : Bool :=
  page.newFreeStart reusable ≤ page.freeEnd && size ≤ page.freeEnd - page.newFreeStart reusable

/-- The end of `InsertRecord`, where the record has room. -/
def SlottedPage.placeRecord (page : SlottedPage) (reusable : Option SlotId) (size : ℕ) :
    SlottedPage × Result SlotId :=
  let freeEnd := page.freeEnd - size
  let slot : Slot := ⟨freeEnd,size,kUsedSlot⟩
  match reusable with
  | none => ({ page with
      slots := page.slots ++ [slot], freeStart := page.newFreeStart none, freeEnd := freeEnd },
      .ok page.slots.length)
  | some target => ({ page with
      slots := page.slots.set target slot, freeStart := page.newFreeStart reusable,
      freeEnd := freeEnd }, .ok target)

/-- `InsertRecord` of a record of `size` bytes; a page that it has compacted in vain stays
compacted. -/
def SlottedPage.insertRecord (page : SlottedPage) (size : ℕ) : SlottedPage × Result SlotId :=
  match page.validateBytes with
  | .error e => (page,.error e)
  | .ok () =>
    if 4294967295 < size then (page,fail .invalidArgument "记录长度超过页面格式上限")
    else if kMaxRecordSize < size then
      (page,fail .recordTooLarge ("单条记录超过 Slotted Page 上限: " ++ toString kMaxRecordSize))
    else
      let reusable := page.slots.findIdx? (·.state = kDeletedSlot)
      let required := size + if reusable.isNone then kSlotSize else 0
      if kSize - page.freeStart - activeBytes page.slots < required then
        (page,fail .outOfSpace "页面没有足够的总空间容纳记录")
      else if reusable.isNone && maxSlots ≤ page.slots.length then
        (page,fail .outOfSpace "槽目录已满")
      else if page.hasContiguousSpace reusable size then page.placeRecord reusable size
      else if page.compact.hasContiguousSpace reusable size then
        page.compact.placeRecord reusable size
      else (page.compact,fail .outOfSpace "整理后连续空间仍不足")

/-- `NextPageId`. -/
def SlottedPage.next (page : SlottedPage) : Result PageId :=
  match page.validateBytes with
  | .error e => .error e
  | .ok () => .ok page.nextPageId

def SlottedPage.setNextPageId (page : SlottedPage) (nextPageId : PageId) : Result SlottedPage :=
  if nextPageId = 0 then fail .invalidArgument "next_page_id 不能指向 Page 0"
  else match page.validateBytes with
    | .error e => .error e
    | .ok () => .ok { page with nextPageId := nextPageId }

def SlottedPage.deleteRecord (page : SlottedPage) (slotId : SlotId) : Result SlottedPage :=
  match page.validateBytes with
  | .error e => .error e
  | .ok () => match page.slots[slotId]? with
    | none => fail .notFound ("slot_id 不存在: " ++ toString slotId)
    | some slot =>
      if slot.state ≠ kUsedSlot then fail .notFound ("slot_id 已删除: " ++ toString slotId)
      else .ok { page with slots := page.slots.set slotId ⟨0,0,kDeletedSlot⟩ }

/-! ### Heap tables -/

structure HeapTable where
  firstDataPageId : PageId

abbrev HeapOp := Op SlottedPage Unit

/-- No walk along a chain passes more pages: page ids are 32 bits wide. -/
def chainTurns : ℕ := invalidPageId + 1

def brokenChain : Failure := ⟨.invalidArgument,"数据页链表损坏或成环"⟩

/-- The steps that `InsertRow` takes back when the new page cannot be used. -/
def discardPage (txn : Bool) (p : PageId) (e : Failure) : HeapOp RID := do
  let _ ← attempt (release p)
  let _ ← attempt (deletePage txn p)
  ofResult (.error e)

/-- The end of `InsertRow` at the last page of the chain, whose guard stays held. -/
def appendPage (txn : Bool) (size : ℕ) (tail : PageId) (page : SlottedPage) : HeapOp RID := do
  let newPageId ← newPage txn
  match SlottedPage.initializePage invalidPageId with
  | .error e => discardPage txn newPageId e
  | .ok fresh => match (fresh.insertRecord size).2 with
    | .error e => discardPage txn newPageId e
    | .ok slot => match page.setNextPageId newPageId with
      | .error e => discardPage txn newPageId e
      | .ok _ =>
        release tail
        return ⟨newPageId,slot⟩

/-- The loop of `InsertRow` from a page whose guard is held. -/
def insertRowFrom (txn : Bool) (size : ℕ) :
    ℕ → List PageId → PageId → SlottedPage → HeapOp RID
  | 0, _, _, _ => ofResult (.error brokenChain)
  | fuel+1, visited, current, page =>
    match page.insertRecord size with
    | (_,.ok slot) => return ⟨current,slot⟩
    | (page,.error e) =>
      if e.code ≠ .outOfSpace then ofResult (.error e)
      else do
        let next ← ofResult page.next
        if next ≠ invalidPageId then
          -- The next page is fetched before the guard of this one is given back.
          let nextPage ← fetchPageWrite txn next
          release current
          if next = 0 || next ∈ visited then ofResult (.error brokenChain)
          else insertRowFrom txn size fuel (next::visited) next nextPage
        else appendPage txn size current page

/-- `InsertRow` of a row that `RowCodec` encodes as `encoded`. -/
def HeapTable.insertRow (table : HeapTable) (txn : Bool) (encoded : Result (List UInt8)) :
    HeapOp RID :=
  if table.firstDataPageId = invalidPageId || table.firstDataPageId = 0 then
    failWith .invalidArgument "HeapTable 缺少首数据页"
  else do
    let record ← ofResult encoded
    if kMaxRecordSize < record.length then
      failWith .recordTooLarge ("HeapTable 单行超过页面上限: " ++ toString kMaxRecordSize)
    else block (fetchPageWrite txn table.firstDataPageId >>= fun page =>
      insertRowFrom txn record.length chainTurns [table.firstDataPageId] table.firstDataPageId page)

/-- The loop of `ValidateRidPage`. -/
def validateFrom (pageId : PageId) : ℕ → List PageId → PageId → SlottedPage → HeapOp Unit
  | 0, _, _, _ => ofResult (.error brokenChain)
  | fuel+1, visited, current, page => do
    ofResult page.validateBytes
    let next ← ofResult page.next
    if current = pageId then return ()
    else if next = invalidPageId then
      let _ ← attempt (release current)
      failWith .notFound ("RID 页面不属于当前表: " ++ toString pageId)
    else
      let nextPage ← fetchPage false next
      let _ ← attempt (release current)
      if next = 0 || next ∈ visited then ofResult (.error brokenChain)
      else validateFrom pageId fuel (next::visited) next nextPage

def HeapTable.validateRidPage (table : HeapTable) (pageId : PageId) : HeapOp Unit :=
  if pageId = 0 || pageId = invalidPageId then
    failWith .notFound ("RID 页面编号非法: " ++ toString pageId)
  else if table.firstDataPageId = 0 || table.firstDataPageId = invalidPageId then
    failWith .invalidArgument "HeapTable 缺少首数据页"
  else block (fetchPage false table.firstDataPageId >>= fun page =>
    validateFrom pageId chainTurns [table.firstDataPageId] table.firstDataPageId page)

/-- The walk of `DeleteRow` to the page before the target. -/
def findPredecessor (target : PageId) : ℕ → List PageId → PageId → SlottedPage → HeapOp PageId
  | 0, _, _, _ => ofResult (.error brokenChain)
  | fuel+1, visited, current, page => do
    let next ← ofResult page.next
    if next = target then return current
    else if next = invalidPageId then return invalidPageId
    else
      let nextPage ← fetchPage false next
      let _ ← attempt (release current)
      if next = 0 || next ∈ visited then ofResult (.error brokenChain)
      else findPredecessor target fuel (next::visited) next nextPage

/-- `CancelPageDeletion`; what it answers changes at most the message. -/
def cancelPageDeletion : HeapOp Unit := poolCall fun w n => w.status n

/-- `DeleteRow` under the guards of the predecessor and the target: whether the empty
target has been taken out of the chain. -/
def unlinkTarget (target predecessor : PageId) (page targetPage : SlottedPage) : HeapOp Bool := do
  let targetNext ← ofResult targetPage.next
  if targetPage.slots.any (·.state = kUsedSlot) then return false
  else
    poolCall fun w n => w.status n
    match page.setNextPageId targetNext with
    | .error e =>
      let _ ← attempt (release target)
      let _ ← attempt (release predecessor)
      let _ ← attempt cancelPageDeletion
      ofResult (.error e)
    | .ok _ =>
      let targetRelease ← attempt (release target)
      let predecessorRelease ← attempt (release predecessor)
      match targetRelease, predecessorRelease with
      | .ok _, .ok _ => return true
      | .error e, _ =>
        let _ ← attempt cancelPageDeletion
        ofResult (.error e)
      | _, .error e =>
        let _ ← attempt cancelPageDeletion
        ofResult (.error e)

/-- What `DeleteRow` does about a page that may have become empty. -/
def unlinkEmptyPage (txn : Bool) (target predecessor : PageId) : HeapOp Unit := do
  let unlinked ← block (fetchPageWrite txn predecessor >>= fun page => do
    let next ← ofResult page.next
    if next ≠ target then failWith .invalidArgument "删除空数据页时发现链表已变化"
    else
      -- The predecessor stays under its guard.
      let targetPage ← fetchPageWrite txn target
      unlinkTarget target predecessor page targetPage)
  if !unlinked then return ()
  else if txn then
    match ← attempt (deletePage txn target) with
    | .ok _ => return ()
    | .error e =>
      let _ ← attempt cancelPageDeletion
      ofResult (.error e)
  else poolCall fun w n => w.status n

/-- The first part of `DeleteRow`: the slot is freed and the guard given back. -/
def deleteFromPage (txn : Bool) (rid : RID) : HeapOp Unit :=
  block (fetchPageWrite txn rid.pageId >>= fun page => do
    let _ ← ofResult page.next
    let _ ← ofResult (page.deleteRecord rid.slotId)
    release rid.pageId)

def HeapTable.deleteRow (table : HeapTable) (txn : Bool) (rid : RID) : HeapOp Unit := do
  table.validateRidPage rid.pageId
  deleteFromPage txn rid
  if rid.pageId = table.firstDataPageId then return ()
  else
    let predecessor ← block (fetchPage false table.firstDataPageId >>= fun page =>
      findPredecessor rid.pageId chainTurns [table.firstDataPageId] table.firstDataPageId page)
    if predecessor = invalidPageId then
      failWith .internalError ("已确认归属的数据页找不到前驱: " ++ toString rid.pageId)
    else unlinkEmptyPage txn rid.pageId predecessor

/-! ### Lock requests of the operations -/

section requests

variable {w : World SlottedPage} {table : HeapTable} {txn : Bool} {size fuel : ℕ} {rid : RID}
  {visited : List PageId} {current target : PageId} {page : SlottedPage}

/-- A dropped release before the next step of a walk. -/
theorem Still.dropped {C σ β : Type} {w : World C} {p : PageId} {m : Op C σ β} {Q : β → Prop}
    (hm : Still w Q m) :
    Still w Q ((Latch.attempt (Latch.release p) : Op C σ (Result Unit)) >>= fun _ => m) :=
  Still.bind (Still.release.attempt) fun _ _ => hm

theorem still_validateFrom :
    Still w (fun _ => True) (validateFrom target fuel visited current page) := by
  induction fuel generalizing visited current page with
  | zero => exact Still.ofResult fun _ _ => trivial
  | succ fuel ih =>
    unfold validateFrom
    refine Still.bind (P := fun _ => True) (Still.ofResult fun _ _ => trivial) fun _ _ => ?_
    refine Still.bind (P := fun _ => True) (Still.ofResult fun _ _ => trivial) fun next _ => ?_
    split
    · exact Still.pure trivial
    split
    · exact Still.dropped Still.fail
    · refine Still.bind Still.fetchPage fun nextPage _ => Still.dropped ?_
      split
      · exact Still.ofResult fun _ _ => trivial
      · exact ih

theorem quiet_validateRidPage :
    Quiet w (fun _ => True) (table.validateRidPage target) := by
  unfold HeapTable.validateRidPage
  split
  · exact Quiet.fail
  split
  · exact Quiet.fail
  · exact Quiet.read fun _ _ _ => still_validateFrom

/-- The first data page takes the record, or refuses it for another reason than room. -/
def RoomFirst (w : World SlottedPage) (s : Thread Unit) (table : HeapTable) (size : ℕ) : Prop :=
  ∀ page e, w.page (s.calls + 1) table.firstDataPageId = .ok page →
    (page.insertRecord size).2 = .error e → e.code ≠ .outOfSpace

/-- The row is in the first data page, or its slot cannot be freed. -/
def RowInFirst (w : World SlottedPage) (s : Thread Unit) (table : HeapTable) (rid : RID) : Prop :=
  rid.pageId = table.firstDataPageId ∨ ∀ t page freed,
    table.validateRidPage rid.pageId w s = (.ok (),t) → w.page (t.calls + 1) rid.pageId = .ok page →
      page.deleteRecord rid.slotId ≠ .ok freed

/-- The row's slot can only be freed where the page has it. -/
theorem deleteFromPage_idle {s : Thread Unit} (hs : s.Idle) :
    (deleteFromPage true rid w s).2.Idle ∧ ∀ u, (deleteFromPage true rid w s).1 = .ok u →
      ∃ page freed, w.page (s.calls + 1) rid.pageId = .ok page ∧
        page.deleteRecord rid.slotId = .ok freed := by
  refine hs.write fun page hn => ?_
  refine Still.bind (P := fun _ => True) (Still.ofResult fun _ _ => trivial) fun _ _ => ?_
  refine Still.bind (Still.ofResult fun freed hfreed => hfreed) fun freed hfreed => ?_
  exact Still.release.weaken fun _ _ => ⟨page,freed,hn,hfreed⟩

theorem insertRow_idle {s : Thread Unit} {encoded : Result (List UInt8)} (hs : s.Idle)
    (h : ∀ record, encoded = .ok record → RoomFirst w s table record.length) :
    (table.insertRow true encoded w s).2.Idle := by
  unfold HeapTable.insertRow
  split
  · exact hs
  cases encoded with
  | error e => exact hs
  | ok record =>
    have hrecord : (ofResult (.ok record) : HeapOp (List UInt8)) w s = (.ok record,s) := rfl
    rw [bind_ok hrecord]
    split
    · exact hs
    refine (hs.write (Q := fun _ => True) fun page hn => ?_).1
    have hroom := fun e => h record rfl page e hn
    unfold insertRowFrom chainTurns
    dsimp only
    split
    · exact Still.pure trivial
    · rename_i e he
      rw [if_pos (hroom e (congrArg Prod.snd he))]
      exact Still.ofResult fun _ _ => trivial

theorem deleteRow_idle {s : Thread Unit} (hs : s.Idle) (h : RowInFirst w s table rid) :
    (table.deleteRow true rid w s).2.Idle := by
  unfold HeapTable.deleteRow
  have hvalid := (@quiet_validateRidPage w table rid.pageId s hs).1
  cases hx : table.validateRidPage rid.pageId w s with
  | mk r t =>
    rw [hx] at hvalid
    cases r with
    | error e =>
      rw [bind_error hx]
      exact hvalid
    | ok u =>
      rw [bind_ok hx]
      obtain ⟨hidle,hfreed⟩ := @deleteFromPage_idle w rid t hvalid
      cases hy : deleteFromPage true rid w t with
      | mk r' t' =>
        rw [hy] at hidle hfreed
        cases r' with
        | error e =>
          rw [bind_error hy]
          exact hidle
        | ok u' =>
          rw [bind_ok hy]
          obtain ⟨page,freed,hn,hf⟩ := hfreed u' rfl
          have hfirst : rid.pageId = table.firstDataPageId :=
            h.resolve_right fun hnone => hnone t page freed hx hn hf
          rw [if_pos hfirst]
          exact hidle

end requests

end Latch
end OurSql
