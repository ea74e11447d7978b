import OurSql.Catalog.Codec
import OurSql.Catalog.Open
import OurSql.Lib.SlotChain
import OurSql.Lib.Transition

/-! The catalog on its pages, byte for byte: records are encoded, found again by
decoding, and rewritten in place, while the maps are kept beside them. Whatever
the calls, opening the pages anew gives the maps. -/
namespace OurSql
namespace Catalog
namespace Persist

open Codec SlotChain

def geometry : Geometry (List UInt8) := ⟨pageSize,headerSize,slotSize,List.length⟩

/-- The page chain in order and the maps `tables_` and `indexes_`. -/
structure Store where
  pages : List (Page (List UInt8))
  maps : Maps
  deriving DecidableEq, Repr

/-! ### `Open` -/

def scanBytes (acc : Maps × List IndexMetadata) (bytes : List UInt8) :
    Result (Maps × List IndexMetadata) :=
  if bytes.length < 4 then fail .invalidArgument "Catalog 元数据记录头损坏"
  else if isTableMagic bytes then
    match Codec.decodeTable bytes with
    | .error e => .error e
    | .ok t =>
      if (acc.1.findTable t.name).isSome then
        fail .alreadyExists ("Catalog 出现重复表: " ++ t.name)
      else .ok (acc.1.insertTable t,acc.2)
  else if isIndexMagic bytes then
    match decodeIndex bytes with
    | .error e => .error e
    | .ok i => .ok (acc.1,acc.2 ++ [i])
  else fail .invalidArgument "Catalog 元数据记录类型未知"

def scanSlots (acc : Maps × List IndexMetadata) :
    List (List UInt8) → Result (Maps × List IndexMetadata)
  | [] => .ok acc
  | r::rs =>
    match scanBytes acc r with
    | .error e => .error e
    | .ok acc => scanSlots acc rs

/-- `SlottedPage::Validate`, then the records of one page after the other. -/
def scanChain (acc : Maps × List IndexMetadata) :
    List (Page (List UInt8)) → Result (Maps × List IndexMetadata)
  | [] => .ok acc
  | p::ps =>
    if pageSize < p.used geometry then fail .invalidArgument "Slotted Page 空闲区边界非法"
    else match scanSlots acc p.records with
      | .error e => .error e
      | .ok acc => scanChain acc ps

/-- A fresh `Catalog::Open` on a chain that exists. -/
def openChain (pages : List (Page (List UInt8))) : Result Maps :=
  match scanChain (Maps.empty,[]) pages with
  | .error e => .error e
  | .ok (c,is) => attachIndexes c is

/-! ### The calls -/

/-- The record scan of `DropTable`. -/
def wantsTable (name : String) (bytes : List UInt8) : Result Bool :=
  if bytes.length < 4 ∨ !isTableMagic bytes then .ok false
  else match Codec.decodeTable bytes with
    | .error e => .error e
    | .ok t => .ok (t.name = name)

/-- The record scan of `DropIndex` and `UpdateIndexRootPageId`. -/
def wantsIndex (name : String) (bytes : List UInt8) : Result Bool :=
  if bytes.length < 4 ∨ !isIndexMagic bytes then .ok false
  else match decodeIndex bytes with
    | .error e => .error e
    | .ok i => .ok (i.name = name)

namespace Store

/-- `dataPage` is the page `NewPageGuarded` hands out. -/
def createTable (s : Store) (t : TableMetadata) (dataPage : PageId) : Status × Store :=
  match validateTable t with
  | .error e => (.error e,s)
  | .ok () =>
    -- the length does not depend on the page that is still to come
    match Codec.encodeTable t with
    | .error e => (.error e,s)
    | .ok _ =>
      if (s.maps.findTable t.name).isSome then
        (fail .alreadyExists ("表已存在: " ++ t.name),s)
      else
        let t := { t with firstDataPageId := dataPage }
        match Codec.encodeTable t with
        | .error e => (.error e,s)
        | .ok bytes => (.ok (),⟨append geometry bytes s.pages,s.maps.insertTable t⟩)

def dropTable (s : Store) (name : String) : Status × Store :=
  match s.maps.findTable name with
  | none => (fail .notFound ("Catalog 未找到表: " ++ name),s)
  | some _ =>
    if s.maps.indexes.any fun i => i.tableName = name then
      (fail .invalidArgument "删除表元数据前必须先删除该表的全部索引",s)
    else match SlotChain.findRecord (wantsTable name) s.pages with
      | .error e => (.error e,s)
      | .ok none => (fail .internalError "Catalog 内存表缺少对应的磁盘记录",s)
      | .ok (some (k,slot)) => (.ok (),⟨SlotChain.deleteAt s.pages k slot,s.maps.eraseTable name⟩)

def createIndex (s : Store) (i : IndexMetadata) : Status × Store :=
  match validateIndexShape i with
  | .error e => (.error e,s)
  | .ok () =>
    if (s.maps.findIndex i.name).isSome then (fail .alreadyExists ("索引已存在: " ++ i.name),s)
    else match s.maps.findTable i.tableName with
      | none => (fail .notFound ("索引所属表不存在: " ++ i.tableName),s)
      | some t =>
        if t.schema.any fun col => col.name = i.columnName then
          match Codec.encodeIndex i with
          | .error e => (.error e,s)
          | .ok bytes => (.ok (),⟨append geometry bytes s.pages,s.maps.insertIndex i⟩)
        else (fail .notFound ("索引列不存在: " ++ i.tableName ++ "." ++ i.columnName),s)

def dropIndex (s : Store) (name : String) : Status × Store :=
  match s.maps.findIndex name with
  | none => (fail .notFound ("Catalog 未找到索引: " ++ name),s)
  | some _ =>
    match SlotChain.findRecord (wantsIndex name) s.pages with
    | .error e => (.error e,s)
    | .ok none => (fail .internalError "Catalog 内存索引缺少对应的磁盘记录",s)
    | .ok (some (k,slot)) => (.ok (),⟨SlotChain.deleteAt s.pages k slot,s.maps.eraseIndex name⟩)

/-- The status of a rewritten record that finds no room. -/
def noSpace : Status :=
  fail .internalError "更新Catalog索引根页面记录失败: OutOfSpace: 页面没有足够的总空间容纳记录"

def updateIndexRootPageId (s : Store) (name : String) (root : PageId) : Status × Store :=
  if root = 0 then (fail .invalidArgument "索引根页面编号不能是superblock",s)
  else match s.maps.findIndex name with
    | none => (fail .notFound ("Catalog 未找到索引: " ++ name),s)
    | some i =>
      match Codec.encodeIndex { i with rootPageId := root } with
      | .error e => (.error e,s)
      | .ok bytes =>
        match SlotChain.findRecord (wantsIndex name) s.pages with
        | .error e => (.error e,s)
        | .ok none => (fail .internalError "Catalog 内存索引缺少对应的磁盘记录",s)
        | .ok (some (k,slot)) =>
          let deleted := (s.pages.getD k []).deleteRecord slot
          match deleted.insertRecord geometry bytes with
          | none => (noSpace,{ s with pages := s.pages.set k deleted })
          | some page => (.ok (),⟨s.pages.set k page,s.maps.setRoot name root⟩)

end Store

inductive Call
  | createTable (t : TableMetadata) (dataPage : PageId)
  | dropTable (name : String)
  | createIndex (i : IndexMetadata)
  | dropIndex (name : String)
  | updateIndexRootPageId (name : String) (root : PageId)
  deriving DecidableEq

def Store.run (s : Store) : Call → Status × Store
  | .createTable t dataPage => s.createTable t dataPage
  | .dropTable name => s.dropTable name
  | .createIndex i => s.createIndex i
  | .dropIndex name => s.dropIndex name
  | .updateIndexRootPageId name root => s.updateIndexRootPageId name root

/-- Arguments as their C++ types have them, and a page the allocator may hand out. -/
def Call.Typed : Call → Prop
  | .createTable t dataPage => MachineTable t ∧ dataPage ≠ 0 ∧ dataPage < invalidPageId
  | .createIndex i => i.rootPageId ≤ maxU32
  | .updateIndexRootPageId _ root => root ≤ maxU32
  | _ => True

def Store.Step (s : Store) (c : Call) (s' : Store) : Prop := c.Typed ∧ (s.run c).2 = s'

/-- Memory as `Open` has just loaded it, from any pages it accepts. -/
def Store.Opened (s : Store) : Prop := openChain s.pages = .ok s.maps

/-! ### What the bytes say -/

def decodeRecord (bytes : List UInt8) : Result Record :=
  if bytes.length < 4 then fail .invalidArgument "Catalog 元数据记录头损坏"
  else if isTableMagic bytes then (Codec.decodeTable bytes).map Record.table
  else if isIndexMagic bytes then (decodeIndex bytes).map Record.index
  else fail .invalidArgument "Catalog 元数据记录类型未知"

def Readable (bs : List (List UInt8)) : Prop := ∀ b ∈ bs, ∃ r, decodeRecord b = .ok r

def decoded (bs : List (List UInt8)) : List Record :=
  bs.filterMap fun b => (decodeRecord b).toOption

theorem decodeRecord_table {bytes : List UInt8} {t : TableMetadata} :
    decodeRecord bytes = .ok (.table t) ↔ Codec.decodeTable bytes = .ok t := by
  constructor
  · intro h
    simp only [decodeRecord] at h
    split at h
    · simp [fail] at h
    split at h
    · cases hd : Codec.decodeTable bytes with
      | error e => simp [hd,Except.map] at h
      | ok t' => simpa [hd,Except.map] using h
    split at h
    · cases hd : decodeIndex bytes with
      | error e => simp [hd,Except.map] at h
      | ok i => simp [hd,Except.map] at h
    · simp [fail] at h
  · intro h
    obtain ⟨hl,hm⟩ := decodeTable_magic h
    rw [decodeRecord,if_neg (by omega),if_pos hm,h]
    rfl

theorem magic_exclusive {bytes : List UInt8} (h : isIndexMagic bytes = true) :
    isTableMagic bytes = false := by
  have hi : Bytes.loadAt 4 bytes 0 = kIndexRecordMagic := by simpa [isIndexMagic] using h
  rw [isTableMagic,hi]
  decide

theorem decodeRecord_index {bytes : List UInt8} {i : IndexMetadata} :
    decodeRecord bytes = .ok (.index i) ↔ decodeIndex bytes = .ok i := by
  constructor
  · intro h
    simp only [decodeRecord] at h
    split at h
    · simp [fail] at h
    split at h
    · cases hd : Codec.decodeTable bytes with
      | error e => simp [hd,Except.map] at h
      | ok t => simp [hd,Except.map] at h
    split at h
    · cases hd : decodeIndex bytes with
      | error e => simp [hd,Except.map] at h
      | ok i' => simpa [hd,Except.map] using h
    · simp [fail] at h
  · intro h
    obtain ⟨hl,hm⟩ := decodeIndex_magic h
    rw [decodeRecord,if_neg (by omega),magic_exclusive hm,if_neg (by simp),if_pos hm,h]
    rfl

theorem wantsTable_of {bytes : List UInt8} {r : Record} (h : decodeRecord bytes = .ok r)
    (name : String) : wantsTable name bytes = .ok (isTable name r) := by
  cases r with
  | table t =>
    have hd := decodeRecord_table.mp h
    obtain ⟨hl,hm⟩ := decodeTable_magic hd
    have hlen : ¬ bytes.length < 4 := by omega
    simp [wantsTable,hlen,hm,hd,isTable]
  | index i =>
    obtain ⟨-,hm⟩ := decodeIndex_magic (decodeRecord_index.mp h)
    simp [wantsTable,magic_exclusive hm,isTable]

theorem wantsIndex_of {bytes : List UInt8} {r : Record} (h : decodeRecord bytes = .ok r)
    (name : String) : wantsIndex name bytes = .ok (isIndex name r) := by
  cases r with
  | table t =>
    obtain ⟨-,ht⟩ := decodeTable_magic (decodeRecord_table.mp h)
    have hm : isIndexMagic bytes = false := by
      by_contra hm
      have hno := magic_exclusive (by simpa using hm)
      rw [ht] at hno
      simp at hno
    simp [wantsIndex,hm,isIndex]
  | index i =>
    have hd := decodeRecord_index.mp h
    obtain ⟨hl,hm⟩ := decodeIndex_magic hd
    have hlen : ¬ bytes.length < 4 := by omega
    simp [wantsIndex,hlen,hm,hd,isIndex]

theorem decoded_cons {b : List UInt8} {r : Record} (h : decodeRecord b = .ok r)
    (bs : List (List UInt8)) : decoded (b::bs) = r::decoded bs := by
  rw [decoded,List.filterMap_cons,h]
  rfl

theorem readable_cons {b : List UInt8} {bs : List (List UInt8)} :
    Readable (b::bs) ↔ (∃ r, decodeRecord b = .ok r) ∧ Readable bs := List.forall_mem_cons

/-- The scan of a record is the scan of what it decodes to. -/
theorem scanBytes_eq (acc : Maps × List IndexMetadata) (bytes : List UInt8) :
    scanBytes acc bytes =
      match decodeRecord bytes with
      | .error e => .error e
      | .ok r => scanRecord acc r := by
  simp only [scanBytes,decodeRecord]
  split
  · rfl
  split
  · cases hd : Codec.decodeTable bytes with
    | error e => rfl
    | ok t => simp only [Except.map,scanRecord,decodeTable_ok hd]
  split
  · cases hd : decodeIndex bytes with
    | error e => rfl
    | ok i => simp only [Except.map,scanRecord,decodeIndex_ok hd]
  · rfl

theorem scanSlots_iff {bs : List (List UInt8)} {acc acc' : Maps × List IndexMetadata} :
    scanSlots acc bs = .ok acc' ↔ Readable bs ∧ scanRecords acc (decoded bs) = .ok acc' := by
  induction bs generalizing acc with
  | nil => simp [scanSlots,Readable,decoded,scanRecords]
  | cons b bs ih =>
    simp only [scanSlots,scanBytes_eq,readable_cons]
    cases hd : decodeRecord b with
    | error e => simp
    | ok r =>
      rw [decoded_cons hd]
      simp only [scanRecords]
      cases scanRecord acc r with
      | error e => simp
      | ok acc₁ =>
        simp only [ih]
        simp

theorem scanSlots_append (acc : Maps × List IndexMetadata) (bs bs' : List (List UInt8)) :
    scanSlots acc (bs ++ bs') =
      match scanSlots acc bs with
      | .error e => .error e
      | .ok acc => scanSlots acc bs' := by
  induction bs generalizing acc with
  | nil => rfl
  | cons b bs ih =>
    simp only [List.cons_append,scanSlots]
    cases scanBytes acc b with
    | error e => rfl
    | ok acc' => exact ih acc'

theorem scanChain_iff {pages : List (Page (List UInt8))} {acc acc' : Maps × List IndexMetadata} :
    scanChain acc pages = .ok acc' ↔
      scanSlots acc (SlotChain.recordsOf pages) = .ok acc' ∧ Fits geometry pages := by
  induction pages generalizing acc with
  | nil => simp [scanChain,SlotChain.recordsOf,scanSlots,Fits]
  | cons p ps ih =>
    rw [SlotChain.recordsOf_cons,scanSlots_append]
    simp only [scanChain,Fits,List.forall_mem_cons]
    have hcap : geometry.capacity = pageSize := rfl
    rw [hcap]
    by_cases hu : pageSize < p.used geometry
    · simp [if_pos hu,fail,not_le.mpr hu]
    · rw [if_neg hu]
      cases scanSlots acc p.records with
      | error e => simp
      | ok acc₁ =>
        simp only [ih]
        simp [not_lt.mp hu,Fits,hcap]

/-- Memory and pages describe one catalog. -/
structure Store.Inv (s : Store) : Prop where
  readable : Readable (SlotChain.recordsOf s.pages)
  reads : Reads (decoded (SlotChain.recordsOf s.pages)) s.maps
  fits : Fits geometry s.pages

/-- `Open` succeeds on exactly the bytes that describe a catalog, and loads that catalog. -/
theorem opened_iff {s : Store} : s.Opened ↔ s.Inv := by
  rw [Store.Opened,openChain]
  constructor
  · intro h
    split at h
    · simp at h
    · next acc is hscan =>
      obtain ⟨hs,hf⟩ := scanChain_iff.mp hscan
      obtain ⟨hr,hs⟩ := scanSlots_iff.mp hs
      exact ⟨hr,scan_attach_iff.mp ⟨(acc,is),hs,h⟩,hf⟩
  · rintro ⟨hr,hc,hf⟩
    obtain ⟨acc,hs,h⟩ := scan_attach_iff.mpr hc
    rw [scanChain_iff.mpr ⟨scanSlots_iff.mpr ⟨hr,hs⟩,hf⟩]
    exact h

theorem decoded_perm {bs bs' : List (List UInt8)} (h : bs.Perm bs') :
    (decoded bs).Perm (decoded bs') := h.filterMap _

theorem Readable.perm {bs bs' : List (List UInt8)} (h : Readable bs) (hp : bs.Perm bs') :
    Readable bs' := fun b hb => h b (hp.mem_iff.mpr hb)

/-- Records that describe the maps, in any order and on pages that hold them. -/
theorem inv_of_perm {s : Store} {bs : List (List UInt8)} {rs : List Record}
    (hp : (SlotChain.recordsOf s.pages).Perm bs) (hb : Readable bs) (hd : decoded bs = rs)
    (hr : Reads rs s.maps) (hf : Fits geometry s.pages) : s.Inv where
  readable := hb.perm hp.symm
  reads := hr.perm (hd ▸ (decoded_perm hp).symm)
  fits := hf

/-- A new record at the end of the scan, on whichever page has room. -/
theorem append_inv {s : Store} (h : s.Inv) {bytes : List UInt8} {r : Record} {c : Maps}
    (hd : decodeRecord bytes = .ok r) (hs : bytes.length ≤ maxRecordSize)
    (hc : Reads (r::decoded (SlotChain.recordsOf s.pages)) c) :
    Store.Inv ⟨append geometry bytes s.pages,c⟩ := by
  refine inv_of_perm (append_records geometry bytes s.pages)
    (readable_cons.mpr ⟨⟨r,hd⟩,h.readable⟩) (decoded_cons hd _) hc (h.fits.append ?_)
  simp only [geometry,headerSize,slotSize,pageSize]
  simp only [maxRecordSize,pageSize,headerSize,slotSize] at hs
  omega

/-- A deleted record leaves the rest of the scan as it was. -/
theorem deleteAt_inv {s : Store} (h : s.Inv) {wanted : List UInt8 → Result Bool}
    {want : Record → Bool} {k slot : ℕ}
    (hf : SlotChain.findRecord wanted s.pages = .ok (some (k,slot)))
    (hw : ∀ bytes r, decodeRecord bytes = .ok r → wanted bytes = .ok (want r)) {c : Maps}
    (hc : ∀ r rest, want r = true → (decoded (SlotChain.recordsOf s.pages)).Perm (r::rest) →
      Reads rest c) : Store.Inv ⟨SlotChain.deleteAt s.pages k slot,c⟩ := by
  obtain ⟨bytes,hb,hp,hfit⟩ := deleteAt_records hf h.fits
  obtain ⟨⟨r,hr⟩,hrest⟩ := readable_cons.mp (h.readable.perm hp)
  have hwant : want r = true := by
    have he := (hw bytes r hr).symm.trans hb
    simpa using he
  refine inv_of_perm (List.Perm.refl _) hrest rfl (hc r _ hwant ?_) hfit
  rw [← decoded_cons hr]
  exact decoded_perm hp

theorem createTable_inv {s : Store} (h : s.Inv) {t : TableMetadata} {dataPage : PageId}
    (ht : (Call.createTable t dataPage).Typed) : (s.createTable t dataPage).2.Inv := by
  obtain ⟨hm,hz,hlt⟩ := ht
  simp only [Store.createTable]
  split
  · exact h
  next hv =>
  split
  · exact h
  split
  · exact h
  next hfresh =>
  split
  · exact h
  next bytes he =>
  have hdec : Catalog.decodeTable { t with firstDataPageId := dataPage } = .ok () := by
    rw [Catalog.decodeTable,if_neg (not_or.mpr ⟨hz,ne_of_lt hlt⟩)]
    exact hv
  have hpage : dataPage ≤ maxU32 := le_of_lt hlt
  obtain ⟨rfl,hread,hsize⟩ := decodeTable_encodeTable he hdec hm hpage
  rw [← tableBytes_length] at hsize
  exact append_inv h (decodeRecord_table.mpr hread) hsize
    (reads_insertTable h.reads (by simpa using hfresh) hdec)

theorem createIndex_inv {s : Store} (h : s.Inv) {i : IndexMetadata}
    (ht : (Call.createIndex i).Typed) : (s.createIndex i).2.Inv := by
  simp only [Store.createIndex]
  split
  · exact h
  split
  · exact h
  next hfresh =>
  split
  · exact h
  next t hfind =>
  split
  · next hany =>
    split
    · exact h
    · next bytes he =>
      obtain ⟨hok,rfl⟩ := encodeIndex_ok_iff.mp he
      obtain ⟨hv,hsize⟩ := Catalog.encodeIndex_ok hok
      have hown : Owned s.maps i :=
        ⟨t,List.mem_of_find?_eq_some hfind,by simpa using List.find?_some hfind,
          by simpa [HasColumn] using hany⟩
      rw [← indexBytes_length] at hsize
      exact append_inv h (decodeRecord_index.mpr (decodeIndex_indexBytes hok ht)) hsize
        (reads_insertIndex h.reads (by simpa using hfresh) hv hown)
  · exact h

theorem dropTable_inv {s : Store} (h : s.Inv) (name : String) : (s.dropTable name).2.Inv := by
  simp only [Store.dropTable]
  split
  · exact h
  split
  · exact h
  next hany =>
  split
  · exact h
  · exact h
  · next k slot hf =>
    refine deleteAt_inv h hf (fun bytes r hr => wantsTable_of hr name) fun r rest hw hp => ?_
    obtain ⟨t,rfl,rfl⟩ := isTable_eq hw
    exact reads_eraseTable h.reads hp (by simpa using hany)

theorem dropIndex_inv {s : Store} (h : s.Inv) (name : String) : (s.dropIndex name).2.Inv := by
  simp only [Store.dropIndex]
  split
  · exact h
  split
  · exact h
  · exact h
  · next k slot hf =>
    refine deleteAt_inv h hf (fun bytes r hr => wantsIndex_of hr name) fun r rest hw hp => ?_
    obtain ⟨i,rfl,rfl⟩ := isIndex_eq hw
    exact reads_eraseIndex h.reads hp

/-- The index a call names has one record, which `findRecord` reaches. -/
theorem findRecord_index {s : Store} (h : s.Inv) {name : String} {i : IndexMetadata}
    (hi : s.maps.findIndex name = some i) : ∃ k slot,
      SlotChain.findRecord (wantsIndex name) s.pages = .ok (some (k,slot)) := by
  have htotal : ∀ b ∈ SlotChain.recordsOf s.pages, ∃ w, wantsIndex name b = .ok w := by
    intro b hb
    obtain ⟨r,hr⟩ := h.readable b hb
    exact ⟨_,wantsIndex_of hr name⟩
  rcases findRecord_total htotal with ⟨at_,hat⟩ | ⟨-,hall⟩
  · exact ⟨at_.1,at_.2,hat⟩
  · exfalso
    have hmem : i ∈ indexesOf (decoded (SlotChain.recordsOf s.pages)) :=
      h.reads.indexes.mem_iff.mp (List.mem_of_find?_eq_some hi)
    obtain ⟨r,hr,hri⟩ := List.mem_filterMap.mp hmem
    obtain ⟨b,hb,hbr⟩ := List.mem_filterMap.mp hr
    obtain ⟨r',hr'⟩ := h.readable b hb
    rw [hr'] at hbr
    obtain rfl : r' = r := by simpa [Except.toOption] using hbr
    have hname : i.name = name := by simpa using List.find?_some hi
    cases r' with
    | table t => simp at hri
    | index j =>
      obtain rfl : j = i := by simpa using hri
      have hno := (wantsIndex_of hr' name).symm.trans (hall b hb)
      simp [isIndex,hname] at hno

/-- A moved root is rewritten where the old record was, whatever the page holds. -/
theorem update_ok {s : Store} (h : s.Inv) {name : String} {i : IndexMetadata} {root : PageId}
    (hi : s.maps.findIndex name = some i) (hroot : root ≠ 0) :
    ∃ s', s.updateIndexRootPageId name root = (.ok (),s') ∧ (root ≤ maxU32 → s'.Inv) := by
  obtain ⟨k,slot,hf⟩ := findRecord_index h hi
  obtain ⟨p,bytes,hp,hb,hmem,hrewrite⟩ := rewrite_records hf h.fits
  obtain ⟨r,hr⟩ := h.readable bytes hmem
  have hw : isIndex name r = true := by
    have he := (wantsIndex_of hr name).symm.trans hb
    simpa using he
  obtain ⟨j,rfl,hj⟩ := isIndex_eq hw
  have hjmem : j ∈ s.maps.indexes := by
    refine h.reads.indexes.mem_iff.mpr (List.mem_filterMap.mpr ⟨.index j,?_,rfl⟩)
    exact List.mem_filterMap.mpr ⟨bytes,hmem,by simp [hr,Except.toOption]⟩
  have hname : i.name = name := by simpa using List.find?_some hi
  obtain rfl : j = i :=
    h.reads.indexesKeyed.eq_of_key hjmem (List.mem_of_find?_eq_some hi) (hj.trans hname.symm)
  -- the new record has the length of the old one, which the page held
  have hlen : (indexBytes { j with rootPageId := root }).length = bytes.length := by
    rw [indexBytes_length,decodeIndex_length (decodeRecord_index.mp hr)]
    rfl
  have hsize := h.fits.size_le hmem
  simp only [geometry] at hsize
  have henc : Catalog.encodeIndex { j with rootPageId := root } = .ok () := by
    have hold := h.reads.index_valid j hjmem
    have hnew : validateIndexShape { j with rootPageId := root } = .ok () := by
      simp only [validateIndexShape] at hold ⊢
      split at hold
      · simp [fail] at hold
      next h₁ =>
      split at hold
      · simp [fail] at hold
      next h₂ =>
      split at hold
      · simp [fail] at hold
      next h₃ =>
      rw [if_neg h₁,if_neg h₂,if_neg h₃,if_neg hroot]
    have hshort : ¬ maxRecordSize < (Record.index { j with rootPageId := root }).size := by
      rw [← indexBytes_length,hlen]
      simp only [maxRecordSize,pageSize,headerSize,slotSize] at hsize ⊢
      omega
    simp only [Catalog.encodeIndex,hnew,if_neg hshort]
  have hbytes := encodeIndex_ok_iff.mpr ⟨henc,rfl⟩
  obtain ⟨q,rest,hins,hnow,hthen,hfit⟩ :=
    hrewrite (indexBytes { j with rootPageId := root }) (le_of_eq hlen)
  have hget : s.pages.getD k [] = p := by simp [List.getD,hp]
  refine ⟨⟨s.pages.set k q,s.maps.setRoot name root⟩,?_,fun hmax => ?_⟩
  · simp only [Store.updateIndexRootPageId,if_neg hroot,hi,hbytes,hf,hget,hins]
  · have hread := decodeRecord_index.mpr (decodeIndex_indexBytes henc hmax)
    have hrest := (readable_cons.mp (h.readable.perm hnow)).2
    refine inv_of_perm hthen (readable_cons.mpr ⟨⟨_,hread⟩,hrest⟩) (decoded_cons hread _) ?_ hfit
    rw [← hj]
    refine reads_setRoot h.reads ?_ (Catalog.encodeIndex_ok henc).1
    rw [← decoded_cons hr]
    exact decoded_perm hnow

theorem update_inv {s : Store} (h : s.Inv) {name : String} {root : PageId}
    (ht : (Call.updateIndexRootPageId name root).Typed) :
    (s.updateIndexRootPageId name root).2.Inv := by
  by_cases hroot : root = 0
  · simp only [Store.updateIndexRootPageId,if_pos hroot]
    exact h
  · cases hi : s.maps.findIndex name with
    | none =>
      simp only [Store.updateIndexRootPageId,if_neg hroot,hi]
      exact h
    | some i =>
      obtain ⟨s',hs,hinv⟩ := update_ok h hi hroot
      rw [hs]
      exact hinv ht

theorem step_inv {s s' : Store} {c : Call} (h : s.Inv) (hs : s.Step c s') : s'.Inv := by
  obtain ⟨ht,rfl⟩ := hs
  cases c with
  | createTable t dataPage => exact createTable_inv h ht
  | dropTable name => exact dropTable_inv h name
  | createIndex i => exact createIndex_inv h ht
  | dropIndex name => exact dropIndex_inv h name
  | updateIndexRootPageId name root => exact update_inv h ht

/-- After any calls on a catalog that was opened, opening its pages anew loads what
memory shows, every index record is on a column of a table, and a root can be
moved. -/
theorem open_persisted {s : Store} (h : Transition.Reach Store.Opened Store.Step s) :
    openChain s.pages = .ok s.maps ∧
      (∀ bytes ∈ SlotChain.recordsOf s.pages, ∀ i, decodeIndex bytes = .ok i →
        i ∈ s.maps.indexes ∧ Owned s.maps i) ∧
      ∀ name root, (s.updateIndexRootPageId name root).1 ≠ Store.noSpace ∧
        ((s.maps.findIndex name).isSome → root ≠ 0 →
          (s.updateIndexRootPageId name root).1 = .ok ()) := by
  have hinv : s.Inv :=
    h.invariant (P := Store.Inv) (fun _ => opened_iff.mp) fun _ _ _ => step_inv
  refine ⟨opened_iff.mpr hinv,?_,?_⟩
  · intro bytes hb i hi
    have hd := decodeRecord_index.mpr hi
    have hmem : i ∈ s.maps.indexes := by
      refine hinv.reads.indexes.mem_iff.mpr (List.mem_filterMap.mpr ⟨.index i,?_,rfl⟩)
      exact List.mem_filterMap.mpr ⟨bytes,hb,by simp [hd,Except.toOption]⟩
    exact ⟨hmem,hinv.reads.owned i hmem⟩
  · intro name root
    have hok : ∀ i, s.maps.findIndex name = some i → root ≠ 0 →
        (s.updateIndexRootPageId name root).1 = .ok () := by
      intro i hi hroot
      obtain ⟨s',hs,-⟩ := update_ok hinv hi hroot
      rw [hs]
    refine ⟨?_,fun hsome hroot => ?_⟩
    · by_cases hroot : root = 0
      · simp [Store.updateIndexRootPageId,if_pos hroot,Store.noSpace,fail]
      · cases hi : s.maps.findIndex name with
        | none => simp [Store.updateIndexRootPageId,if_neg hroot,hi,Store.noSpace,fail]
        | some i =>
          rw [hok i hi hroot]
          simp [Store.noSpace,fail]
    · obtain ⟨i,hi⟩ := Option.isSome_iff_exists.mp hsome
      exact hok i hi hroot

/-- A new database: one empty catalog page. -/
def created : Store := ⟨[[]],Maps.empty⟩

def accounts : TableMetadata :=
  ⟨"accounts",[{ name := "id",type := .int,nullable := false,primaryKey := true,unique := true },
    { name := "owner",type := .varchar,length := some 8,defaultValue := some (.varchar "none") }],0⟩

theorem accounts_typed : (Call.createTable accounts 2).Typed := by
  refine ⟨fun c hc n hn => ?_,by decide,by decide⟩
  rcases List.mem_cons.mp hc with rfl | hc
  · simp at hn
  · rw [List.mem_singleton.mp hc] at hn
    simp at hn

def byOwner : IndexMetadata := ⟨"byOwner","accounts","owner",7,false⟩

def indexed : Store := ((created.run (.createTable accounts 2)).2.run (.createIndex byOwner)).2

/-- The same after the root of the index has moved. -/
def moved : Store := (indexed.run (.updateIndexRootPageId "byOwner" 9)).2

theorem moved_reached : Transition.Reach Store.Opened Store.Step moved := by
  have hopen : created.Opened := rfl
  have hseven : (7 : ℕ) ≤ maxU32 := by decide
  have hnine : (9 : ℕ) ≤ maxU32 := by decide
  have htable : created.Step (.createTable accounts 2) _ := ⟨accounts_typed,rfl⟩
  have hindex : Store.Step _ (.createIndex byOwner) indexed := ⟨hseven,rfl⟩
  have hmove : indexed.Step (.updateIndexRootPageId "byOwner" 9) moved := ⟨hnine,rfl⟩
  exact .step (.step (.step (.init hopen) htable) hindex) hmove

theorem open_persisted_moved : moved.maps.indexes = [⟨"byOwner","accounts","owner",9,false⟩] ∧
    openChain moved.pages = .ok moved.maps :=
  ⟨by decide +kernel,(open_persisted moved_reached).1⟩

end Persist
end Catalog
end OurSql
