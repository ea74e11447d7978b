import OurSql.Catalog.Persist

/-! `Open` on an object that an earlier attempt has left behind. The walk fills
`tables_` as it goes, so a page that cannot be fetched leaves the tables of the
pages before it in memory, where the next attempt finds them. -/
namespace OurSql
namespace Catalog
namespace Persist

open Codec SlotChain

/-- `tables_` and `indexes_`, and `opened_`. -/
structure Object where
  maps : Maps
  opened : Bool
  deriving DecidableEq

def Object.new : Object := ⟨Maps.empty,false⟩

/-! ### The loops, with what they leave behind -/

def slotsLeft (acc : Maps × List IndexMetadata) :
    List (List UInt8) → Status × (Maps × List IndexMetadata)
  | [] => (.ok (),acc)
  | r::rs =>
    match scanBytes acc r with
    | .error e => (.error e,acc)
    | .ok acc => slotsLeft acc rs

/-- `fetch k` is the answer of `FetchPage` for the page at position `k` of the chain. -/
def walk (fetch : ℕ → Status) (k : ℕ) (acc : Maps × List IndexMetadata) :
    List (Page (List UInt8)) → Status × (Maps × List IndexMetadata)
  | [] => (.ok (),acc)
  | p::ps =>
    match fetch k with
    | .error e => (.error e,acc)
    | .ok () =>
      if pageSize < p.used geometry then
        (fail .invalidArgument "Slotted Page 空闲区边界非法",acc)
      else match slotsLeft acc p.records with
        | (.error e,acc) => (.error e,acc)
        | (.ok (),acc) => walk fetch (k + 1) acc ps

def attachLeft (c : Maps) : List IndexMetadata → Status × Maps
  | [] => (.ok (),c)
  | i::is =>
    if (c.findIndex i.name).isSome then
      (fail .alreadyExists ("Catalog 出现重复索引: " ++ i.name),c)
    else match c.findTable i.tableName with
      | none => (fail .invalidArgument ("Catalog 索引引用不存在的表: " ++ i.tableName),c)
      | some t =>
        if t.schema.any fun col => col.name = i.columnName then attachLeft (c.insertIndex i) is
        else (fail .invalidArgument ("Catalog 索引引用不存在的列: " ++ i.columnName),c)

/-- `Catalog::Open`; the indexes found by the walk are local to the call, the tables are not. -/
def Object.openOn (o : Object) (fetch : ℕ → Status) (pages : List (Page (List UInt8))) :
    Status × Object :=
  if o.opened then (.ok (),o)
  else match walk fetch 0 (o.maps,[]) pages with
    | (.error e,acc) => (.error e,⟨acc.1,false⟩)
    | (.ok (),acc) =>
      match attachLeft acc.1 acc.2 with
      | (.error e,c) => (.error e,⟨c,false⟩)
      | (.ok (),c) => (.ok (),⟨c,true⟩)

/-- `Catalog::Reload` clears the maps first. -/
def Object.reload (_ : Object) (fetch : ℕ → Status) (pages : List (Page (List UInt8))) :
    Status × Object := Object.new.openOn fetch pages

/-- Storage on which every page can be read. -/
def working (_ : ℕ) : Status := .ok ()

theorem slotsLeft_ok {bs : List (List UInt8)} {acc acc' : Maps × List IndexMetadata} :
    slotsLeft acc bs = (.ok (),acc') ↔ scanSlots acc bs = .ok acc' := by
  induction bs generalizing acc with
  | nil => simp [slotsLeft,scanSlots]
  | cons b bs ih =>
    simp only [slotsLeft,scanSlots]
    cases scanBytes acc b with
    | error e => simp
    | ok acc₁ => exact ih

theorem attachLeft_ok {is : List IndexMetadata} {c c' : Maps} :
    attachLeft c is = (.ok (),c') ↔ attachIndexes c is = .ok c' := by
  induction is generalizing c with
  | nil => simp [attachLeft,attachIndexes]
  | cons i is ih =>
    simp only [attachLeft,attachIndexes]
    by_cases hd : (c.findIndex i.name).isSome
    · simp [if_pos hd,fail]
    · rw [if_neg hd,if_neg hd]
      cases c.findTable i.tableName with
      | none => simp [fail]
      | some t =>
        by_cases hc : (t.schema.any fun col => col.name = i.columnName) = true
        · simp only [hc,if_true]
          exact ih
        · simp [hc,fail]

/-- The walk gets through a chain it can read, whatever comes after. -/
theorem walk_append {fetch : ℕ → Status} {ps : List (Page (List UInt8))} {k : ℕ}
    {acc acc' : Maps × List IndexMetadata} (qs : List (Page (List UInt8))) (h : scanChain acc ps = .ok acc')
    (hf : ∀ i < ps.length, fetch (k + i) = .ok ()) :
    walk fetch k acc (ps ++ qs) = walk fetch (k + ps.length) acc' qs := by
  induction ps generalizing k acc with
  | nil =>
    obtain rfl := Except.ok.inj h
    rfl
  | cons p ps ih =>
    have hk : fetch k = .ok () := hf 0 (by simp)
    simp only [scanChain] at h
    by_cases hu : pageSize < p.used geometry
    · rw [if_pos hu] at h
      simp [fail] at h
    · rw [if_neg hu] at h
      cases hs : scanSlots acc p.records with
      | error e => simp [hs] at h
      | ok acc₁ =>
        simp only [hs] at h
        have hrest : ∀ i < ps.length, fetch (k + 1 + i) = .ok () := by
          intro i hi
          have hn := hf (i + 1) (by simpa using hi)
          rwa [show k + (i + 1) = k + 1 + i by omega] at hn
        rw [List.cons_append,walk,hk]
        simp only [if_neg hu,slotsLeft_ok.mpr hs]
        rw [ih h hrest,List.length_cons,show k + 1 + ps.length = k + (ps.length + 1) by omega]

theorem walk_working {ps : List (Page (List UInt8))} {k : ℕ}
    {acc acc' : Maps × List IndexMetadata} :
    walk working k acc ps = (.ok (),acc') ↔ scanChain acc ps = .ok acc' := by
  induction ps generalizing k acc with
  | nil => simp [walk,scanChain]
  | cons p ps ih =>
    simp only [walk,scanChain,working]
    by_cases hu : pageSize < p.used geometry
    · simp [if_pos hu,fail]
    · rw [if_neg hu,if_neg hu]
      cases hl : slotsLeft acc p.records with
      | mk status acc₁ =>
        cases status with
        | ok u =>
          rw [slotsLeft_ok.mp hl]
          exact ih
        | error e =>
          cases hs : scanSlots acc p.records with
          | error e' => simp
          | ok acc₂ =>
            rw [slotsLeft_ok.mpr hs] at hl
            simp at hl

/-- On working storage an attempt succeeds as the scan from the maps it starts with does. -/
theorem openOn_working {o : Object} (ho : o.opened = false) {pages : List (Page (List UInt8))}
    {c : Maps} : o.openOn working pages = (.ok (),⟨c,true⟩) ↔
      ∃ acc, scanChain (o.maps,[]) pages = .ok acc ∧ attachIndexes acc.1 acc.2 = .ok c := by
  rw [Object.openOn,ho]
  simp only [Bool.false_eq_true,if_false]
  cases hw : walk working 0 (o.maps,[]) pages with
  | mk status acc =>
    cases status with
    | error e =>
      simp only [Prod.mk.injEq,reduceCtorEq,false_and,false_iff]
      rintro ⟨acc',hs,-⟩
      rw [walk_working.mpr hs] at hw
      simp at hw
    | ok u =>
      simp only [walk_working.mp hw,Except.ok.injEq,exists_eq_left']
      cases ha : attachLeft acc.1 acc.2 with
      | mk status d =>
        cases status with
        | ok u => simp [attachLeft_ok.mp ha]
        | error e =>
          simp only [Prod.mk.injEq,reduceCtorEq,false_and,false_iff]
          intro hc
          rw [attachLeft_ok.mpr hc] at ha
          simp at ha

/-- After `Reload` nothing of an earlier attempt is left, so it loads what is stored. -/
theorem reload_loads {s : Store} (h : s.Opened) (o : Object) :
    o.reload working s.pages = (.ok (),⟨s.maps,true⟩) := by
  refine (openOn_working rfl).mpr ?_
  rw [Store.Opened,openChain] at h
  cases hs : scanChain (Maps.empty,[]) s.pages with
  | error e => simp [hs] at h
  | ok acc => exact ⟨acc,hs,by simpa [hs] using h⟩

/-! ### A table that is already there -/

theorem findTable_isSome {c : Maps} {name : String} :
    (c.findTable name).isSome = true ↔ ∃ t ∈ c.tables, t.name = name := by
  simp [Maps.findTable]

/-- No step of the scan takes a table away. -/
theorem scanRecord_keeps {acc acc' : Maps × List IndexMetadata} {r : Record}
    (h : scanRecord acc r = .ok acc') {t : TableMetadata} (ht : t ∈ acc.1.tables) :
    t ∈ acc'.1.tables := by
  cases r with
  | index i =>
    simp only [scanRecord] at h
    cases hv : validateIndexShape i with
    | error e => simp [hv] at h
    | ok u =>
      obtain rfl : (acc.1,acc.2 ++ [i]) = acc' := by simpa [hv] using h
      exact ht
  | table x =>
    simp only [scanRecord] at h
    cases hv : Catalog.decodeTable x with
    | error e => simp [hv] at h
    | ok u =>
      simp only [hv] at h
      by_cases hd : (acc.1.findTable x.name).isSome
      · simp [hd,fail] at h
      · obtain rfl : (acc.1.insertTable x,acc.2) = acc' := by simpa [hd] using h
        exact (List.mem_orderedInsert _).mpr (.inr ht)

/-- A scan that starts with a table of its own records fails. -/
theorem scanRecords_repeated {rs : List Record} {acc acc' : Maps × List IndexMetadata}
    {t : TableMetadata} (ht : t ∈ acc.1.tables) (hr : .table t ∈ rs) :
    scanRecords acc rs ≠ .ok acc' := by
  induction rs generalizing acc with
  | nil => simp at hr
  | cons r rs ih =>
    intro h
    simp only [scanRecords] at h
    cases hs : scanRecord acc r with
    | error e => simp [hs] at h
    | ok acc₁ =>
      simp only [hs] at h
      rcases List.mem_cons.mp hr with rfl | hr
      · have hfound : (acc.1.findTable t.name).isSome = true := findTable_isSome.mpr ⟨t,ht,rfl⟩
        simp only [scanRecord] at hs
        cases hv : Catalog.decodeTable t with
        | error e => simp [hv] at hs
        | ok u => simp [hv,hfound,fail] at hs
      · exact ih (scanRecord_keeps hs ht) hr h

theorem magic_of_decoded {bytes : List UInt8} {r : Record} (h : decodeRecord bytes = .ok r) :
    isTableMagic bytes = true ↔ ∃ t, r = .table t := by
  cases r with
  | table t => simp [(decodeTable_magic (decodeRecord_table.mp h)).2]
  | index i => simp [magic_exclusive (decodeIndex_magic (decodeRecord_index.mp h)).2]

theorem tablesOf_eq_nil {rs : List Record} :
    tablesOf rs = [] ↔ ∀ t, Record.table t ∉ rs := by
  induction rs with
  | nil => simp
  | cons r rs ih =>
    cases r with
    | table t =>
      simp only [tablesOf_table,List.cons_ne_nil,false_iff]
      intro h
      exact h t List.mem_cons_self
    | index i => simp [ih]

/-- No record of the bytes is a table record. -/
def NoTable (bs : List (List UInt8)) : Prop := ∀ b ∈ bs, isTableMagic b = false

theorem noTable_iff {bs : List (List UInt8)} (h : Readable bs) :
    NoTable bs ↔ tablesOf (decoded bs) = [] := by
  rw [tablesOf_eq_nil]
  constructor
  · intro hn t ht
    obtain ⟨b,hb,hbt⟩ := List.mem_filterMap.mp ht
    obtain ⟨r,hr⟩ := h b hb
    obtain rfl : r = .table t := by simpa [hr,Except.toOption] using hbt
    have hm := (magic_of_decoded hr).mpr ⟨t,rfl⟩
    rw [hn b hb] at hm
    simp at hm
  · intro hn b hb
    obtain ⟨r,hr⟩ := h b hb
    by_contra hm
    obtain ⟨t,rfl⟩ := (magic_of_decoded hr).mp (by simpa using hm)
    exact hn t (List.mem_filterMap.mpr ⟨b,hb,by simp [hr,Except.toOption]⟩)

theorem recordsOf_split (pages : List (Page (List UInt8))) (k : ℕ) :
    SlotChain.recordsOf pages =
      SlotChain.recordsOf (pages.take k) ++ SlotChain.recordsOf (pages.drop k) := by
  simp only [SlotChain.recordsOf,← List.flatMap_append,List.take_append_drop]

theorem decoded_split (pages : List (Page (List UInt8))) (k : ℕ) :
    decoded (SlotChain.recordsOf pages) =
      decoded (SlotChain.recordsOf (pages.take k)) ++
        decoded (SlotChain.recordsOf (pages.drop k)) := by
  rw [recordsOf_split pages k]
  exact List.filterMap_append

/-- What a walk over the first pages of a stored catalog has put into the maps. -/
theorem prefix_scanned {s : Store} (h : s.Opened) (k : ℕ) :
    ∃ acc, scanChain (Maps.empty,[]) (s.pages.take k) = .ok acc ∧
      Readable (SlotChain.recordsOf (s.pages.take k)) ∧
      Scanned (decoded (SlotChain.recordsOf (s.pages.take k))) acc := by
  have hinv := opened_iff.mp h
  have hread : Readable (SlotChain.recordsOf (s.pages.take k)) := by
    intro b hb
    refine hinv.readable b ?_
    rw [recordsOf_split s.pages k]
    exact List.mem_append_left _ hb
  have hreads : Reads ([] ++ (decoded (SlotChain.recordsOf (s.pages.take k)) ++
      decoded (SlotChain.recordsOf (s.pages.drop k)))) s.maps := by
    rw [List.nil_append,← decoded_split]
    exact hinv.reads
  obtain ⟨acc,hacc⟩ := scanRecords_ok scanned_nil hreads
  refine ⟨acc,scanChain_iff.mpr ⟨scanSlots_iff.mpr ⟨hread,hacc⟩,?_⟩,hread,?_⟩
  · exact fun p hp => hinv.fits p (List.mem_of_mem_take hp)
  · simpa using scanned_nil.records hacc

/-- The walk ends at the first page that cannot be fetched. -/
theorem walk_fails {fetch : ℕ → Status} {pages : List (Page (List UInt8))} {k : ℕ} {e : Failure}
    {acc acc' : Maps × List IndexMetadata} (hk : k < pages.length)
    (hbefore : ∀ i < k, fetch i = .ok ()) (hfail : fetch k = .error e)
    (h : scanChain acc (pages.take k) = .ok acc') :
    walk fetch 0 acc pages = (.error e,acc') := by
  have hlen : (pages.take k).length = k := by
    rw [List.length_take]
    omega
  have hf : ∀ i < (pages.take k).length, fetch (0 + i) = .ok () := by
    intro i hi
    rw [Nat.zero_add]
    exact hbefore i (by omega)
  obtain ⟨p,ps,hp⟩ := List.exists_cons_of_length_pos (l := pages.drop k) (by simpa using hk)
  have happ := walk_append (pages.drop k) h hf
  rw [List.take_append_drop,hlen,Nat.zero_add,hp] at happ
  rw [happ,walk,hfail]

/-- A table on one page and its index on the next. -/
def spread : Store :=
  let stored := { accounts with firstDataPageId := 2 }
  ⟨[[some (tableBytes stored)],[some (indexBytes byOwner)]],⟨[stored],[byOwner]⟩⟩

/-- The page at position `k` cannot be read. -/
def failingAt (k i : ℕ) : Status := if i = k then fail .ioError "读取页面失败" else .ok ()

theorem spread_opened : spread.Opened := by
  have hok : (openChain spread.pages).toOption = some spread.maps := by decide +kernel
  cases hc : openChain spread.pages with
  | error e => simp [hc,Except.toOption] at hok
  | ok c => exact hc.trans (congrArg Except.ok (by simpa [hc,Except.toOption] using hok))

end Persist
end Catalog
end OurSql
