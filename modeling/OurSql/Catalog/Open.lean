import OurSql.Catalog.Records

/-! What `Open` loads from a page chain, said without its loops: the maps hold
exactly the records of the pages, in key order. -/
namespace OurSql
namespace Catalog

def tablesOf (rs : List Record) : List TableMetadata :=
  rs.filterMap fun | .table t => some t | .index _ => none

def indexesOf (rs : List Record) : List IndexMetadata :=
  rs.filterMap fun | .table _ => none | .index i => some i

def recordsOf (pages : List Slots) : List Record := pages.flatMap Slots.records

@[simp] theorem tablesOf_nil : tablesOf [] = [] := rfl
@[simp] theorem indexesOf_nil : indexesOf [] = [] := rfl
@[simp] theorem tablesOf_table (t : TableMetadata) (rs : List Record) :
    tablesOf (.table t::rs) = t::tablesOf rs := rfl
@[simp] theorem tablesOf_index (i : IndexMetadata) (rs : List Record) :
    tablesOf (.index i::rs) = tablesOf rs := rfl
@[simp] theorem indexesOf_table (t : TableMetadata) (rs : List Record) :
    indexesOf (.table t::rs) = indexesOf rs := rfl
@[simp] theorem indexesOf_index (i : IndexMetadata) (rs : List Record) :
    indexesOf (.index i::rs) = i::indexesOf rs := rfl

theorem tablesOf_append (rs rs' : List Record) :
    tablesOf (rs ++ rs') = tablesOf rs ++ tablesOf rs' := List.filterMap_append

theorem indexesOf_append (rs rs' : List Record) :
    indexesOf (rs ++ rs') = indexesOf rs ++ indexesOf rs' := List.filterMap_append

theorem tablesOf_perm {rs rs' : List Record} (h : rs.Perm rs') :
    (tablesOf rs).Perm (tablesOf rs') := h.filterMap _

theorem indexesOf_perm {rs rs' : List Record} (h : rs.Perm rs') :
    (indexesOf rs).Perm (indexesOf rs') := h.filterMap _

theorem encodeIndex_ok {i : IndexMetadata} (h : encodeIndex i = .ok ()) :
    validateIndexShape i = .ok () ∧ (Record.index i).size ≤ maxRecordSize := by
  simp only [encodeIndex] at h
  split at h
  · simp at h
  · next hv =>
    split at h
    · simp [fail] at h
    · next hs => exact ⟨hv,not_lt.mp hs⟩

theorem encodeTable_ok {t : TableMetadata} (h : encodeTable t = .ok ()) :
    (Record.table t).size ≤ maxRecordSize := by
  simp only [encodeTable] at h
  split at h
  · simp [fail] at h
  · next hs => exact not_lt.mp hs

theorem isTable_eq {name : String} {r : Record} (h : isTable name r = true) :
    ∃ t, r = .table t ∧ t.name = name := by
  cases r with
  | table t => exact ⟨t,rfl,by simpa [isTable] using h⟩
  | index i => simp [isTable] at h

theorem isIndex_eq {name : String} {r : Record} (h : isIndex name r = true) :
    ∃ i, r = .index i ∧ i.name = name := by
  cases r with
  | table t => simp [isIndex] at h
  | index i => exact ⟨i,rfl,by simpa [isIndex] using h⟩

/-- A list in key order; `std::map` keeps its entries so. -/
def Keyed {α : Type} (key : α → String) (l : List α) : Prop :=
  l.Pairwise fun x y => key x < key y

theorem Keyed.eq_of_perm {α : Type} {key : α → String} {l l' : List α} (h : Keyed key l)
    (h' : Keyed key l') (hp : l.Perm l') : l = l' :=
  hp.eq_of_pairwise (fun _ _ _ _ hab hba => absurd hab (not_lt_of_gt hba)) h h'

theorem Keyed.nodup {α : Type} {key : α → String} {l : List α} (h : Keyed key l) :
    (l.map key).Nodup := by
  refine List.pairwise_map.mpr (h.imp ?_)
  intro a b hab
  exact ne_of_lt hab

theorem Keyed.eq_of_key {α : Type} {key : α → String} {l : List α} (h : Keyed key l) {x y : α}
    (hx : x ∈ l) (hy : y ∈ l) (he : key x = key y) : x = y :=
  List.inj_on_of_nodup_map h.nodup hx hy he

/-- Inserting a fresh key keeps the order. -/
theorem Keyed.insert {α : Type} {key : α → String} {l : List α} (h : Keyed key l) {x : α}
    (hx : ∀ y ∈ l, key y ≠ key x) :
    Keyed key (l.orderedInsert (fun x y => key x ≤ key y) x) := by
  induction l with
  | nil => simp [Keyed]
  | cons y l ih =>
    obtain ⟨hy,hl⟩ := List.pairwise_cons.mp h
    have hne : key y ≠ key x := hx y List.mem_cons_self
    by_cases hle : key x ≤ key y
    · rw [List.orderedInsert_cons,if_pos hle]
      have hlt : key x < key y := lt_of_le_of_ne hle hne.symm
      refine List.pairwise_cons.mpr ⟨?_,h⟩
      intro z hz
      rcases List.mem_cons.mp hz with rfl | hz
      · exact hlt
      · exact hlt.trans (hy z hz)
    · rw [List.orderedInsert_cons,if_neg hle]
      refine List.pairwise_cons.mpr ⟨?_,ih hl fun z hz => hx z (List.mem_cons_of_mem _ hz)⟩
      intro z hz
      rcases (List.mem_orderedInsert _).mp hz with rfl | hz
      · exact lt_of_not_ge hle
      · exact hy z hz

def HasColumn (t : TableMetadata) (name : String) : Prop := ∃ col ∈ t.schema, col.name = name

/-- The table and the column an index is on exist. -/
def Owned (c : Maps) (i : IndexMetadata) : Prop :=
  ∃ t ∈ c.tables, t.name = i.tableName ∧ HasColumn t i.columnName

/-- The maps that records in any order describe. -/
structure Reads (rs : List Record) (c : Maps) : Prop where
  tables : c.tables.Perm (tablesOf rs)
  indexes : c.indexes.Perm (indexesOf rs)
  tablesKeyed : Keyed TableMetadata.name c.tables
  indexesKeyed : Keyed IndexMetadata.name c.indexes
  table_valid : ∀ t ∈ c.tables, decodeTable t = .ok ()
  index_valid : ∀ i ∈ c.indexes, validateIndexShape i = .ok ()
  owned : ∀ i ∈ c.indexes, Owned c i

theorem Reads.unique {rs : List Record} {c d : Maps} (h : Reads rs c) (h' : Reads rs d) :
    c = d := by
  obtain ⟨ts,is⟩ := c
  obtain ⟨ts',is'⟩ := d
  have ht : ts = ts' := h.tablesKeyed.eq_of_perm h'.tablesKeyed (h.tables.trans h'.tables.symm)
  have hi : is = is' := h.indexesKeyed.eq_of_perm h'.indexesKeyed (h.indexes.trans h'.indexes.symm)
  rw [ht,hi]

theorem Reads.perm {rs rs' : List Record} {c : Maps} (h : Reads rs c) (hp : rs.Perm rs') :
    Reads rs' c where
  tables := h.tables.trans (tablesOf_perm hp)
  indexes := h.indexes.trans (indexesOf_perm hp)
  tablesKeyed := h.tablesKeyed
  indexesKeyed := h.indexesKeyed
  table_valid := h.table_valid
  index_valid := h.index_valid
  owned := h.owned

theorem findTable_none {c : Maps} {name : String} :
    c.findTable name = none ↔ ∀ t ∈ c.tables, t.name ≠ name := by
  simp [Maps.findTable, List.find?_eq_none]

theorem findIndex_none {c : Maps} {name : String} :
    c.findIndex name = none ↔ ∀ i ∈ c.indexes, i.name ≠ name := by
  simp [Maps.findIndex, List.find?_eq_none]

theorem Keyed.find {α : Type} {key : α → String} {l : List α} (h : Keyed key l) {x : α}
    (hx : x ∈ l) : (l.find? fun y => key y = key x) = some x := by
  cases hf : l.find? fun y => key y = key x with
  | none =>
    have hno := List.find?_eq_none.mp hf x hx
    simp at hno
  | some y =>
    have hy : key y = key x := by simpa using List.find?_some hf
    rw [h.eq_of_key (List.mem_of_find?_eq_some hf) hx hy]

/-! ### The maps follow the records -/

theorem reads_setRoot {rs rest : List Record} {c : Maps} (h : Reads rs c) {i : IndexMetadata}
    {root : PageId} (hp : rs.Perm (.index i::rest))
    (hv : validateIndexShape { i with rootPageId := root } = .ok ()) :
    Reads (.index { i with rootPageId := root }::rest) (c.setRoot i.name root) := by
  have hidx : c.indexes.Perm (i::indexesOf rest) := h.indexes.trans (indexesOf_perm hp)
  have hother : ∀ j ∈ indexesOf rest, j.name ≠ i.name := by
    have hnodup := (hidx.map IndexMetadata.name).nodup_iff.mp h.indexesKeyed.nodup
    simp only [List.map_cons, List.nodup_cons] at hnodup
    intro j hj he
    exact hnodup.1 (he ▸ List.mem_map_of_mem hj)
  have hmem : ∀ j ∈ (c.setRoot i.name root).indexes, j = { i with rootPageId := root } ∨
      j ∈ c.indexes := by
    intro j hj
    obtain ⟨j',hj',rfl⟩ := List.mem_map.mp hj
    by_cases he : j'.name = i.name
    · left
      rw [if_pos he,h.indexesKeyed.eq_of_key hj' (hidx.mem_iff.mpr List.mem_cons_self) he]
    · right
      rw [if_neg he]
      exact hj'
  refine ⟨h.tables.trans (by simpa using tablesOf_perm hp),?_,h.tablesKeyed,?_,h.table_valid,?_,?_⟩
  · have hmap := hidx.map fun j => if j.name = i.name then { j with rootPageId := root } else j
    have hrest : ((indexesOf rest).map fun j =>
        if j.name = i.name then { j with rootPageId := root } else j) = indexesOf rest := by
      refine (List.map_congr_left fun j hj => ?_).trans (List.map_id _)
      exact if_neg (hother j hj)
    rw [List.map_cons,if_pos rfl,hrest] at hmap
    exact hmap
  · refine List.pairwise_map.mpr (h.indexesKeyed.imp ?_)
    intro a b hab
    have hname : ∀ j : IndexMetadata,
        (if j.name = i.name then { j with rootPageId := root } else j).name = j.name := by
      intro j
      split <;> rfl
    rw [hname,hname]
    exact hab
  · intro j hj
    rcases hmem j hj with rfl | hj
    · exact hv
    · exact h.index_valid j hj
  · intro j hj
    rcases hmem j hj with rfl | hj
    · exact h.owned i (hidx.mem_iff.mpr List.mem_cons_self)
    · exact h.owned j hj

theorem reads_insertTable {rs : List Record} {c : Maps} (h : Reads rs c) {t : TableMetadata}
    (hf : c.findTable t.name = none) (hv : decodeTable t = .ok ()) :
    Reads (.table t::rs) (c.insertTable t) := by
  have hp : (c.insertTable t).tables.Perm (t::c.tables) := List.perm_orderedInsert _ _ _
  refine ⟨hp.trans (h.tables.cons t),h.indexes,h.tablesKeyed.insert (findTable_none.mp hf),
    h.indexesKeyed,?_,h.index_valid,?_⟩
  · intro x hx
    rcases List.mem_cons.mp (hp.mem_iff.mp hx) with rfl | hx
    · exact hv
    · exact h.table_valid x hx
  · intro i hi
    obtain ⟨x,hx,hn,hcol⟩ := h.owned i hi
    exact ⟨x,hp.mem_iff.mpr (List.mem_cons_of_mem _ hx),hn,hcol⟩

theorem reads_insertIndex {rs : List Record} {c : Maps} (h : Reads rs c) {i : IndexMetadata}
    (hf : c.findIndex i.name = none) (hv : validateIndexShape i = .ok ()) (ho : Owned c i) :
    Reads (.index i::rs) (c.insertIndex i) := by
  have hp : (c.insertIndex i).indexes.Perm (i::c.indexes) := List.perm_orderedInsert _ _ _
  refine ⟨h.tables,hp.trans (h.indexes.cons i),h.tablesKeyed,
    h.indexesKeyed.insert (findIndex_none.mp hf),h.table_valid,?_,?_⟩
  · intro x hx
    rcases List.mem_cons.mp (hp.mem_iff.mp hx) with rfl | hx
    · exact hv
    · exact h.index_valid x hx
  · intro x hx
    rcases List.mem_cons.mp (hp.mem_iff.mp hx) with rfl | hx
    · exact ho
    · exact h.owned x hx

/-- Erasing a key from a list in key order drops the one entry that has it. -/
theorem Keyed.filter_perm {α : Type} {key : α → String} {l rest : List α} (h : Keyed key l)
    {x : α} (hp : l.Perm (x::rest)) : (l.filter fun y => key y ≠ key x).Perm rest := by
  have hnodup := (hp.map key).nodup_iff.mp h.nodup
  simp only [List.map_cons, List.nodup_cons] at hnodup
  have hrest : (rest.filter fun y => key y ≠ key x) = rest := by
    refine List.filter_eq_self.mpr fun y hy => ?_
    simpa using fun he : key y = key x => hnodup.1 (he ▸ List.mem_map_of_mem hy)
  have hf := hp.filter fun y => key y ≠ key x
  rw [List.filter_cons_of_neg (by simp),hrest] at hf
  exact hf

theorem reads_eraseTable {rs rest : List Record} {c : Maps} (h : Reads rs c) {t : TableMetadata}
    (hp : rs.Perm (.table t::rest)) (hi : ∀ i ∈ c.indexes, i.tableName ≠ t.name) :
    Reads rest (c.eraseTable t.name) := by
  have htab : c.tables.Perm (t::tablesOf rest) := h.tables.trans (tablesOf_perm hp)
  refine ⟨h.tablesKeyed.filter_perm htab,h.indexes.trans (by simpa using indexesOf_perm hp),
    h.tablesKeyed.filter _,h.indexesKeyed,?_,h.index_valid,?_⟩
  · exact fun x hx => h.table_valid x (List.mem_filter.mp hx).1
  · intro i hmem
    obtain ⟨x,hx,hn,hcol⟩ := h.owned i hmem
    refine ⟨x,List.mem_filter.mpr ⟨hx,?_⟩,hn,hcol⟩
    simpa using fun he : x.name = t.name => hi i hmem (hn.symm.trans he)

theorem reads_eraseIndex {rs rest : List Record} {c : Maps} (h : Reads rs c) {i : IndexMetadata}
    (hp : rs.Perm (.index i::rest)) : Reads rest (c.eraseIndex i.name) := by
  have hidx : c.indexes.Perm (i::indexesOf rest) := h.indexes.trans (indexesOf_perm hp)
  exact ⟨h.tables.trans (by simpa using tablesOf_perm hp),h.indexesKeyed.filter_perm hidx,h.tablesKeyed,
    h.indexesKeyed.filter _,h.table_valid,
    fun x hx => h.index_valid x (List.mem_filter.mp hx).1,
    fun x hx => h.owned x (List.mem_filter.mp hx).1⟩

/-! ### The loops of `Open` -/

/-- The state of the scan after some of the records. -/
structure Scanned (done : List Record) (acc : Maps × List IndexMetadata) : Prop where
  tables : acc.1.tables.Perm (tablesOf done)
  keyed : Keyed TableMetadata.name acc.1.tables
  valid : ∀ t ∈ acc.1.tables, decodeTable t = .ok ()
  indexes : acc.1.indexes = []
  waiting : acc.2 = indexesOf done
  shaped : ∀ i ∈ acc.2, validateIndexShape i = .ok ()

theorem scanned_nil : Scanned [] (Maps.empty,[]) :=
  ⟨by simp [Maps.empty],by simp [Keyed, Maps.empty],by simp [Maps.empty],rfl,rfl,by simp⟩

theorem Scanned.record {done : List Record} {acc acc' : Maps × List IndexMetadata} {r : Record}
    (h : Scanned done acc) (he : scanRecord acc r = .ok acc') : Scanned (done ++ [r]) acc' := by
  cases r with
  | index i =>
    simp only [scanRecord] at he
    split at he
    · simp at he
    · next hi =>
      obtain rfl := (Except.ok.inj he).symm
      refine ⟨by simpa [tablesOf_append] using h.tables,h.keyed,h.valid,h.indexes,?_,?_⟩
      · simp [indexesOf_append, h.waiting]
      · intro j hj
        rcases List.mem_append.mp hj with hj | hj
        · exact h.shaped j hj
        · rw [List.mem_singleton.mp hj]
          exact hi
  | table t =>
    simp only [scanRecord] at he
    split at he
    · simp at he
    · next ht =>
      split at he
      · simp [fail] at he
      · next hf =>
        obtain rfl := (Except.ok.inj he).symm
        have hfresh : ∀ x ∈ acc.1.tables, x.name ≠ t.name :=
          findTable_none.mp (by simpa using hf)
        have hp : (acc.1.insertTable t).tables.Perm (t::acc.1.tables) :=
          List.perm_orderedInsert _ _ _
        refine ⟨?_,h.keyed.insert hfresh,?_,h.indexes,by simp [indexesOf_append, h.waiting],h.shaped⟩
        · rw [tablesOf_append]
          exact hp.trans ((h.tables.cons t).trans (List.perm_append_singleton t _).symm)
        · intro x hx
          rcases List.mem_cons.mp (hp.mem_iff.mp hx) with rfl | hx
          · exact ht
          · exact h.valid x hx

theorem Scanned.records {done rs : List Record} {acc acc' : Maps × List IndexMetadata}
    (h : Scanned done acc) (he : scanRecords acc rs = .ok acc') : Scanned (done ++ rs) acc' := by
  induction rs generalizing done acc with
  | nil =>
    obtain rfl := Except.ok.inj he
    simpa using h
  | cons r rs ih =>
    simp only [scanRecords] at he
    split at he
    · simp at he
    · next acc₁ h₁ => simpa using ih (h.record h₁) he

theorem scanRecord_ok {done rest : List Record} {acc : Maps × List IndexMetadata} {r : Record}
    {c : Maps} (h : Scanned done acc) (hc : Reads (done ++ r::rest) c) :
    ∃ acc', scanRecord acc r = .ok acc' := by
  cases r with
  | index i =>
    have hi : i ∈ c.indexes := hc.indexes.mem_iff.mpr (by simp [indexesOf_append])
    exact ⟨(acc.1,acc.2 ++ [i]),by simp only [scanRecord, hc.index_valid i hi]⟩
  | table t =>
    have ht : t ∈ c.tables := hc.tables.mem_iff.mpr (by simp [tablesOf_append])
    have hnodup : ((tablesOf done ++ t::tablesOf rest).map TableMetadata.name).Nodup := by
      have := (hc.tables.map TableMetadata.name).nodup_iff.mp hc.tablesKeyed.nodup
      simpa [tablesOf_append] using this
    have hfresh : ∀ x ∈ acc.1.tables, x.name ≠ t.name := by
      intro x hx he
      have hx' : x ∈ tablesOf done := h.tables.mem_iff.mp hx
      rw [List.map_append,List.nodup_append] at hnodup
      exact hnodup.2.2 x.name (List.mem_map_of_mem hx') t.name (by simp) he
    exact ⟨(acc.1.insertTable t,acc.2),
      by simp [scanRecord, hc.table_valid t ht, findTable_none.mpr hfresh]⟩

theorem scanRecords_ok {done rs R : List Record} {acc : Maps × List IndexMetadata}
    {c : Maps} (h : Scanned done acc) (hc : Reads (done ++ (rs ++ R)) c) :
    ∃ acc', scanRecords acc rs = .ok acc' := by
  induction rs generalizing done acc with
  | nil => exact ⟨acc,rfl⟩
  | cons r rs ih =>
    obtain ⟨acc₁,h₁⟩ := scanRecord_ok h (by simpa using hc)
    obtain ⟨acc₂,h₂⟩ := ih (h.record h₁) (by simpa using hc)
    exact ⟨acc₂,by simp [scanRecords, h₁, h₂]⟩

theorem attachIndexes_sound {is : List IndexMetadata} {acc c : Maps}
    (hk : Keyed IndexMetadata.name acc.indexes) (ho : ∀ i ∈ acc.indexes, Owned acc i)
    (he : attachIndexes acc is = .ok c) :
    c.tables = acc.tables ∧ c.indexes.Perm (acc.indexes ++ is) ∧
      Keyed IndexMetadata.name c.indexes ∧ ∀ i ∈ c.indexes, Owned c i := by
  induction is generalizing acc with
  | nil =>
    obtain rfl := Except.ok.inj he
    exact ⟨rfl,by simp,hk,ho⟩
  | cons i is ih =>
    simp only [attachIndexes] at he
    split at he
    · simp [fail] at he
    · next hf =>
      split at he
      · simp [fail] at he
      · next t ht =>
        split at he
        · next hany =>
          have hfresh : ∀ x ∈ acc.indexes, x.name ≠ i.name := findIndex_none.mp (by simpa using hf)
          have hp : (acc.insertIndex i).indexes.Perm (i::acc.indexes) :=
            List.perm_orderedInsert _ _ _
          have howned : ∀ j ∈ (acc.insertIndex i).indexes, Owned (acc.insertIndex i) j := by
            intro j hj
            rcases List.mem_cons.mp (hp.mem_iff.mp hj) with rfl | hj
            · have htn : t.name = j.tableName := by simpa using List.find?_some ht
              exact ⟨t,List.mem_of_find?_eq_some ht,htn,by simpa [HasColumn] using hany⟩
            · exact ho j hj
          obtain ⟨htab,hperm,hkeyed,hall⟩ := ih (hk.insert hfresh) howned he
          refine ⟨htab,?_,hkeyed,hall⟩
          exact hperm.trans ((hp.append_right is).trans List.perm_middle.symm)
        · simp [fail] at he

theorem attachIndexes_ok {d is : List IndexMetadata} {acc c : Maps}
    (ht : acc.tables = c.tables) (hi : acc.indexes.Perm d)
    (hk : Keyed IndexMetadata.name acc.indexes) (hc : c.indexes.Perm (d ++ is))
    (hck : Keyed IndexMetadata.name c.indexes) (htk : Keyed TableMetadata.name c.tables)
    (howned : ∀ i ∈ c.indexes, Owned c i) : attachIndexes acc is = .ok c := by
  induction is generalizing d acc with
  | nil =>
    have he : acc.indexes = c.indexes :=
      hk.eq_of_perm hck (hi.trans (by simpa using hc.symm))
    obtain ⟨ts,is⟩ := acc
    simp only at ht he
    rw [ht,he,attachIndexes]
  | cons i is ih =>
    have hmem : i ∈ c.indexes := hc.mem_iff.mpr (by simp)
    have hnodup : ((d ++ i::is).map IndexMetadata.name).Nodup :=
      (hc.map IndexMetadata.name).nodup_iff.mp hck.nodup
    have hfresh : ∀ x ∈ acc.indexes, x.name ≠ i.name := by
      intro x hx he
      rw [List.map_append,List.nodup_append] at hnodup
      exact hnodup.2.2 x.name (List.mem_map_of_mem (hi.mem_iff.mp hx)) i.name (by simp) he
    obtain ⟨t,htmem,htn,col,hcol,hcn⟩ := howned i hmem
    have hfind : acc.findTable i.tableName = some t := by
      rw [Maps.findTable,ht,← htn]
      exact htk.find htmem
    have hany : (t.schema.any fun col => col.name = i.columnName) = true := by
      simpa using ⟨col,hcol,hcn⟩
    have hp : (acc.insertIndex i).indexes.Perm (i::acc.indexes) := List.perm_orderedInsert _ _ _
    have hrest : attachIndexes (acc.insertIndex i) is = .ok c := by
      refine ih (d := d ++ [i]) ht ?_ (hk.insert hfresh) (by simpa using hc)
      exact hp.trans ((hi.cons i).trans (List.perm_append_singleton i _).symm)
    simp [attachIndexes, findIndex_none.mpr hfresh, hfind, hany, hrest]

/-- The loops of `Open` over records that are all read succeed on exactly those that
describe a catalog, and load that catalog. -/
theorem scan_attach_iff {rs : List Record} {c : Maps} :
    (∃ acc, scanRecords (Maps.empty,[]) rs = .ok acc ∧ attachIndexes acc.1 acc.2 = .ok c) ↔
      Reads rs c := by
  constructor
  · rintro ⟨acc,hscan,h⟩
    have hs : Scanned rs acc := scanned_nil.records hscan
    have h0 : acc.1.indexes = [] := hs.indexes
    obtain ⟨htab,hperm,hkeyed,howned⟩ :=
      attachIndexes_sound (by simp [h0, Keyed]) (by simp [h0]) h
    have hidx : c.indexes.Perm acc.2 := by simpa [h0] using hperm
    refine ⟨?_,hs.waiting ▸ hidx,?_,hkeyed,?_,?_,howned⟩
    · simpa [htab] using hs.tables
    · exact htab ▸ hs.keyed
    · exact htab ▸ hs.valid
    · exact fun i hi => hs.shaped i (hidx.mem_iff.mp hi)
  · intro hc
    obtain ⟨acc,hscan⟩ := scanRecords_ok (R := []) scanned_nil (by simpa using hc)
    have hs : Scanned rs acc := scanned_nil.records hscan
    have ht : acc.1.tables = c.tables :=
      hs.keyed.eq_of_perm hc.tablesKeyed (hs.tables.trans (by simpa using hc.tables.symm))
    have h0 : acc.1.indexes = [] := hs.indexes
    refine ⟨acc,hscan,attachIndexes_ok (d := []) ht ?_ ?_ ?_ hc.indexesKeyed hc.tablesKeyed
      hc.owned⟩
    · rw [h0]
    · simp [h0, Keyed]
    · simpa [hs.waiting] using hc.indexes

theorem scanRecords_append (acc : Maps × List IndexMetadata) (rs rs' : List Record) :
    scanRecords acc (rs ++ rs') =
      match scanRecords acc rs with
      | .error e => .error e
      | .ok acc => scanRecords acc rs' := by
  induction rs generalizing acc with
  | nil => rfl
  | cons r rs ih =>
    simp only [List.cons_append, scanRecords]
    cases scanRecord acc r with
    | error e => rfl
    | ok acc' => exact ih acc'

theorem scanPages_iff {pages : List Slots} {acc acc' : Maps × List IndexMetadata} :
    scanPages acc pages = .ok acc' ↔
      scanRecords acc (recordsOf pages) = .ok acc' ∧ ∀ p ∈ pages, p.used ≤ pageSize := by
  induction pages generalizing acc with
  | nil => simp [scanPages, recordsOf, scanRecords]
  | cons p ps ih =>
    have happ : recordsOf (p::ps) = p.records ++ recordsOf ps := List.flatMap_cons
    rw [happ,scanRecords_append]
    simp only [scanPages, List.forall_mem_cons]
    by_cases hu : pageSize < p.used
    · simp [if_pos hu, fail, not_le.mpr hu]
    · rw [if_neg hu]
      cases scanRecords acc p.records with
      | error e => simp
      | ok acc₁ =>
        simp only [ih]
        simp [not_lt.mp hu]

/-- `Open` succeeds on exactly the pages that describe a catalog, and loads that catalog. -/
theorem openPages_iff {pages : List Slots} {c : Maps} :
    openPages pages = .ok c ↔ Reads (recordsOf pages) c ∧ ∀ p ∈ pages, p.used ≤ pageSize := by
  rw [← scan_attach_iff,openPages]
  constructor
  · intro h
    split at h
    · simp at h
    · next acc is hscan =>
      obtain ⟨hs,hu⟩ := scanPages_iff.mp hscan
      exact ⟨⟨(acc,is),hs,h⟩,hu⟩
  · rintro ⟨⟨acc,hs,h⟩,hu⟩
    rw [scanPages_iff.mpr ⟨hs,hu⟩]
    exact h

end Catalog
end OurSql
