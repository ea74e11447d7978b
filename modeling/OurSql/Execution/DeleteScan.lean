import OurSql.Execution.Rows
import OurSql.Execution.DeleteWhere

/-! DELETE by a scan of the pages, in a transaction: its cursor stands on the page that it
takes the rows from. A page that loses its last row is about to be deleted, and the cursor
finds no way on from it. -/
namespace OurSql
namespace Execution

open Data Index
open Catalog (IndexMetadata)
open Storage (HeapTable.TableMetadata HeapTable.Inv HeapTable.Pool HeapTable.ScanCursor
  HeapTable.At HeapTable.Behind HeapTable.remaining HeapTable.slotsOf HeapTable.rowsFrom
  HeapTable.pageRows HeapTable.pageTurns HeapTable.rowTurns)

variable {transaction : Bool} {db db' : Database} {table : String} {rows rows' : List (RID × Row)}
  {rid : RID} {row : Row} {heap : HeapTable.TableMetadata} {s s' : HeapTable.Pool}
  {ids rest : List PageId} {m m' : RID → Option Row} {i j : PageId}

/-! ### The entries of a live row -/

/-- The indexes of a table have the entries of these rows, whatever rows `db` has for it. -/
structure Indexed (db : Database) (table : String) (rows : List (RID × Row)) : Prop where
  names : Named db
  trees : ∀ i ∈ db.indexes, i.tableName = table → ∃ column, indexedColumn db i = .ok column ∧
    ((db.trees i.name).map some).Perm (rows.map (pairOf column))

theorem Consistent.indexed {t : Table} (h : Consistent db) (ht : db.tables table = some t) :
    Indexed db table t.rows where
  names := h.names
  trees := by
    intro i hi hn
    obtain ⟨t₁,column,h₁,hc,hperm⟩ := h.mirrors i hi
    rw [hn,ht] at h₁
    obtain rfl := Option.some.inj h₁
    exact ⟨column,hc,hperm⟩

theorem Indexed.key (h : Indexed db table rows) (hrow : (rid,row) ∈ rows) {i : IndexMetadata}
    (hi : i ∈ db.indexes) (hn : i.tableName = table) :
    ∃ key, keysOf db i [row] = .ok [key] ∧ (key,rid) ∈ db.trees i.name := by
  obtain ⟨column,hc,hperm⟩ := h.trees i hi hn
  obtain ⟨entry,hentry,hpair⟩ :=
    List.mem_map.mp (hperm.mem_iff.mpr (List.mem_map_of_mem hrow))
  obtain ⟨key,hkey,rfl⟩ := Option.map_eq_some_iff.mp hpair.symm
  refine ⟨key,?_,hentry⟩
  have hlt : ¬ row.length ≤ column := by
    intro hle
    rw [asInt,List.getElem?_eq_none hle] at hkey
    cases hkey
  rw [keysOf,hc]
  simp [hlt,hkey]

theorem prepare_live (h : Indexed db table rows) (hrow : (rid,row) ∈ rows) :
    ∀ {is : List IndexMetadata}, (∀ i ∈ is, i ∈ db.indexes ∧ i.tableName = table) →
      ∃ prepared, prepare db [row] (fun _ _ => false) is = .ok prepared ∧
        prepared.map Prod.fst = is.map (fun i => i.name) ∧
        ∀ p ∈ prepared, (p.2.headD 0,rid) ∈ db.trees p.1
  | [], _ => ⟨[],rfl,rfl,fun _ hp => absurd hp List.not_mem_nil⟩
  | i::is, hall => by
    obtain ⟨hi,hall⟩ := List.forall_mem_cons.mp hall
    obtain ⟨key,hkeys,hmem⟩ := h.key hrow hi.1 hi.2
    obtain ⟨prepared,hprep,hnames,hentries⟩ := prepare_live h hrow hall
    refine ⟨(i.name,[key])::prepared,?_,by rw [List.map_cons,List.map_cons,hnames],?_⟩
    · rw [prepare,hkeys,hprep]
      rfl
    · exact List.forall_mem_cons.mpr ⟨hmem,hentries⟩

theorem deleteEntry_live (transaction : Bool) {name : String} {key : Key}
    (hi : ∃ i ∈ db.indexes, i.name = name)
    (hmem : (key,rid) ∈ db.trees name) :
    ∃ tree, deleteEntry transaction name key rid db = (.ok (),db.setTree name tree) := by
  obtain ⟨i,hi,rfl⟩ := hi
  have hfind : ∃ j, db.findIndex i.name = .ok j := by
    rw [Database.findIndex]
    cases hf : db.indexes.find? fun j => j.name = i.name with
    | some j => exact ⟨j,rfl⟩
    | none => exact absurd (List.find?_eq_none.mp hf i hi) (by simp)
  obtain ⟨j,hj⟩ := hfind
  rw [deleteEntry,hj,Tree.remove,if_pos hmem]
  exact ⟨_,rfl⟩

theorem applyAll_live (transaction : Bool)
    {undo : String × List Key → Database → Status × Database} :
    ∀ {prepared done : List (String × List Key)} {db : Database},
      (prepared.map Prod.fst).Nodup → (∀ p ∈ prepared, ∃ i ∈ db.indexes, i.name = p.1) →
      (∀ p ∈ prepared, (p.2.headD 0,rid) ∈ db.trees p.1) →
      ∃ db', applyAll transaction (fun p => deleteEntry transaction p.1 (p.2.headD 0) rid) undo
        done prepared db = (.ok (),db')
  | [], _, db, _, _, _ => ⟨db,rfl⟩
  | p::prepared, done, db, hn, hi, hmem => by
    obtain ⟨hp,hn⟩ := List.nodup_cons.mp hn
    obtain ⟨hi₀,hi⟩ := List.forall_mem_cons.mp hi
    obtain ⟨hmem₀,hmem⟩ := List.forall_mem_cons.mp hmem
    obtain ⟨tree,htree⟩ := deleteEntry_live transaction hi₀ hmem₀
    rw [applyAll,htree]
    refine applyAll_live transaction hn hi fun q hq => ?_
    have hne : q.1 ≠ p.1 := fun he => hp (he ▸ List.mem_map_of_mem hq)
    simp only [Database.setTree,Function.update_of_ne hne]
    exact hmem q hq

/-- `OnDelete` of a live row succeeds, and its entries are gone. -/
theorem Indexed.onDelete (transaction : Bool) (h : Indexed db table rows)
    (hrows : rows.Perm ((rid,row)::rows')) :
    ∃ db', onDelete transaction table row rid db = (.ok (),db') ∧ Indexed db' table rows' ∧
      db'.tables = db.tables := by
  have hrow : (rid,row) ∈ rows := hrows.mem_iff.mpr List.mem_cons_self
  have hlist : ∀ i ∈ db.listTableIndexes table, i ∈ db.indexes ∧ i.tableName = table := by
    intro i hi
    rw [Database.listTableIndexes,List.mem_filter,decide_eq_true_iff] at hi
    exact hi
  obtain ⟨prepared,hprep,hnames,hentries⟩ := prepare_live h hrow hlist
  have hn : (prepared.map Prod.fst).Nodup := by
    rw [hnames]
    exact h.names.sublist (List.filter_sublist.map _)
  have hindex : ∀ p ∈ prepared, ∃ i ∈ db.indexes, i.name = p.1 := by
    intro p hp
    have hm := List.mem_map_of_mem (f := Prod.fst) hp
    rw [hnames] at hm
    obtain ⟨i,hi,he⟩ := List.mem_map.mp hm
    exact ⟨i,(hlist i hi).1,he⟩
  obtain ⟨db',hdb'⟩ := applyAll_live transaction hn hindex hentries
  have hdelete : Execution.onDelete transaction table row rid db = (.ok (),db') := by
    rw [Execution.onDelete,maintain,hprep]
    dsimp only
    rw [hdb']
    rfl
  have hm := onDelete_ok h.names hdelete
  refine ⟨db',hdelete,⟨?_,fun i hi hname => ?_⟩,hm.tables⟩
  · rw [Named,hm.indexes]
    exact h.names
  · rw [hm.indexes] at hi
    obtain ⟨column,hc,hperm⟩ := h.trees i hi hname
    obtain ⟨column',keys,hc',hkeys,htree⟩ := hm.trees i hi hname
    rw [hc,Except.ok.injEq] at hc'
    subst hc'
    obtain ⟨key,hkey,rfl⟩ := mapM_one hkeys
    refine ⟨column,(indexedColumn_congr hm.tables i).trans hc,?_⟩
    have hpair : pairOf column (rid,row) = some (key,rid) := by simp [pairOf,hkey]
    refine (List.perm_cons (some (key,rid))).mp ?_
    calc (some (key,rid)::(db'.trees i.name).map some).Perm ((db.trees i.name).map some) :=
          htree.map some
      _ |>.Perm (rows.map (pairOf column)) := hperm
      _ |>.Perm (some (key,rid)::rows'.map (pairOf column)) := by
          rw [← hpair,← List.map_cons]
          exact hrows.map _

/-! ### The scan -/

variable (transaction table heap)

/-- `delete_entry` on a row that matches, its record on a page of the heap. -/
def deleteHeapEntry (rid : RID) (row : Row) (s : HeapTable.Pool) (db : Database) :
    Outcome Unit × HeapTable.Pool × Database :=
  match onDelete transaction table row rid db with
  | (.ok (),db) =>
    match Storage.HeapTable.deleteRow heap transaction rid s with
    | (.ok (),s) => (.ok (),s,db)
    | (.error e,s) => (.error (contextualize "DeleteExecutor" e),s,
        if transaction then db.mark transaction else (onInsert false table row rid db).2)
  | (o,db) => (o.within "DeleteExecutor",s,db)

/-- The loop over the cursor. -/
def deleteScan (column : Option ℕ) (value : Value) :
    ℕ → HeapTable.ScanCursor → List RID → HeapTable.Pool → Database →
      Outcome (List RID) × HeapTable.Pool × Database
  | 0, _, _, s, db =>
    (.error (contextualize "DeleteExecutor" ⟨.invalidArgument,"数据页链表损坏或成环"⟩),s,db)
  | n+1, c, deleted, s, db =>
    match c.next heap s HeapTable.pageTurns with
    | .error e => (.error (contextualize "DeleteExecutor" e),s,db)
    | .ok none => (.ok deleted.reverse,s,db)
    | .ok (some ((rid,row),c)) =>
      if matchesWhere column value row then
        match deleteHeapEntry transaction table heap rid row s db with
        | (.ok (),s,db) => deleteScan column value n c (rid::deleted) s db
        | (.error e,s,db) => (.error e,s,db)
        | (.throws,s,db) => (.throws,s,db)
      else deleteScan column value n c deleted s db

/-- The loop over the RIDs of an index. -/
def deleteHeapLookup (column : Option ℕ) (value : Value) :
    List RID → List RID → HeapTable.Pool → Database →
      Outcome (List RID) × HeapTable.Pool × Database
  | deleted, [], s, db => (.ok deleted.reverse,s,db)
  | deleted, rid::rest, s, db =>
    match Storage.HeapTable.getRow heap s rid with
    | .error e => (.error (contextualize "DeleteExecutor" e),s,db)
    | .ok row =>
      if matchesWhere column value row then
        match deleteHeapEntry transaction table heap rid row s db with
        | (.ok (),s,db) => deleteHeapLookup column value (rid::deleted) rest s db
        | (.error e,s,db) => (.error e,s,db)
        | (.throws,s,db) => (.throws,s,db)
      else deleteHeapLookup column value deleted rest s db

/-- `DeleteExecutor::Execute` on the pages of the heap. -/
def deleteHeap (where_ : Option Predicate) (s : HeapTable.Pool) (db : Database) :
    Outcome (List RID) × HeapTable.Pool × Database :=
  match requireMetadata db table with
  | .error e => (.error (contextualize "DeleteExecutor" e),s,db)
  | .ok t =>
    match where_.mapM (checkDelete t) with
    | .error e => (.error e,s,db)
    | .ok column =>
      let value := (where_.map Predicate.value).getD .null
      match where_.bind (lookupIndex db table) with
      | some (i,key) =>
        match lookup db i.name key with
        | .error e => (.error (contextualize "DeleteExecutor" e),s,db)
        | .ok rids => deleteHeapLookup transaction table heap column value [] rids s db
      | none =>
        if heap.firstDataPageId = invalidPageId ∨ heap.firstDataPageId = 0 then
          (.error (contextualize "DeleteExecutor"
            ⟨.invalidArgument,"HeapTable 缺少首数据页"⟩),s,db)
        else deleteScan transaction table heap column value HeapTable.rowTurns
          { currentPage := heap.firstDataPageId } [] s db

variable {transaction table heap}

/-! ### The rows that are still to come -/

theorem rowsFrom_add (m : RID → Option Row) (i : PageId) (k n : ℕ) {d : ℕ}
    (h : ∀ slot, k + n ≤ slot → m ⟨i,slot⟩ = none) :
    HeapTable.rowsFrom m i k (n + d) = HeapTable.rowsFrom m i k n := by
  have hnone : (List.range' (k + n) d).filterMap
      (fun slot => (m ⟨i,slot⟩).map fun row => ((⟨i,slot⟩ : RID),row)) = [] := by
    refine List.filterMap_eq_nil_iff.mpr fun slot hslot => ?_
    rw [h slot (List.mem_range'_1.mp hslot).1]
    rfl
  rw [HeapTable.rowsFrom,← List.range'_append_1,List.filterMap_append,hnone,List.append_nil]
  rfl

/-- The slots that a page counts beyond its live rows make no difference. -/
theorem rowsFrom_bound (m : RID → Option Row) (i : PageId) (k : ℕ) {n n' : ℕ}
    (h : ∀ slot, k + n ≤ slot → m ⟨i,slot⟩ = none)
    (h' : ∀ slot, k + n' ≤ slot → m ⟨i,slot⟩ = none) :
    HeapTable.rowsFrom m i k n = HeapTable.rowsFrom m i k n' := by
  rcases Nat.le_total n n' with hle | hle
  · obtain ⟨d,rfl⟩ := Nat.exists_eq_add_of_le hle
    exact (rowsFrom_add m i k n h).symm
  · obtain ⟨d,rfl⟩ := Nat.exists_eq_add_of_le hle
    exact rowsFrom_add m i k n' h'

theorem none_of_slotsOf (h : HeapTable.Inv heap s ids m) (hi : i ∈ ids) {slot : ℕ}
    (hle : HeapTable.slotsOf s i ≤ slot) : m ⟨i,slot⟩ = none := by
  obtain ⟨d,count,e,hd,hl⟩ := h.laid i hi
  rw [Storage.HeapTable.slotsOf_eq hd hl] at hle
  exact (h.content_none hi hd slot).mp (Storage.HeapTable.content_none_of_le hl hle)

theorem rowsFrom_congr (h : HeapTable.Inv heap s ids m) (h' : HeapTable.Inv heap s' ids m')
    (hi : i ∈ ids) {k : ℕ} (hsame : ∀ slot, k ≤ slot → m' ⟨i,slot⟩ = m ⟨i,slot⟩) :
    HeapTable.rowsFrom m' i k (HeapTable.slotsOf s' i - k) =
      HeapTable.rowsFrom m i k (HeapTable.slotsOf s i - k) := by
  have hslots : HeapTable.rowsFrom m' i k (HeapTable.slotsOf s' i - k) =
      HeapTable.rowsFrom m' i k (HeapTable.slotsOf s i - k) := by
    refine rowsFrom_bound m' i k (fun slot hle => none_of_slotsOf h' hi (by omega))
      fun slot hle => ?_
    rw [hsame slot (by omega)]
    exact none_of_slotsOf h hi (by omega)
  rw [hslots]
  refine List.filterMap_congr fun slot hslot => ?_
  rw [hsame slot (List.mem_range'_1.mp hslot).1]

/-- A row that has been passed is not among those to come. -/
theorem remaining_update (h : HeapTable.Inv heap s ids m) (hsub : rest <:+ ids)
    (h' : HeapTable.Inv heap s' ids (Function.update m rid none))
    (hpage : rest.head? = some rid.pageId) :
    HeapTable.remaining (Function.update m rid none) s' (rid.slotId + 1) rest =
      HeapTable.remaining m s (rid.slotId + 1) rest := by
  cases rest with
  | nil => cases hpage
  | cons i rest =>
    obtain rfl : i = rid.pageId := Option.some.inj hpage
    have hnodup := List.nodup_cons.mp (h.chain.nodup.sublist hsub.sublist)
    have hmem : ∀ j ∈ rid.pageId::rest, j ∈ ids := fun j hj => hsub.subset hj
    have hother : ∀ j ∈ rest, ∀ slot,
        Function.update m rid none ⟨j,slot⟩ = m ⟨j,slot⟩ := by
      intro j hj slot
      refine Function.update_of_ne (fun he => hnodup.1 ?_) ..
      rw [← he]
      exact hj
    rw [HeapTable.remaining,HeapTable.remaining]
    congr 1
    · refine rowsFrom_congr h h' (hmem _ List.mem_cons_self) fun slot hle => ?_
      refine Function.update_of_ne (fun he => ?_) ..
      have hslot : slot = rid.slotId := congrArg RID.slotId he
      omega
    · refine List.flatMap_congr fun j hj => ?_
      exact rowsFrom_congr h h' (hmem j (List.mem_cons_of_mem _ hj)) (k := 0)
        fun slot _ => hother j hj slot

theorem mem_remaining {k : ℕ} (h : (rid,row) ∈ HeapTable.remaining m s k rest) :
    m rid = some row := by
  cases rest with
  | nil => cases h
  | cons i rest =>
    rw [HeapTable.remaining,List.mem_append,List.mem_flatMap] at h
    rcases h with h | ⟨j,-,h⟩
    · exact (Storage.HeapTable.mem_rowsFrom.mp h).2.2.2
    · exact (Storage.HeapTable.mem_rowsFrom.mp h).2.2.2

/-! ### One turn of the loop -/

/-- Heap, rows and indexes between two turns; the cursor has the pages `rest` before it. -/
structure Scanning (heap : HeapTable.TableMetadata) (table : String) (s : HeapTable.Pool)
    (db : Database) (ids : List PageId) (m : RID → Option Row) (c : HeapTable.ScanCursor)
    (rest : List PageId) : Prop where
  inv : HeapTable.Inv heap s ids m
  place : HeapTable.At heap s ids c rest
  suffix : rest <:+ ids
  indexed : ∃ rows, Represents heap m ⟨heap.schema,rows⟩ ∧ Indexed db table rows

variable {c c' : HeapTable.ScanCursor} {before : List PageId}

theorem Scanning.next (h : Scanning heap table s db ids m c rest) :
    (HeapTable.remaining m s c.nextSlot rest = [] ∧
      c.next heap s HeapTable.pageTurns = .ok none) ∨
    ∃ entry c' rest', c.next heap s HeapTable.pageTurns = .ok (some (entry,c')) ∧
      Scanning heap table s db ids m c' rest' ∧ HeapTable.Behind c' entry.1 rest' rest ∧
      HeapTable.remaining m s c.nextSlot rest =
        entry::HeapTable.remaining m s c'.nextSlot rest' := by
  rcases Storage.HeapTable.next_eq h.inv rest HeapTable.pageTurns c h.place.short h.place with
    hdone | ⟨entry,c',rest',hnext,hat,hbehind,hcons⟩
  · exact .inl hdone
  · exact .inr ⟨entry,c',rest',hnext,⟨h.inv,hat,hbehind.suffix.trans h.suffix,h.indexed⟩,
      hbehind,hcons⟩

/-- What the deletion of a row that the cursor has returned does: the page stays and the scan
goes on, or it was the last row of a page other than the first. -/
theorem Scanning.delete (transaction : Bool) (h : Scanning heap table s db ids m c' rest)
    (hb : HeapTable.Behind c' rid rest before) (hm : m rid = some row) :
    ∃ s' db', deleteHeapEntry transaction table heap rid row s db = (.ok (),s',db') ∧
      (Scanning heap table s' db' ids (Function.update m rid none) c' rest ∧
        HeapTable.remaining (Function.update m rid none) s' c'.nextSlot rest =
          HeapTable.remaining m s c'.nextSlot rest ∧
        (rid.pageId = heap.firstDataPageId ∨ ∃ slot ≠ rid.slotId, m ⟨rid.pageId,slot⟩ ≠ none) ∨
      rid.pageId ≠ heap.firstDataPageId ∧ (∀ slot ≠ rid.slotId, m ⟨rid.pageId,slot⟩ = none) ∧
        Storage.HeapTable.Released transaction s s' rid.pageId) := by
  obtain ⟨rows,hrep,hind⟩ := h.indexed
  rcases hrep.deleteRow h.inv transaction rid with
    ⟨message,-,he,-⟩ | ⟨s',ids',t',hok,-,hdel,hrep'⟩
  · rcases h.inv.deleteRow transaction rid with ⟨hnone,-⟩ | ⟨-,s',ids',hok,-⟩
    · rw [hm] at hnone
      cases hnone
    · rw [he] at hok
      cases hok
  obtain ⟨hschema,hperm⟩ := Table.deleteRow_ok hrep.nodup ((hrep.rows rid row).mpr hm) hdel
  obtain ⟨db',honDelete,hind',-⟩ := hind.onDelete transaction hperm
  refine ⟨s',db',by rw [deleteHeapEntry,honDelete,hok],?_⟩
  rcases h.inv.deleteRow transaction rid with ⟨hnone,-⟩ | ⟨-,s₁,ids₁,hok₁,hinv₁,-,hcases⟩
  · rw [hm] at hnone
    cases hnone
  obtain rfl : s₁ = s' := (Prod.mk.inj (hok₁.symm.trans hok)).2
  rcases hcases with ⟨hkept,rfl,-⟩ | ⟨hfirst,hlast,-,hreleased⟩
  · refine .inl ⟨⟨hinv₁,⟨hinv₁.toChained,h.place.short,h.place.sub,?_,?_,?_⟩,h.suffix,
      t'.rows,?_,hind'⟩,?_,hkept⟩
    · obtain ⟨pre,hpre⟩ := h.suffix
      cases rest with
      | nil => cases hb.page
      | cons i rest =>
        have hchain := hinv₁.chain
        rw [← hpre] at hchain
        rw [h.place.chain.1]
        exact hchain.of_append
    · intro d hg
      rw [hb.guard] at hg
      cases hg
    · intro _ hl
      rw [hb.loaded] at hl
      cases hl
    · obtain ⟨schema,rows'⟩ := t'
      obtain rfl : schema = heap.schema := hschema
      exact hrep'
    · rw [hb.slot]
      exact remaining_update h.inv h.suffix hinv₁ hb.page
  · exact .inr ⟨hfirst,hlast,hreleased⟩

/-- The cursor stands on a page that is about to be deleted. -/
theorem next_released {n : ℕ} (hb : HeapTable.Behind c' rid rest before)
    (hcurrent : c'.currentPage = rid.pageId) (hid : rid.pageId ≠ 0 ∧ rid.pageId ≠ invalidPageId)
    (hs : rid.pageId ∈ s.deletePending) :
    c'.next heap s (n + 1) = fail .notFound ("页面正在删除: " ++ toString rid.pageId) := by
  have hload : c'.load s = fail .notFound ("页面正在删除: " ++ toString rid.pageId) := by
    rw [HeapTable.ScanCursor.load,hb.guard]
    dsimp only
    rw [hcurrent,if_neg hid.2,if_neg (by simp [hb.loaded]),Storage.HeapTable.Pool.fetchPage,
      if_neg (by tauto),if_pos hs]
    rfl
  rw [HeapTable.ScanCursor.next,hload]
  rfl

/-! ### Runs -/

variable {column : Option ℕ} {value : Value}

/-- Every page but the first keeps a row, if it has any. -/
def Kept (heap : HeapTable.TableMetadata) (selects : Row → Bool) (m : RID → Option Row) : Prop :=
  ∀ i, i ≠ heap.firstDataPageId → (∃ slot row, m ⟨i,slot⟩ = some row) →
    ∃ slot row, m ⟨i,slot⟩ = some row ∧ selects row = false

theorem Kept.update {selects : Row → Bool} (h : Kept heap selects m) (hm : m rid = some row)
    (hrow : selects row = true) : Kept heap selects (Function.update m rid none) := by
  intro i hfirst hlive
  obtain ⟨slot,row',hm'⟩ := hlive
  have hsome : m ⟨i,slot⟩ = some row' := by
    rw [Function.update_apply] at hm'
    split_ifs at hm'
    exact hm'
  obtain ⟨slot',row'',hkeep,hnot⟩ := h i hfirst ⟨slot,row',hsome⟩
  refine ⟨slot',row'',?_,hnot⟩
  rw [Function.update_of_ne,hkeep]
  intro he
  rw [he,hm,Option.some.injEq] at hkeep
  rw [← hkeep,hrow] at hnot
  cases hnot

/-- A page that keeps a row does not lose its last one. -/
theorem Kept.notLast {selects : Row → Bool} (h : Kept heap selects m) (hm : m rid = some row)
    (hrow : selects row = true) (hfirst : rid.pageId ≠ heap.firstDataPageId) :
    ∃ slot ≠ rid.slotId, m ⟨rid.pageId,slot⟩ ≠ none := by
  obtain ⟨slot,row',hkeep,hnot⟩ := h _ hfirst ⟨rid.slotId,row,hm⟩
  refine ⟨slot,?_,by simp [hkeep]⟩
  rintro rfl
  obtain rfl : row = row' := Option.some.inj (hm.symm.trans hkeep)
  rw [hrow] at hnot
  cases hnot

/-- What a scan deletes of the rows to come. -/
def deletions (column : Option ℕ) (value : Value) (rows : List (RID × Row)) : List RID :=
  (rows.filter fun r => matchesWhere column value r.2).map Prod.fst

theorem deletions_cons (rows : List (RID × Row)) : deletions column value ((rid,row)::rows) =
    if matchesWhere column value row then rid::deletions column value rows
    else deletions column value rows := by
  rw [deletions,List.filter_cons]
  split_ifs <;> rfl

/-- No page is lost: the scan reaches the end and has deleted every row that matches. -/
theorem deleteScan_kept : ∀ (n : ℕ) (c : HeapTable.ScanCursor) (rest : List PageId)
    (deleted : List RID) (s : HeapTable.Pool) (db : Database) (m : RID → Option Row),
    Scanning heap table s db ids m c rest → Kept heap (matchesWhere column value) m →
    (HeapTable.remaining m s c.nextSlot rest).length < n →
    ∃ s' db' m', deleteScan transaction table heap column value n c deleted s db =
        (.ok (deleted.reverse ++
          deletions column value (HeapTable.remaining m s c.nextSlot rest)),s',db') ∧
      HeapTable.Inv heap s' ids m' ∧ ∀ rid, m' rid =
        if rid ∈ deletions column value (HeapTable.remaining m s c.nextSlot rest) then none
        else m rid
  | 0, _, _, _, _, _, _, _, _, hn => absurd hn (Nat.not_lt_zero _)
  | n+1, c, rest, deleted, s, db, m, h, hk, hn => by
    rcases h.next with ⟨hnil,hnext⟩ | ⟨⟨rid,row⟩,c',rest',hnext,h',hb,hcons⟩
    · refine ⟨s,db,m,?_,h.inv,fun rid => ?_⟩
      · rw [deleteScan,hnext,hnil]
        simp [deletions]
      · simp [hnil,deletions]
    have hm : m rid = some row := mem_remaining (hcons ▸ List.mem_cons_self)
    have hlen : (HeapTable.remaining m s c'.nextSlot rest').length < n := by
      rw [hcons] at hn
      simpa using hn
    rw [hcons,deletions_cons,deleteScan,hnext]
    dsimp only
    by_cases hrow : matchesWhere column value row = true
    · rw [if_pos hrow,if_pos hrow]
      obtain ⟨s₁,db₁,hentry,hcases⟩ := h'.delete transaction hb hm
      rw [hentry]
      dsimp only
      rcases hcases with ⟨hscan,hremaining,-⟩ | ⟨hfirst,hlast,-⟩
      · rw [← hremaining] at hlen
        obtain ⟨s',db',m',hrun,hinv,hm'⟩ :=
          deleteScan_kept n c' rest' (rid::deleted) s₁ db₁ _ hscan (hk.update hm hrow) hlen
        rw [hremaining] at hrun hm'
        refine ⟨s',db',m',?_,hinv,fun rid' => ?_⟩
        · rw [hrun,List.reverse_cons,List.append_assoc]
          rfl
        · rw [hm',Function.update_apply]
          by_cases he : rid' = rid <;> simp [he]
      · obtain ⟨slot,hslot,hkeep⟩ := hk.notLast hm hrow hfirst
        exact absurd (hlast slot hslot) hkeep
    · rw [if_neg hrow]
      obtain ⟨s',db',m',hrun,hinv,hm'⟩ := deleteScan_kept n c' rest' deleted s db m h' hk hlen
      rw [if_neg hrow]
      exact ⟨s',db',m',hrun,hinv,hm'⟩

/-- A page other than the first is about to lose all its rows. -/
structure Doomed (heap : HeapTable.TableMetadata) (selects : Row → Bool) (m : RID → Option Row)
    (toCome : List (RID × Row)) (j : PageId) : Prop where
  notFirst : j ≠ heap.firstDataPageId
  live : ∃ slot row, m ⟨j,slot⟩ = some row
  rows : ∀ slot row, m ⟨j,slot⟩ = some row → selects row = true ∧ (⟨j,slot⟩,row) ∈ toCome

/-- A row that is not selected is on no such page. -/
theorem Doomed.skip {selects : Row → Bool} {toCome : List (RID × Row)}
    (h : Doomed heap selects m ((rid,row)::toCome) j) (hrow : ¬ selects row = true) :
    Doomed heap selects m toCome j := by
  refine ⟨h.notFirst,h.live,fun slot row' hlive => ?_⟩
  obtain ⟨hsel,hmem⟩ := h.rows slot row' hlive
  refine ⟨hsel,(List.mem_cons.mp hmem).resolve_left fun he => hrow ?_⟩
  rw [← (Prod.mk.inj he).2]
  exact hsel

/-- Such a page stays one as long as it has rows. -/
theorem Doomed.update {selects : Row → Bool} {toCome : List (RID × Row)}
    (h : Doomed heap selects m ((rid,row)::toCome) j)
    (hkept : rid.pageId = heap.firstDataPageId ∨
      ∃ slot ≠ rid.slotId, m ⟨rid.pageId,slot⟩ ≠ none) :
    Doomed heap selects (Function.update m rid none) toCome j where
  notFirst := h.notFirst
  live := by
    by_cases hj : rid.pageId = j
    · obtain ⟨slot,hslot,hlive⟩ := hkept.resolve_left fun he => h.notFirst (hj ▸ he)
      obtain ⟨row',hrow'⟩ := Option.ne_none_iff_exists'.mp hlive
      rw [hj] at hrow'
      refine ⟨slot,row',?_⟩
      rw [Function.update_of_ne,hrow']
      exact fun he => hslot (congrArg RID.slotId he)
    · obtain ⟨slot,row',hlive⟩ := h.live
      refine ⟨slot,row',?_⟩
      rw [Function.update_of_ne,hlive]
      exact fun he => hj (congrArg RID.pageId he).symm
  rows := by
    intro slot row' hlive
    rw [Function.update_apply] at hlive
    split_ifs at hlive with he
    obtain ⟨hsel,hmem⟩ := h.rows slot row' hlive
    exact ⟨hsel,(List.mem_cons.mp hmem).resolve_left fun heq => he (Prod.mk.inj heq).1⟩

/-- The scan of a transaction does not get over such a page. -/
theorem deleteScan_doomed : ∀ (n : ℕ) (c : HeapTable.ScanCursor) (rest : List PageId)
    (deleted : List RID) (s : HeapTable.Pool) (db : Database) (m : RID → Option Row),
    Scanning heap table s db ids m c rest →
    Doomed heap (matchesWhere column value) m (HeapTable.remaining m s c.nextSlot rest) j →
    ∃ e, (deleteScan true table heap column value n c deleted s db).1 = .error e
  | 0, _, _, _, _, _, _, _, _ => ⟨_,rfl⟩
  | n+1, c, rest, deleted, s, db, m, h, hd => by
    rcases h.next with ⟨hnil,-⟩ | ⟨⟨rid,row⟩,c',rest',hnext,h',hb,hcons⟩
    · obtain ⟨slot,row,hlive⟩ := hd.live
      have hmem := (hd.rows slot row hlive).2
      rw [hnil] at hmem
      cases hmem
    have hm : m rid = some row := mem_remaining (hcons ▸ List.mem_cons_self)
    rw [hcons] at hd
    rw [deleteScan,hnext]
    dsimp only
    by_cases hrow : matchesWhere column value row = true
    · rw [if_pos hrow]
      obtain ⟨s₁,db₁,hentry,hcases⟩ := h'.delete true hb hm
      rw [hentry]
      dsimp only
      rcases hcases with ⟨hscan,hremaining,hkept⟩ | ⟨hfirst,-,hreleased⟩
      · refine deleteScan_doomed n c' rest' (rid::deleted) s₁ db₁ _ hscan ?_
        rw [hremaining]
        exact hd.update hkept
      · -- the page of the row is reserved now, whichever of them it is
        have hreleased : s₁.deletePending = rid.pageId::s.deletePending := hreleased.1
        have hbound := h.inv.bounded _ (h.inv.page_mem hm)
        have hcurrent : c'.currentPage = rid.pageId := by
          cases rest' with
          | nil => cases hb.page
          | cons i rest' =>
            rw [← Option.some.inj hb.page]
            exact h'.place.chain.1
        have hpending : rid.pageId ∈ s₁.deletePending := by
          rw [hreleased]
          exact List.mem_cons_self
        cases n with
        | zero => exact ⟨_,rfl⟩
        | succ n =>
          rw [deleteScan,HeapTable.pageTurns,
            next_released hb hcurrent ⟨hbound.1.ne',hbound.2.ne⟩ hpending]
          exact ⟨_,rfl⟩
    · rw [if_neg hrow]
      exact deleteScan_doomed n c' rest' deleted s db m h' (hd.skip hrow)

/-! ### DELETE by the scan -/

/-- The condition is TRUE for the row; without one every row is meant. -/
def whereHolds (schema : Schema) (where_ : Option Predicate) (row : Row) : Bool :=
  where_.all fun p => (schemaColumn schema p.column).toOption.any fun column =>
    predicateMatches p (row.getD column .null)

/-- The rows that are selected are gone, and every other one is as it was. -/
structure ExactlyDeleted (heap : HeapTable.TableMetadata) (selects : Row → Bool)
    (s s' : HeapTable.Pool) (rids : List RID) : Prop where
  nodup : rids.Nodup
  rids : ∀ rid, rid ∈ rids ↔
    ∃ row, Storage.HeapTable.getRow heap s rid = .ok row ∧ selects row = true
  others : ∀ rid row, Storage.HeapTable.getRow heap s' rid = .ok row ↔
    Storage.HeapTable.getRow heap s rid = .ok row ∧ selects row = false

/-- No condition, or an equality that has no index. -/
structure Scans (db : Database) (table : String) (schema : Schema) (p : Predicate) : Prop where
  equal : p.kind = .equal
  checked : checkPredicate p schema = .ok ()
  noIndex : lookupIndex db table p = none

variable {t : Table} {where_ : Option Predicate}

/-- DELETE goes to the loop with the test of the condition. -/
theorem deleteHeap_scans (transaction : Bool) (h : HeapTable.Inv heap s ids m)
    (ht : db.tables table = some t) (hrep : Represents heap m t)
    (hw : ∀ p, where_ = some p → Scans db table heap.schema p) :
    ∃ column value, whereHolds heap.schema where_ = matchesWhere column value ∧
      deleteHeap transaction table heap where_ s db = deleteScan transaction table heap column
        value HeapTable.rowTurns { currentPage := heap.firstDataPageId } [] s db := by
  have hb := h.bounded _ h.first_mem
  have hfirst : ¬ (heap.firstDataPageId = invalidPageId ∨ heap.firstDataPageId = 0) :=
    not_or.mpr ⟨hb.2.ne,hb.1.ne'⟩
  cases where_ with
  | none =>
    refine ⟨none,.null,rfl,?_⟩
    rw [deleteHeap,requireMetadata_eq ht]
    exact if_neg hfirst
  | some p =>
    obtain ⟨hk,hp,hi⟩ := hw p rfl
    obtain ⟨column,hcolumn⟩ := schemaColumn_of_checkPredicate hp
    refine ⟨some column,p.value,?_,?_⟩
    · funext row
      rw [whereHolds,Option.all_some,hcolumn,matchesWhere_equal hk hp]
      rfl
    · rw [← hrep.schema] at hp hcolumn
      have hcheck : (some p).mapM (checkDelete t) = .ok (some column) := by
        rw [Option.mapM_some,checkDelete_equal hk hp hcolumn]
        rfl
      rw [deleteHeap,requireMetadata_eq ht]
      dsimp only
      rw [hcheck,Option.bind_some,hi]
      exact if_neg hfirst

theorem scanning_start (h : HeapTable.Inv heap s ids m) (hc : Consistent db)
    (ht : db.tables table = some t) (hrep : Represents heap m t) :
    Scanning heap table s db ids m { currentPage := heap.firstDataPageId } ids where
  inv := h
  place := h.toChained.start
  suffix := List.suffix_rfl
  indexed := by
    obtain ⟨schema,rows⟩ := t
    obtain rfl : schema = heap.schema := hrep.schema
    exact ⟨rows,hrep,hc.indexed ht⟩

theorem mem_remaining_start (h : HeapTable.Inv heap s ids m) :
    (rid,row) ∈ HeapTable.remaining m s 0 ids ↔ m rid = some row := by
  rw [Storage.HeapTable.remaining_start]
  exact h.mem_scan

theorem mem_deletions {rows : List (RID × Row)} : rid ∈ deletions column value rows ↔
    ∃ row, (rid,row) ∈ rows ∧ matchesWhere column value row = true := by
  simp [deletions]

/-- The deletions of a whole scan are the rows that are selected. -/
theorem exactlyDeleted (h : HeapTable.Inv heap s ids m) (h' : HeapTable.Inv heap s' ids m')
    (hm' : ∀ rid, m' rid =
      if rid ∈ deletions column value (HeapTable.remaining m s 0 ids) then none else m rid) :
    ExactlyDeleted heap (matchesWhere column value) s s'
      (deletions column value (HeapTable.remaining m s 0 ids)) := by
  have hdeletions (rid : RID) : rid ∈ deletions column value (HeapTable.remaining m s 0 ids) ↔
      ∃ row, m rid = some row ∧ matchesWhere column value row = true := by
    rw [mem_deletions]
    simp only [mem_remaining_start h]
  refine ⟨?_,fun rid => ?_,fun rid row => ?_⟩
  · rw [Storage.HeapTable.remaining_start]
    exact h.scan_nodup.sublist (List.filter_sublist.map _)
  · rw [hdeletions]
    simp only [h.getRow]
  · rw [h'.getRow,h.getRow,hm']
    split_ifs with hdel
    · obtain ⟨row',hrow',hmatch⟩ := (hdeletions rid).mp hdel
      refine iff_of_false (by simp) ?_
      rintro ⟨hrow,hnot⟩
      rw [hrow',Option.some.injEq] at hrow
      rw [← hrow,hmatch] at hnot
      cases hnot
    · refine ⟨fun hrow => ⟨hrow,?_⟩,fun hrow => hrow.1⟩
      exact Bool.eq_false_iff.mpr fun hmatch => hdel ((hdeletions rid).mpr ⟨row,hrow,hmatch⟩)

/-- DELETE by a scan is exact if and only if every page but the first keeps one of its rows. -/
theorem deleteHeap_exact_iff (hvalid : heap.Valid) (hs : Storage.HeapTable.Reached heap s m)
    (hc : Consistent db) (ht : db.tables table = some t) (hrep : Represents heap m t)
    (hw : ∀ p, where_ = some p → Scans db table heap.schema p) :
    (∃ rids s' db', deleteHeap true table heap where_ s db = (.ok rids,s',db') ∧
      ExactlyDeleted heap (whereHolds heap.schema where_) s s' rids) ↔
        Kept heap (whereHolds heap.schema where_) m := by
  obtain ⟨ids,h⟩ := hs.inv hvalid
  obtain ⟨column,value,hsel,hdelete⟩ := deleteHeap_scans true h ht hrep hw
  have hstart := scanning_start h hc ht hrep
  rw [hsel,hdelete]
  constructor
  · rintro ⟨rids,s',db',hrun,-⟩
    by_contra hkept
    simp only [Kept,not_forall] at hkept
    obtain ⟨j,hfirst,hlive,hnone⟩ := hkept
    have hdoomed : Doomed heap (matchesWhere column value) m
        (HeapTable.remaining m s 0 ids) j := by
      refine ⟨hfirst,hlive,fun slot row hrow => ⟨?_,(mem_remaining_start h).mpr hrow⟩⟩
      by_contra hnot
      exact hnone ⟨slot,row,hrow,Bool.eq_false_iff.mpr hnot⟩
    obtain ⟨e,he⟩ := deleteScan_doomed HeapTable.rowTurns _ ids [] s db m hstart hdoomed
    rw [hrun] at he
    cases he
  · intro hkept
    have hlen : (HeapTable.remaining m s 0 ids).length < HeapTable.rowTurns := by
      rw [Storage.HeapTable.remaining_start]
      exact Nat.lt_of_le_of_lt (h.rows_length fun _ hi => hi)
        (Nat.mul_lt_mul_of_pos_right h.length_lt (by decide))
    obtain ⟨s',db',m',hrun,hinv,hm'⟩ :=
      deleteScan_kept HeapTable.rowTurns _ ids [] s db m hstart hkept hlen
    exact ⟨_,s',db',hrun,exactlyDeleted h hinv hm'⟩

/-! ### A table of two pages -/

/-- `CREATE TABLE t (v VARCHAR(4000))`. -/
def wideHeap : HeapTable.TableMetadata := ⟨[⟨"v",.varchar,some 4000,false⟩],1⟩

def wideRow : Row := [.varchar (List.replicate 2100 97)]

def widePool : HeapTable.Pool where
  pages i := if i = 1 then
      some (Storage.SlottedPage.initializePage (fun _ => 0) Storage.HeapTable.noPage).1
    else none
  deletePending := []

def wideOne : HeapTable.Pool := (Storage.HeapTable.insertRow wideHeap false 2 wideRow widePool).2

/-- No page has room for two such rows. -/
def wideTwo : HeapTable.Pool := (Storage.HeapTable.insertRow wideHeap false 2 wideRow wideOne).2

def wideThree : HeapTable.Pool :=
  (Storage.HeapTable.insertRow wideHeap false 3 [.varchar [98]] wideTwo).2

def wideDatabase (rows : List (RID × Row)) : Database where
  tables name := if name = "t" then some ⟨wideHeap.schema,rows⟩ else none
  indexes := []
  trees _ := []
  failed := false

theorem rid_wideOne :
    (Storage.HeapTable.insertRow wideHeap false 2 wideRow widePool).1 = .ok ⟨1,0⟩ := by
  decide +kernel

theorem rid_wideTwo :
    (Storage.HeapTable.insertRow wideHeap false 2 wideRow wideOne).1 = .ok ⟨2,0⟩ := by
  decide +kernel

theorem rid_wideThree :
    (Storage.HeapTable.insertRow wideHeap false 3 [.varchar [98]] wideTwo).1 = .ok ⟨1,1⟩ := by
  decide +kernel

/-- `DELETE FROM t` takes the only row of page 2, and its cursor does not get off that page. -/
theorem deleteHeap_losesCursor :
    (Storage.HeapTable.insertRow wideHeap false 2 wideRow widePool).1 = .ok ⟨1,0⟩ ∧
    (Storage.HeapTable.insertRow wideHeap false 2 wideRow wideOne).1 = .ok ⟨2,0⟩ ∧
    (deleteHeap true "t" wideHeap none wideTwo
      (wideDatabase [(⟨1,0⟩,wideRow),(⟨2,0⟩,wideRow)])).1 =
        .error ⟨.notFound,"DeleteExecutor: 页面正在删除: 2"⟩ := by
  refine ⟨rid_wideOne,rid_wideTwo,?_⟩
  decide +kernel

/-- The rows of the table with a short one on page 1. -/
def wideRows : List (RID × Row) :=
  [(⟨1,1⟩,[.varchar [98]]),(⟨2,0⟩,wideRow),(⟨1,0⟩,wideRow)]

def wideMap : RID → Option Row :=
  Function.update (Function.update (Function.update (fun _ => none) ⟨1,0⟩ (some wideRow))
    ⟨2,0⟩ (some wideRow)) ⟨1,1⟩ (some [.varchar [98]])

theorem wideMap_iff : (rid,row) ∈ wideRows ↔ wideMap rid = some row := by
  simp only [wideRows,wideMap,List.mem_cons,List.not_mem_nil,or_false,Prod.mk.injEq,
    Function.update_apply]
  split_ifs with h₁ h₂ h₃
  · simp [h₁,eq_comm]
  · simp [h₂,eq_comm]
  · simp [h₃,eq_comm]
  · simp [h₁,h₂,h₃]

theorem reached_wide : Storage.HeapTable.Reached wideHeap wideThree wideMap := by
  have hstart : Storage.HeapTable.Reached wideHeap widePool fun _ => none :=
    .create rfl List.not_mem_nil
  have hfree : widePool.Free 2 := ⟨by decide,by decide,by decide +kernel,List.not_mem_nil⟩
  have hone := hstart.insertRow false wideRow hfree
  rw [rid_wideOne] at hone
  have hfree : wideOne.Free 2 := ⟨by decide,by decide,by decide +kernel,by decide +kernel⟩
  have htwo := Storage.HeapTable.Reached.insertRow false wideRow hone hfree
  rw [← wideOne,rid_wideTwo] at htwo
  have hfree : wideTwo.Free 3 := ⟨by decide,by decide,by decide +kernel,by decide +kernel⟩
  have hthree := Storage.HeapTable.Reached.insertRow false [.varchar [98]] htwo hfree
  rw [← wideTwo,rid_wideThree] at hthree
  exact hthree

theorem consistent_wide : Consistent (wideDatabase wideRows) := consistent_single (by decide)

theorem represents_wide : Represents wideHeap wideMap ⟨wideHeap.schema,wideRows⟩ :=
  ⟨rfl,by decide,fun _ _ => wideMap_iff⟩

/-- `DELETE FROM t WHERE v = 'b'` takes a row of page 1, and page 2 keeps its own. -/
theorem deleteHeap_exact_wide : ∃ rids s' db',
    deleteHeap true "t" wideHeap (some ⟨.equal,"v",.varchar [98]⟩) wideThree
      (wideDatabase wideRows) = (.ok rids,s',db') ∧
    ExactlyDeleted wideHeap (whereHolds wideHeap.schema (some ⟨.equal,"v",.varchar [98]⟩))
      wideThree s' rids := by
  have hvalid : wideHeap.Valid := ⟨by simp [Proper,wideHeap],by decide,by decide⟩
  refine (deleteHeap_exact_iff hvalid reached_wide consistent_wide rfl represents_wide ?_).mpr ?_
  · rintro p hp
    obtain rfl := Option.some.inj hp
    exact ⟨rfl,rfl,rfl⟩
  · rintro i hfirst ⟨slot,row,hm⟩
    have hrow := wideMap_iff.mpr hm
    simp only [wideRows,List.mem_cons,List.not_mem_nil,or_false,Prod.mk.injEq,
      RID.mk.injEq] at hrow
    rcases hrow with ⟨⟨rfl,-⟩,-⟩ | ⟨⟨rfl,rfl⟩,rfl⟩ | ⟨⟨rfl,-⟩,-⟩
    · exact absurd rfl hfirst
    · exact ⟨0,_,hm,by decide +kernel⟩
    · exact absurd rfl hfirst

end Execution
end OurSql
