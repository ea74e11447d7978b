import Mathlib.Data.List.Perm.Basic
import Mathlib.Data.List.Nodup
import OurSql.Execution.Modify

/-! Indexes mirror the heap: after every successful statement each index has one pair for
each live row and no other. One row at a time leaves the table, the trees or both, and
what it takes from each is the same. -/
namespace OurSql
namespace Execution

open Data Index Expression
open Catalog (IndexMetadata)

variable {Query : Type} {transaction : Bool} {db db' : Database} {table name : String}
  {t t' : Table} {row oldRow newRow : Row} {rid oldRid newRid : RID} {key oldKey newKey : Key}
  {column : ℕ} {tree tree' : Tree} {place : Place}

/-! ### One table, one tree -/

theorem foldr_max_ge {n : ℕ} {l : List ℕ} (h : n ∈ l) : n ≤ l.foldr max 0 := by
  induction l with
  | nil => cases h
  | cons m l ih =>
    rcases List.mem_cons.mp h with rfl | h
    · exact Nat.le_max_left ..
    · exact Nat.le_trans (ih h) (Nat.le_max_right ..)

theorem Table.freeRid_notMem (t : Table) (wanted : RID) : t.freeRid wanted ∉ t.rids := by
  rw [freeRid]
  split
  · intro h
    have hle := foldr_max_ge (List.mem_map_of_mem h (f := RID.pageId))
    simp at hle
  · next h => exact h

theorem Table.insertRow_ok (h : t.insertRow place row = .ok (rid,t')) :
    rid ∉ t.rids ∧ t'.schema = t.schema ∧ t'.rows.Perm ((rid,row)::t.rows) := by
  rw [insertRow] at h
  split at h
  · simp at h
  split at h
  · simp [fail] at h
  · obtain ⟨rfl,rfl⟩ := Prod.mk.inj (Except.ok.inj h)
    exact ⟨t.freeRid_notMem _,rfl,List.perm_insertIdx _ _ (Nat.min_le_right ..)⟩

theorem Table.deleteRow_ok (hd : t.rids.Nodup) (hm : (rid,row) ∈ t.rows)
    (h : t.deleteRow rid = .ok t') :
    t'.schema = t.schema ∧ t.rows.Perm ((rid,row)::t'.rows) := by
  rw [deleteRow] at h
  split at h
  · obtain rfl := Except.ok.inj h
    refine ⟨rfl,?_⟩
    obtain ⟨x,front,back,hfront,hx,hrows,herase⟩ :=
      List.exists_of_eraseP (p := fun e : RID × Row => e.1 = rid) hm (by simp)
    have hx : x = (rid,row) := by
      refine List.inj_on_of_nodup_map hd ?_ hm (by simpa using hx)
      rw [hrows]
      simp
    dsimp only
    rw [herase,hrows,hx]
    exact List.perm_middle
  · simp [fail] at h

theorem Tree.insert_ok (h : tree.insert key rid = .ok tree') : tree'.Perm ((key,rid)::tree) := by
  rw [Tree.insert] at h
  split at h
  · simp [fail] at h
  · obtain rfl := Except.ok.inj h
    exact List.perm_orderedInsert ..

theorem Tree.remove_ok (h : tree.remove key rid = .ok tree') : tree.Perm ((key,rid)::tree') := by
  rw [Tree.remove] at h
  split at h
  · next hm =>
    obtain rfl := Except.ok.inj h
    exact List.perm_cons_erase hm
  · simp [fail] at h

/-! ### The entries of one index -/

/-- The tree of one index has lost `gone` and taken `come`, and nothing else has changed. -/
structure Swaps (name : String) (gone come : List Entry) (db db' : Database) : Prop where
  tables : db'.tables = db.tables
  indexes : db'.indexes = db.indexes
  tree : (gone ++ db'.trees name).Perm (come ++ db.trees name)
  others : ∀ n, n ≠ name → db'.trees n = db.trees n

theorem swaps_setTree {gone come : List Entry} (h : (gone ++ tree).Perm (come ++ db.trees name)) :
    Swaps name gone come db (db.setTree name tree) where
  tables := rfl
  indexes := rfl
  tree := by
    simp only [Database.setTree,Function.update_self]
    exact h
  others := fun n hn => Function.update_of_ne hn ..

theorem insertEntry_ok (h : insertEntry transaction name key rid db = (.ok (),db')) :
    Swaps name [] [(key,rid)] db db' := by
  rw [insertEntry] at h
  split at h
  · simp at h
  split at h
  · simp at h
  split at h
  · simp at h
  · next tree ht =>
    obtain rfl := (Prod.mk.inj h).2
    exact swaps_setTree (Tree.insert_ok ht)

theorem deleteEntry_ok (h : deleteEntry transaction name key rid db = (.ok (),db')) :
    Swaps name [(key,rid)] [] db db' := by
  rw [deleteEntry] at h
  split at h
  · simp at h
  split at h
  · simp at h
  · next tree ht =>
    obtain rfl := (Prod.mk.inj h).2
    exact swaps_setTree (Tree.remove_ok ht).symm

theorem updateEntry_ok
    (h : updateEntry transaction name oldKey oldRid newKey newRid db = (.ok (),db')) :
    Swaps name [(oldKey,oldRid)] [(newKey,newRid)] db db' := by
  rw [updateEntry] at h
  split at h
  · next hsame =>
    obtain rfl := (Prod.mk.inj h).2
    exact ⟨rfl,rfl,by rw [hsame.1,hsame.2],fun _ _ => rfl⟩
  split at h
  · simp at h
  split at h
  · simp at h
  split at h
  · simp at h
  · next removed hr =>
    split at h
    · next tree ht =>
      obtain rfl := (Prod.mk.inj h).2
      refine swaps_setTree ?_
      calc ((oldKey,oldRid)::tree).Perm ((oldKey,oldRid)::(newKey,newRid)::removed) :=
            (Tree.insert_ok ht).cons _
        _ |>.Perm ((newKey,newRid)::(oldKey,oldRid)::removed) := List.Perm.swap ..
        _ |>.Perm ((newKey,newRid)::db.trees name) := (Tree.remove_ok hr).symm.cons _
    · simp at h

/-! ### The entries of all indexes -/

/-- Every tree of the prepared indexes has changed by the entries of its keys. -/
structure Applied (gone come : List Key → List Entry) (prepared : List (String × List Key))
    (db db' : Database) : Prop where
  tables : db'.tables = db.tables
  indexes : db'.indexes = db.indexes
  trees : ∀ p ∈ prepared, (gone p.2 ++ db'.trees p.1).Perm (come p.2 ++ db.trees p.1)
  others : ∀ n, n ∉ prepared.map Prod.fst → db'.trees n = db.trees n

theorem applyAll_ok {gone come : List Key → List Entry}
    {apply undo : String × List Key → Database → Status × Database}
    (ha : ∀ p db db', apply p db = (.ok (),db') → Swaps p.1 (gone p.2) (come p.2) db db') :
    ∀ (prepared done : List (String × List Key)) (db db' : Database),
      (prepared.map Prod.fst).Nodup →
      applyAll transaction apply undo done prepared db = (.ok (),db') →
      Applied gone come prepared db db'
  | [], _, db, db', _, h => by
    obtain rfl := (Prod.mk.inj h).2
    exact ⟨rfl,rfl,fun _ hp => absurd hp List.not_mem_nil,fun _ _ => rfl⟩
  | p::prepared, done, db, db', hn, h => by
    rw [applyAll] at h
    obtain ⟨hp,hn⟩ := List.nodup_cons.mp hn
    split at h
    · next db₁ hstep =>
      have hswap := ha p db db₁ hstep
      have hrest := applyAll_ok ha prepared (p::done) db₁ db' hn h
      refine ⟨hrest.tables.trans hswap.tables,hrest.indexes.trans hswap.indexes,?_,?_⟩
      · intro q hq
        rcases List.mem_cons.mp hq with rfl | hq
        · rw [hrest.others _ hp]
          exact hswap.tree
        · have hne : q.1 ≠ p.1 := fun he => hp (he ▸ List.mem_map_of_mem hq)
          have htree := hrest.trees q hq
          rwa [hswap.others _ hne] at htree
      · intro n hn
        rw [List.map_cons,List.mem_cons,not_or] at hn
        exact (hrest.others n hn.2).trans (hswap.others n hn.1)
    · split at h <;> simp at h

/-- The keys that an index has in some rows. -/
def Keyed (db : Database) (rows : List Row) (i : IndexMetadata) (p : String × List Key) : Prop :=
  p.1 = i.name ∧ ∃ column, indexedColumn db i = .ok column ∧
    (rows.mapM fun row => asInt row column) = some p.2

theorem keysOf_ok {rows : List Row} {i : IndexMetadata} {keys : List Key}
    (h : keysOf db i rows = .ok keys) : Keyed db rows i (i.name,keys) := by
  rw [keysOf] at h
  split at h
  · simp at h
  · next column hc =>
    split at h
    · simp at h
    split at h
    · simp at h
    · next ks hk =>
      obtain rfl := Outcome.ok.inj h
      exact ⟨rfl,column,hc,hk⟩

theorem prepare_ok {rows : List Row} {clash : IndexMetadata → List Key → Bool} :
    ∀ {is : List IndexMetadata} {prepared : List (String × List Key)},
      prepare db rows clash is = .ok prepared → List.Forall₂ (Keyed db rows) is prepared
  | [], prepared, h => by
    obtain rfl := Outcome.ok.inj h
    exact .nil
  | i::is, prepared, h => by
    rw [prepare] at h
    split at h
    · simp at h
    · simp at h
    · next keys hk =>
      split at h
      · simp at h
      split at h
      · next rest hr =>
        obtain rfl := Outcome.ok.inj h
        exact .cons (keysOf_ok hk) (prepare_ok hr)
      · simp at h
      · simp at h

theorem forall₂_mem {rows : List Row} {is : List IndexMetadata}
    {prepared : List (String × List Key)} (h : List.Forall₂ (Keyed db rows) is prepared)
    {i : IndexMetadata} (hi : i ∈ is) : ∃ p ∈ prepared, Keyed db rows i p := by
  induction h with
  | nil => cases hi
  | cons hk _ ih =>
    rcases List.mem_cons.mp hi with rfl | hi
    · exact ⟨_,List.mem_cons_self,hk⟩
    · obtain ⟨p,hp,hr⟩ := ih hi
      exact ⟨p,List.mem_cons_of_mem _ hp,hr⟩

theorem forall₂_names {rows : List Row} {is : List IndexMetadata}
    {prepared : List (String × List Key)} (h : List.Forall₂ (Keyed db rows) is prepared) :
    prepared.map Prod.fst = is.map fun i => i.name := by
  induction h with
  | nil => rfl
  | cons hk _ ih => rw [List.map_cons,List.map_cons,ih,hk.1]

/-- What a maintenance call has done to the trees of a table, and to no other tree. -/
structure Maintained (gone come : List Key → List Entry) (rows : List Row) (table : String)
    (db db' : Database) : Prop where
  tables : db'.tables = db.tables
  indexes : db'.indexes = db.indexes
  trees : ∀ i ∈ db.indexes, i.tableName = table → ∃ column keys,
    indexedColumn db i = .ok column ∧ (rows.mapM fun row => asInt row column) = some keys ∧
    (gone keys ++ db'.trees i.name).Perm (come keys ++ db.trees i.name)
  others : ∀ i ∈ db.indexes, i.tableName ≠ table → db'.trees i.name = db.trees i.name

/-- No two indexes have one name. -/
def Named (db : Database) : Prop := (db.indexes.map fun i => i.name).Nodup

theorem maintain_ok {gone come : List Key → List Entry} {rows : List Row}
    {clash : IndexMetadata → List Key → Bool}
    {apply undo : String × List Key → Database → Status × Database} (hn : Named db)
    (ha : ∀ p db db', apply p db = (.ok (),db') → Swaps p.1 (gone p.2) (come p.2) db db')
    (h : maintain transaction rows clash apply undo table db = (.ok (),db')) :
    Maintained gone come rows table db db' := by
  rw [maintain] at h
  split at h
  · simp at h
  · simp at h
  · next prepared hp =>
    have hkeyed := prepare_ok hp
    have hnames := forall₂_names hkeyed
    obtain ⟨hstatus,rfl⟩ := Prod.mk.inj h
    generalize hrun : applyAll transaction apply undo [] prepared db = result at hstatus ⊢
    obtain ⟨status,db'⟩ := result
    dsimp only at hstatus ⊢
    cases status with
    | error e => simp [Outcome.ofResult] at hstatus
    | ok u =>
      have hsub : (prepared.map Prod.fst).Nodup := by
        rw [hnames]
        exact hn.sublist (List.filter_sublist.map _)
      have happ := applyAll_ok ha prepared [] db db' hsub hrun
      refine ⟨happ.tables,happ.indexes,fun i hi ht => ?_,fun i hi ht => ?_⟩
      · have hmem : i ∈ db.listTableIndexes table :=
          List.mem_filter.mpr ⟨hi,by simpa using ht⟩
        obtain ⟨p,hpm,hk⟩ := forall₂_mem hkeyed hmem
        obtain ⟨hname,column,hc,hkeys⟩ := hk
        have htree := happ.trees p hpm
        rw [hname] at htree
        exact ⟨column,p.2,hc,hkeys,htree⟩
      · apply happ.others
        rw [hnames]
        intro hm
        obtain ⟨j,hj,he⟩ := List.mem_map.mp hm
        obtain ⟨hj,htj⟩ := List.mem_filter.mp hj
        have hij : j = i := List.inj_on_of_nodup_map hn hj hi he
        exact ht (by simpa [hij] using htj)

theorem onInsert_ok (hn : Named db) (h : onInsert transaction table row rid db = (.ok (),db')) :
    Maintained (fun _ => []) (fun keys => [(keys.headD 0,rid)]) [row] table db db' :=
  maintain_ok hn (fun _ _ _ hstep => insertEntry_ok hstep) h

theorem onDelete_ok (hn : Named db) (h : onDelete transaction table row rid db = (.ok (),db')) :
    Maintained (fun keys => [(keys.headD 0,rid)]) (fun _ => []) [row] table db db' :=
  maintain_ok hn (fun _ _ _ hstep => deleteEntry_ok hstep) h

theorem onUpdate_ok (hn : Named db)
    (h : onUpdate transaction table oldRow oldRid newRow newRid db = (.ok (),db')) :
    Maintained (fun keys => [(keys.headD 0,oldRid)]) (fun keys => [(keys.getD 1 0,newRid)])
      [oldRow,newRow] table db db' :=
  maintain_ok hn (fun _ _ _ hstep => updateEntry_ok hstep) h

/-! ### Rows and entries together -/

/-- The pair that a live row gives to an index on `column`, if its value there is an INT. -/
def pairOf (column : ℕ) (e : RID × Row) : Option Entry :=
  (asInt e.2 column).map fun key => (key,e.1)

/-- The index has one pair for each live row and no other. -/
def Mirrors (db : Database) (i : IndexMetadata) : Prop :=
  ∃ t column, db.tables i.tableName = some t ∧ indexedColumn db i = .ok column ∧
    ((db.trees i.name).map some).Perm (t.rows.map (pairOf column))

structure Consistent (db : Database) : Prop where
  names : Named db
  rids : ∀ table t, db.tables table = some t → t.rids.Nodup
  mirrors : ∀ i ∈ db.indexes, Mirrors db i

@[simp] theorem setTable_at : (db.setTable table t).tables table = some t :=
  Function.update_self ..

theorem setTable_of_ne (h : name ≠ table) : (db.setTable table t).tables name = db.tables name :=
  Function.update_of_ne h ..

theorem indexedColumn_setTable (ht : db.tables table = some t) (hs : t'.schema = t.schema)
    (i : IndexMetadata) : indexedColumn (db.setTable table t') i = indexedColumn db i := by
  by_cases hi : i.tableName = table
  · rw [indexedColumn,indexedColumn,hi,setTable_at,ht]
    simp only [hs]
  · rw [indexedColumn,indexedColumn,setTable_of_ne hi]

theorem indexedColumn_congr (h : db'.tables = db.tables) (i : IndexMetadata) :
    indexedColumn db' i = indexedColumn db i := by
  rw [indexedColumn,indexedColumn,h]

/-- A row that goes and a row that comes take their pairs with them, in every index. -/
theorem Consistent.swap (goneRows comeRows : List (RID × Row)) (h : Consistent db)
    (ht : db.tables table = some t) (hs : t'.schema = t.schema) (hr : t'.rids.Nodup)
    (hrows : (goneRows ++ t'.rows).Perm (comeRows ++ t.rows))
    (htables : db'.tables = Function.update db.tables table (some t'))
    (hindexes : db'.indexes = db.indexes)
    (htrees : ∀ i ∈ db.indexes, i.tableName = table → ∀ column, indexedColumn db i = .ok column →
      ∃ gone come : List Entry, goneRows.map (pairOf column) = gone.map some ∧
        comeRows.map (pairOf column) = come.map some ∧
        (gone ++ db'.trees i.name).Perm (come ++ db.trees i.name))
    (hothers : ∀ i ∈ db.indexes, i.tableName ≠ table → db'.trees i.name = db.trees i.name) :
    Consistent db' where
  names := by
    rw [Named,hindexes]
    exact h.names
  rids := by
    intro table' t₁ h₁
    rw [htables] at h₁
    by_cases hn : table' = table
    · subst hn
      rw [Function.update_self] at h₁
      obtain rfl := Option.some.inj h₁
      exact hr
    · rw [Function.update_of_ne hn] at h₁
      exact h.rids table' t₁ h₁
  mirrors := by
    intro i hi
    rw [hindexes] at hi
    obtain ⟨t₁,column,h₁,hc,hperm⟩ := h.mirrors i hi
    have hcol : indexedColumn db' i = .ok column := by
      rw [← hc,← indexedColumn_setTable ht hs i]
      exact indexedColumn_congr htables i
    by_cases hn : i.tableName = table
    · rw [hn,ht] at h₁
      obtain rfl := Option.some.inj h₁
      obtain ⟨gone,come,hgone,hcome,htree⟩ := htrees i hi hn column hc
      refine ⟨t',column,by rw [htables,hn,Function.update_self],hcol,?_⟩
      have hall : (gone.map some ++ (db'.trees i.name).map some).Perm
          (gone.map some ++ t'.rows.map (pairOf column)) := by
        calc (gone.map some ++ (db'.trees i.name).map some).Perm
              (come.map some ++ (db.trees i.name).map some) := by
              rw [← List.map_append,← List.map_append]
              exact htree.map some
          _ |>.Perm (come.map some ++ t.rows.map (pairOf column)) := hperm.append_left _
          _ |>.Perm (gone.map some ++ t'.rows.map (pairOf column)) := by
              rw [← hgone,← hcome,← List.map_append,← List.map_append]
              exact (hrows.map (pairOf column)).symm
      exact (List.perm_append_left_iff _).mp hall
    · refine ⟨t₁,column,by rw [htables,Function.update_of_ne hn,h₁],hcol,?_⟩
      rw [hothers i hi hn]
      exact hperm

theorem mapM_one {column : ℕ} {keys : List Key}
    (h : ([row].mapM fun row => asInt row column) = some keys) :
    ∃ key, asInt row column = some key ∧ keys = [key] := by
  cases hk : asInt row column with
  | none => simp [hk] at h
  | some key => exact ⟨key,rfl,by simpa [hk,eq_comm] using h⟩

theorem mapM_two {column : ℕ} {keys : List Key}
    (h : ([oldRow,newRow].mapM fun row => asInt row column) = some keys) :
    ∃ oldKey newKey, asInt oldRow column = some oldKey ∧ asInt newRow column = some newKey ∧
      keys = [oldKey,newKey] := by
  cases ho : asInt oldRow column with
  | none => simp [ho] at h
  | some oldKey =>
    cases hn : asInt newRow column with
    | none => simp [ho,hn] at h
    | some newKey => exact ⟨oldKey,newKey,rfl,rfl,by simpa [ho,hn,eq_comm] using h⟩

theorem rids_perm {rows : List (RID × Row)} (h : t.rows.Perm rows) :
    t.rids.Nodup ↔ (rows.map Prod.fst).Nodup := (h.map Prod.fst).nodup_iff

/-- A new row and `OnInsert`. -/
theorem insert_consistent (h : Consistent db) (ht : db.tables table = some t)
    (hi : t.insertRow place row = .ok (rid,t'))
    (ho : onInsert transaction table row rid (db.setTable table t') = (.ok (),db')) :
    Consistent db' ∧ db'.tables = Function.update db.tables table (some t') := by
  obtain ⟨hfresh,hs,hrows⟩ := Table.insertRow_ok hi
  have hm := onInsert_ok (show Named (db.setTable table t') from h.names) ho
  refine ⟨h.swap [] [(rid,row)] ht hs ?_ hrows hm.tables hm.indexes ?_ hm.others,hm.tables⟩
  · rw [rids_perm hrows,List.map_cons,List.nodup_cons]
    exact ⟨hfresh,h.rids table t ht⟩
  · intro i hi hn column hc
    obtain ⟨column',keys,hc',hk,htree⟩ := hm.trees i hi hn
    rw [indexedColumn_setTable ht hs i,hc,Except.ok.injEq] at hc'
    subst hc'
    obtain ⟨key,hkey,rfl⟩ := mapM_one hk
    exact ⟨[],[(key,rid)],rfl,by simp [pairOf,hkey],htree⟩

/-- `OnDelete` and the row it is for. -/
theorem delete_consistent (h : Consistent db) (ht : db.tables table = some t)
    (hrow : (rid,row) ∈ t.rows) (ho : onDelete transaction table row rid db = (.ok (),db'))
    (hd : t.deleteRow rid = .ok t') :
    Consistent (db'.setTable table t') ∧ db'.tables = db.tables := by
  obtain ⟨hs,hrows⟩ := Table.deleteRow_ok (h.rids table t ht) hrow hd
  have hm := onDelete_ok h.names ho
  have htables : (db'.setTable table t').tables = Function.update db.tables table (some t') := by
    rw [Database.setTable,hm.tables]
  refine ⟨h.swap [(rid,row)] [] ht hs ?_ hrows.symm htables hm.indexes ?_ hm.others,hm.tables⟩
  · have hn := (rids_perm hrows).mp (h.rids table t ht)
    exact (List.nodup_cons.mp hn).2
  · intro i hi hn column hc
    obtain ⟨column',keys,hc',hk,htree⟩ := hm.trees i hi hn
    rw [hc,Except.ok.injEq] at hc'
    subst hc'
    obtain ⟨key,hkey,rfl⟩ := mapM_one hk
    exact ⟨[(key,rid)],[],by simp [pairOf,hkey],rfl,htree⟩

/-- A replaced row: the new row, `OnUpdate`, and the old row gone. -/
theorem replace_consistent {t₁ : Table} (h : Consistent db) (ht : db.tables table = some t)
    (hrow : (oldRid,oldRow) ∈ t.rows) (hi : t.insertRow place newRow = .ok (newRid,t₁))
    (ho : onUpdate transaction table oldRow oldRid newRow newRid (db.setTable table t₁) =
      (.ok (),db')) (hd : t₁.deleteRow oldRid = .ok t') :
    Consistent (db'.setTable table t') ∧ db'.tables = Function.update db.tables table (some t₁) ∧
      ((oldRid,oldRow)::t'.rows).Perm ((newRid,newRow)::t.rows) := by
  obtain ⟨hfresh,hs₁,hrows₁⟩ := Table.insertRow_ok hi
  have hn₁ : t₁.rids.Nodup := by
    rw [rids_perm hrows₁,List.map_cons,List.nodup_cons]
    exact ⟨hfresh,h.rids table t ht⟩
  have hrow₁ : (oldRid,oldRow) ∈ t₁.rows :=
    hrows₁.mem_iff.mpr (List.mem_cons_of_mem _ hrow)
  obtain ⟨hs,hrows⟩ := Table.deleteRow_ok hn₁ hrow₁ hd
  have hswap : ((oldRid,oldRow)::t'.rows).Perm ((newRid,newRow)::t.rows) :=
    hrows.symm.trans hrows₁
  have hm := onUpdate_ok (show Named (db.setTable table t₁) from h.names) ho
  have htables : (db'.setTable table t').tables = Function.update db.tables table (some t') := by
    rw [Database.setTable,hm.tables,Database.setTable,Function.update_idem]
  refine ⟨h.swap [(oldRid,oldRow)] [(newRid,newRow)] ht (hs.trans hs₁) ?_ hswap htables
    hm.indexes ?_ hm.others,hm.tables,hswap⟩
  · exact (List.nodup_cons.mp ((rids_perm hrows).mp hn₁)).2
  · intro i hi hn column hc
    obtain ⟨column',keys,hc',hk,htree⟩ := hm.trees i hi hn
    rw [indexedColumn_setTable ht hs₁ i,hc,Except.ok.injEq] at hc'
    subst hc'
    obtain ⟨oldKey,newKey,hold,hnew,rfl⟩ := mapM_two hk
    exact ⟨[(oldKey,oldRid)],[(newKey,newRid)],by simp [pairOf,hold],by simp [pairOf,hnew],htree⟩

/-! ### Statements -/

/-- A property that survives each row that a statement writes or deletes, and each new index. -/
structure Survives (P : Database → Prop) : Prop where
  insert : ∀ {transaction db db' table t t' place row rid}, Consistent db → P db →
    db.tables table = some t → t.insertRow place row = .ok (rid,t') →
    onInsert transaction table row rid (db.setTable table t') = (.ok (),db') → P db'
  delete : ∀ {transaction db db' table t t' row rid}, Consistent db → P db →
    db.tables table = some t → (rid,row) ∈ t.rows →
    onDelete transaction table row rid db = (.ok (),db') → t.deleteRow rid = .ok t' →
    P (db'.setTable table t')
  replace : ∀ {transaction db db' table t t₁ t' place oldRow newRow oldRid newRid},
    Consistent db → P db → db.tables table = some t → (oldRid,oldRow) ∈ t.rows →
    t.insertRow place newRow = .ok (newRid,t₁) →
    onUpdate transaction table oldRow oldRid newRow newRid (db.setTable table t₁) =
      (.ok (),db') → t₁.deleteRow oldRid = .ok t' → P (db'.setTable table t')
  createIndex : ∀ {i db db'}, Consistent db → P db → createIndex i db = (.ok (),db') → P db'

theorem survives_true : Survives fun _ => True where
  insert := fun _ _ _ _ _ => trivial
  delete := fun _ _ _ _ _ _ => trivial
  replace := fun _ _ _ _ _ _ _ => trivial
  createIndex := fun _ _ _ => trivial

section run

variable {P : Database → Prop} (hP : Survives P)

include hP

theorem insertRows_survives : ∀ {rows : List (Place × Row)} {done : List (RID × Row)}
    {db db' : Database} {rids : List RID}, Consistent db → P db →
    insertRows transaction table done rows db = (.ok rids,db') → Consistent db' ∧ P db'
  | [], _, _, _, _, hc, hp, h => by
    obtain rfl := (Prod.mk.inj h).2
    exact ⟨hc,hp⟩
  | (place,row)::rest, done, db, db', rids, hc, hp, h => by
    rw [insertRows] at h
    split at h
    · simp at h
    · next t ht =>
      split at h
      · simp at h
      · next rid t' hi =>
        split at h
        · next db₁ ho =>
          exact insertRows_survives (insert_consistent hc ht hi ho).1 (hP.insert hc hp ht hi ho) h
        · simp at h
        · simp at h

theorem deleteEntryOf_survives (h : Consistent db) (hp : P db) (ht : db.tables table = some t)
    (hrow : (rid,row) ∈ t.rows)
    (hd : deleteEntryOf transaction table rid row db = (.ok (),db')) :
    (Consistent db' ∧ P db') ∧
      ∃ t', db'.tables table = some t' ∧ t.rows.Perm ((rid,row)::t'.rows) := by
  rw [deleteEntryOf] at hd
  split at hd
  · next db₁ ho =>
    split at hd
    · simp at hd
    · next t₁ ht₁ =>
      split at hd
      · next t' hdel =>
        obtain rfl := (Prod.mk.inj hd).2
        have htables := (onDelete_ok h.names ho).tables
        rw [htables,ht] at ht₁
        obtain rfl := Option.some.inj ht₁
        exact ⟨⟨(delete_consistent h ht hrow ho hdel).1,hP.delete h hp ht hrow ho hdel⟩,t',
          setTable_at,(Table.deleteRow_ok (h.rids table t ht) hrow hdel).2⟩
      · simp at hd
  · next o db₁ hne _ =>
    cases o with
    | ok u => exact absurd rfl hne
    | error e => simp [Outcome.within] at hd
    | throws => simp [Outcome.within] at hd

omit hP in
/-- Rows that are still to be visited are live, whichever row of another RID has gone. -/
theorem mem_of_perm {e x : RID × Row} {rows rows' : List (RID × Row)} (h : rows.Perm (x::rows'))
    (he : e ∈ rows) (hne : e.1 ≠ x.1) : e ∈ rows' := by
  rcases List.mem_cons.mp (h.mem_iff.mp he) with rfl | he
  · exact absurd rfl hne
  · exact he

theorem deleteRows_survives {c : Option ℕ} {value : Value} {cursor : ℕ → Option Failure} :
    ∀ {rest : List (RID × Row)} {deleted : List RID} {db db' : Database} {t : Table}
      {rids : List RID}, Consistent db → P db → db.tables table = some t →
      (∀ e ∈ rest, e ∈ t.rows) → (rest.map Prod.fst).Nodup →
      deleteRows transaction table c value cursor deleted rest db = (.ok rids,db') →
      Consistent db' ∧ P db'
  | [], deleted, db, db', t, rids, hc, hp, ht, hlive, hn, h => by
    rw [deleteRows] at h
    split at h
    · simp at h
    · obtain rfl := (Prod.mk.inj h).2
      exact ⟨hc,hp⟩
  | (rid,row)::rest, deleted, db, db', t, rids, hc, hp, ht, hlive, hn, h => by
    obtain ⟨hrid,hn⟩ := List.nodup_cons.mp hn
    rw [deleteRows] at h
    split at h
    · simp at h
    split at h
    · split at h
      · next db₁ hd =>
        obtain ⟨⟨hc₁,hp₁⟩,t₁,ht₁,hrows⟩ :=
          deleteEntryOf_survives hP hc hp ht (hlive _ List.mem_cons_self) hd
        refine deleteRows_survives hc₁ hp₁ ht₁ (fun e he => ?_) hn h
        refine mem_of_perm hrows (hlive e (List.mem_cons_of_mem _ he)) fun heq => hrid ?_
        exact heq ▸ List.mem_map_of_mem he
      · simp at h
      · simp at h
    · exact deleteRows_survives hc hp ht (fun e he => hlive e (List.mem_cons_of_mem _ he)) hn h

omit hP in
theorem Table.getRow_ok (h : t.getRow rid = .ok row) : (rid,row) ∈ t.rows := by
  rw [getRow] at h
  split at h
  · simp [fail] at h
  · next row' hl =>
    obtain rfl := Except.ok.inj h
    obtain ⟨l₁,l₂,hrows,-⟩ := List.lookup_eq_some_iff.mp hl
    rw [hrows]
    simp

theorem deleteLookup_survives {c : Option ℕ} {value : Value} :
    ∀ {rest deleted : List RID} {db db' : Database} {rids : List RID}, Consistent db → P db →
      deleteLookup transaction table c value deleted rest db = (.ok rids,db') →
      Consistent db' ∧ P db'
  | [], deleted, db, db', rids, hc, hp, h => by
    obtain rfl := (Prod.mk.inj h).2
    exact ⟨hc,hp⟩
  | rid::rest, deleted, db, db', rids, hc, hp, h => by
    rw [deleteLookup] at h
    split at h
    · simp at h
    · next t ht =>
      split at h
      · simp at h
      · next row hrow =>
        split at h
        · split at h
          · next db₁ hd =>
            obtain ⟨hc₁,hp₁⟩ := (deleteEntryOf_survives hP hc hp ht (Table.getRow_ok hrow) hd).1
            exact deleteLookup_survives hc₁ hp₁ h
          · simp at h
          · simp at h
        · exact deleteLookup_survives hc hp h

theorem delete_statement {p : Option Predicate} {cursor : ℕ → Option Failure} {rids : List RID}
    (hc : Consistent db) (hp : P db)
    (h : delete transaction table p cursor db = (.ok rids,db')) : Consistent db' ∧ P db' := by
  have hscan : ∀ {t : Table} {c : Option ℕ} {value : Value}, requireMetadata db table = .ok t →
      deleteRows transaction table c value cursor [] t.rows db = (.ok rids,db') →
      Consistent db' ∧ P db' := by
    intro t c value ht hrun
    rw [requireMetadata] at ht
    split at ht
    · next t' ht' =>
      obtain rfl := Except.ok.inj ht
      exact deleteRows_survives hP hc hp ht' (fun _ he => he) (hc.rids table t' ht') hrun
    · simp [fail] at ht
  rw [delete] at h
  split at h
  · simp at h
  · next t ht =>
    split at h
    · exact hscan ht h
    split at h
    · simp at h
    split at h
    · simp at h
    split at h
    · exact hscan ht h
    split at h
    · simp at h
    · exact deleteLookup_survives hP hc hp h

/-! ### UPDATE -/

omit hP in
theorem collect_sublist {schema : Schema} {c : Option ℕ} {value : Value}
    {assignments : List (ℕ × CompileExpr Query)} : ∀ {rows : List (RID × Row)}
    {rs : List Replacement}, collect schema c value assignments rows = .ok rs →
      (rs.map fun r => (r.oldRid,r.oldRow)).Sublist rows
  | [], rs, h => by
    obtain rfl := Except.ok.inj h
    exact List.Sublist.refl _
  | (rid,row)::rest, rs, h => by
    rw [collect] at h
    split at h
    · split at h
      · simp at h
      · next updated _ =>
        cases hr : collect schema c value assignments rest with
        | error e => simp [hr,Except.map] at h
        | ok rs' =>
          obtain rfl : _ = rs := by simpa [hr,Except.map] using h
          exact (collect_sublist hr).cons_cons _
    · exact (collect_sublist h).cons _

theorem replaceRow_survives {r : Replacement} (h : Consistent db) (hp : P db)
    (ht : db.tables table = some t) (hrow : (r.oldRid,r.oldRow) ∈ t.rows)
    (hr : replaceRow transaction table place r db = (.ok newRid,db')) :
    (Consistent db' ∧ P db') ∧ ∃ t', db'.tables table = some t' ∧
      ((r.oldRid,r.oldRow)::t'.rows).Perm ((newRid,r.newRow)::t.rows) := by
  rw [replaceRow,ht] at hr
  dsimp only at hr
  split at hr
  · simp at hr
  · next newRid' t₁ hi =>
    split at hr
    · simp at hr
    · simp at hr
    · next db₁ ho =>
      split at hr
      · simp at hr
      · next t₂ ht₂ =>
        split at hr
        · next t' hd =>
          obtain ⟨hrid,rfl⟩ := Prod.mk.inj hr
          obtain rfl := Outcome.ok.inj hrid
          have htables := (onUpdate_ok (show Named (db.setTable table t₁) from h.names) ho).tables
          rw [htables,setTable_at] at ht₂
          obtain rfl := Option.some.inj ht₂
          obtain ⟨hc,-,hperm⟩ := replace_consistent h ht hrow hi ho hd
          exact ⟨⟨hc,hP.replace h hp ht hrow hi ho hd⟩,t',setTable_at,hperm⟩
        · simp at hr

theorem replaceRows_survives {places : ℕ → Place} : ∀ {rest : List Replacement}
    {replaced : List RID} {db db' : Database} {t : Table} {rids : List RID}, Consistent db →
    P db → db.tables table = some t → (∀ r ∈ rest, (r.oldRid,r.oldRow) ∈ t.rows) →
    (rest.map Replacement.oldRid).Nodup →
    replaceRows transaction table places replaced rest db = (.ok rids,db') →
    Consistent db' ∧ P db'
  | [], replaced, db, db', t, rids, hc, hp, ht, hlive, hn, h => by
    obtain rfl := (Prod.mk.inj h).2
    exact ⟨hc,hp⟩
  | r::rest, replaced, db, db', t, rids, hc, hp, ht, hlive, hn, h => by
    obtain ⟨hrid,hn⟩ := List.nodup_cons.mp hn
    rw [replaceRows] at h
    split at h
    · next newRid db₁ hr =>
      obtain ⟨⟨hc₁,hp₁⟩,t₁,ht₁,hrows⟩ :=
        replaceRow_survives hP hc hp ht (hlive r List.mem_cons_self) hr
      refine replaceRows_survives hc₁ hp₁ ht₁ (fun x hx => ?_) hn h
      have hmem := List.mem_cons_of_mem (newRid,r.newRow) (hlive x (List.mem_cons_of_mem _ hx))
      refine mem_of_perm hrows.symm hmem fun heq => hrid ?_
      rw [← show x.oldRid = r.oldRid from heq]
      exact List.mem_map_of_mem hx
    · simp at h
    · simp at h

theorem update_statement {assignments : List (String × CompileExpr Query)} {p : Option Predicate}
    {places : ℕ → Place} {rids : List RID} (hc : Consistent db) (hp : P db)
    (h : update transaction table assignments p places db = (.ok rids,db')) :
    Consistent db' ∧ P db' := by
  rw [update] at h
  split at h
  · simp at h
  · next t hreq =>
    split at h
    · simp at h
    split at h
    · simp at h
    split at h
    · simp at h
    · next replacements hcol =>
      rw [requireMetadata] at hreq
      split at hreq
      · next t' ht =>
        obtain rfl := Except.ok.inj hreq
        have hsub := collect_sublist hcol
        refine replaceRows_survives hP hc hp ht (fun r hr => hsub.subset (List.mem_map_of_mem hr)) ?_ h
        have hn := (hc.rids table t' ht).sublist (hsub.map Prod.fst)
        rwa [List.map_map] at hn
      · simp [fail] at hreq

end run

/-! ### CREATE INDEX -/

theorem fillTree_ok {isUnique : Bool} : ∀ {rows : List (RID × Row)} {tree tree' : Tree},
    fillTree isUnique column tree rows = .ok tree' →
      (tree'.map some).Perm (rows.map (pairOf column) ++ tree.map some)
  | [], tree, tree', h => by
    obtain rfl := Outcome.ok.inj h
    exact List.Perm.refl _
  | (rid,row)::rest, tree, tree', h => by
    rw [fillTree] at h
    split at h
    · simp at h
    · next key hk =>
      split at h
      · simp at h
      split at h
      · simp at h
      · next tree₁ ht =>
        have hpair : pairOf column (rid,row) = some (key,rid) := by simp [pairOf,hk]
        rw [List.map_cons,hpair,List.cons_append]
        calc (tree'.map some).Perm (rest.map (pairOf column) ++ tree₁.map some) := fillTree_ok h
          _ |>.Perm (rest.map (pairOf column) ++ some (key,rid)::tree.map some) :=
            ((Tree.insert_ok ht).map some).append_left _
          _ |>.Perm (some (key,rid)::(rest.map (pairOf column) ++ tree.map some)) :=
            List.perm_middle

theorem createIndex_statement {i : IndexMetadata} (hc : Consistent db)
    (h : createIndex i db = (.ok (),db')) : Consistent db' := by
  rw [createIndex] at h
  split at h
  · simp at h
  next hnew =>
  split at h
  · simp at h
  next t ht =>
  split at h
  · simp at h
  next column hcol =>
  split at h
  · simp at h
  · simp at h
  next tree hfill =>
  split at h
  · simp at h
  obtain rfl := (Prod.mk.inj h).2
  have hperm := List.perm_orderedInsert (fun a b : IndexMetadata => a.name ≤ b.name) i db.indexes
  have hname : ∀ j ∈ db.indexes, j.name ≠ i.name := by
    intro j hj he
    exact hnew (List.any_eq_true.mpr ⟨j,hj,by simpa using he⟩)
  refine ⟨?_,hc.rids,fun j hj => ?_⟩
  · refine (hperm.map _).nodup_iff.mpr (List.nodup_cons.mpr ⟨fun hm => ?_,hc.names⟩)
    obtain ⟨j,hj,he⟩ := List.mem_map.mp hm
    exact hname j hj he
  · rcases List.mem_cons.mp (hperm.mem_iff.mp hj) with rfl | hj
    · refine ⟨t,column,ht,hcol,?_⟩
      simp only [Database.setTree,Function.update_self]
      simpa using fillTree_ok hfill
    · obtain ⟨t₁,c,ht₁,hc₁,hp⟩ := hc.mirrors j hj
      refine ⟨t₁,c,ht₁,hc₁,?_⟩
      simp only [Database.setTree,Function.update_of_ne (hname j hj)]
      exact hp

/-! ### Runs -/

inductive Statement (Query : Type)
  | insert (table : String) (rows : List (Place × Row))
  | delete (table : String) (where_ : Option Predicate) (cursor : ℕ → Option Failure)
  | update (table : String) (assignments : List (String × CompileExpr Query))
    (where_ : Option Predicate) (places : ℕ → Place)
  | createIndex (metadata : IndexMetadata)

/-- The answer is the RIDs of the rows that the statement has written. -/
def Statement.execute (transaction : Bool) (s : Statement Query) (db : Database) :
    Outcome (List RID) × Database :=
  match s with
  | .insert table rows => Execution.insert transaction table rows db
  | .delete table where_ cursor => Execution.delete transaction table where_ cursor db
  | .update table assignments where_ places =>
    Execution.update transaction table assignments where_ places db
  | .createIndex metadata =>
    match Execution.createIndex metadata db with
    | (.ok (),db) => (.ok [],db)
    | (.error e,db) => (.error (contextualize "CreateIndexExecutor" e),db)
    | (.throws,db) => (.throws,db)

/-- Empty tables without indexes, and successful statements, each in a transaction or not. -/
inductive Reached (Query : Type) : Database → Prop
  | start {db : Database} : db.indexes = [] →
    (∀ name t, db.tables name = some t → t.rows = []) → Reached Query db
  | step {db db' : Database} {rids : List RID} (transaction : Bool) (s : Statement Query) :
    Reached Query db → s.execute transaction db = (.ok rids,db') → Reached Query db'

theorem Statement.survives {P : Database → Prop} (hP : Survives P) {s : Statement Query}
    {rids : List RID} (hc : Consistent db) (hp : P db)
    (h : s.execute transaction db = (.ok rids,db')) : Consistent db' ∧ P db' := by
  cases s with
  | insert table rows =>
    simp only [execute,Execution.insert] at h
    split at h
    · simp at h
    · exact insertRows_survives hP hc hp h
  | delete table where_ cursor => exact delete_statement hP hc hp h
  | update table assignments where_ places => exact update_statement hP hc hp h
  | createIndex metadata =>
    simp only [execute] at h
    split at h
    · next db₁ hi =>
      obtain rfl := (Prod.mk.inj h).2
      exact ⟨createIndex_statement hc hi,hP.createIndex hc hp hi⟩
    · simp at h
    · simp at h

theorem Reached.consistent (h : Reached Query db) : Consistent db := by
  induction h with
  | start hi hr =>
    refine ⟨?_,fun table t ht => ?_,fun i him => ?_⟩
    · rw [Named,hi]
      exact List.nodup_nil
    · rw [Table.rids,hr table t ht]
      exact List.nodup_nil
    · rw [hi] at him
      cases him
  | step transaction s _ hs ih => exact (s.survives survives_true ih trivial hs).1

/-- After every statement every index holds exactly the pairs of the live rows. -/
theorem indexes_mirror_heap (h : Reached Query db) {i : IndexMetadata} (hi : i ∈ db.indexes) :
    ∃ t column, db.tables i.tableName = some t ∧ indexedColumn db i = .ok column ∧
      t.rids.Nodup ∧ ((db.trees i.name).map some).Perm
        (t.rows.map fun e => (asInt e.2 column).map fun key => (key,e.1)) := by
  obtain ⟨t,column,ht,hc,hperm⟩ := h.consistent.mirrors i hi
  exact ⟨t,column,ht,hc,h.consistent.rids _ t ht,hperm⟩

/-! A unique index on an empty table, then two rows. -/

def sampleStart : Database where
  tables name := if name = "t" then some ⟨[⟨"a",.int,none,false⟩],[]⟩ else none
  indexes := []
  trees _ := []
  failed := false

def sampleIndex : IndexMetadata := ⟨"i","t","a",4294967295,true⟩

def sampleIndexed : Database :=
  (@Statement.execute Empty false (.createIndex sampleIndex) sampleStart).2

def sampleRows : Statement Empty :=
  .insert "t" [(⟨⟨1,0⟩,0⟩,[.int 7]),(⟨⟨1,1⟩,1⟩,[.int 5])]

theorem Reached.run {s : Statement Query} (rids : List RID) (h : Reached Query db)
    (hs : (s.execute transaction db).1 = .ok rids) : Reached Query (s.execute transaction db).2 :=
  .step transaction s h (Prod.ext hs rfl)

theorem indexes_mirror_heap_sample :
    ∃ t column, (sampleRows.execute true sampleIndexed).2.tables "t" = some t ∧
      indexedColumn (sampleRows.execute true sampleIndexed).2 sampleIndex = .ok column ∧
      t.rids.Nodup ∧ (((sampleRows.execute true sampleIndexed).2.trees "i").map some).Perm
        (t.rows.map fun e => (asInt e.2 column).map fun key => (key,e.1)) := by
  have hstart : Reached Empty sampleStart := by
    refine .start rfl fun name t ht => ?_
    simp only [sampleStart] at ht
    split at ht
    · obtain rfl := Option.some.inj ht
      rfl
    · cases ht
  have hindexed : Reached Empty sampleIndexed :=
    hstart.run [] (by decide +kernel)
  have hrows : Reached Empty (sampleRows.execute true sampleIndexed).2 :=
    hindexed.run [⟨1,0⟩,⟨1,1⟩] (by decide +kernel)
  exact indexes_mirror_heap hrows (i := sampleIndex) (by decide +kernel)

end Execution
end OurSql
