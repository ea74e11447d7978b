import OurSql.Catalog.Schemas
import OurSql.Execution.Mirror

/-! `PRIMARY KEY` and `UNIQUE` beside the indexes: the marks of a schema are kept in the catalog
and read by no statement that writes rows, a unique index lets no value in twice. -/
namespace OurSql
namespace Execution

open Data Index Expression
open Catalog (IndexMetadata)

variable {Query : Type} {transaction : Bool} {db db' : Database} {table : String} {t t' : Table}
  {row oldRow newRow : Row} {rid oldRid newRid : RID} {i : IndexMetadata} {column : ℕ}
  {tree tree' : Tree} {place : Place} {rows : List Row}

/-! ### What the checks of a unique index have seen -/

theorem prepare_clash {clash : IndexMetadata → List Key → Bool} :
    ∀ {is : List IndexMetadata} {prepared : List (String × List Key)},
      prepare db rows clash is = .ok prepared →
      ∀ i ∈ is, ∃ keys, keysOf db i rows = .ok keys ∧ clash i keys = false
  | [], _, _ => fun _ hi => absurd hi List.not_mem_nil
  | j::is, prepared, h => by
    rw [prepare] at h
    split at h
    · simp at h
    · simp at h
    · next keys hk =>
      split at h
      · simp at h
      · next hclash =>
        split at h
        · next rest hr =>
          intro i hi
          rcases List.mem_cons.mp hi with rfl | hi
          · exact ⟨keys,hk,eq_false_of_ne_true hclash⟩
          · exact prepare_clash hr i hi
        · simp at h
        · simp at h

theorem maintain_clash {clash : IndexMetadata → List Key → Bool}
    {apply undo : String × List Key → Database → Status × Database} {keys : List Key}
    (h : maintain transaction rows clash apply undo table db = (.ok (),db'))
    (hi : i ∈ db.indexes) (ht : i.tableName = table) (hc : indexedColumn db i = .ok column)
    (hk : (rows.mapM fun row => asInt row column) = some keys) : clash i keys = false := by
  rw [maintain] at h
  split at h
  · simp at h
  · simp at h
  · next prepared hp =>
    obtain ⟨keys',hkeys,hclash⟩ :=
      prepare_clash hp i (List.mem_filter.mpr ⟨hi,by simpa using ht⟩)
    obtain ⟨-,column',hc',hk'⟩ := keysOf_ok hkeys
    rw [hc,Except.ok.injEq] at hc'
    subst hc'
    rw [hk,Option.some.injEq] at hk'
    rwa [hk']

theorem mem_getValue {key : Key} : rid ∈ tree.getValue key ↔ (key,rid) ∈ tree := by
  simp only [Tree.getValue,List.mem_map,List.mem_filter,decide_eq_true_eq]
  constructor
  · rintro ⟨e,⟨he,rfl⟩,rfl⟩
    exact he
  · exact fun he => ⟨(key,rid),⟨he,rfl⟩,rfl⟩

/-- No two pairs of a tree have one key. -/
def KeysNodup (tree : Tree) : Prop := (tree.map Prod.fst).Nodup

theorem keysNodup_insert {key : Key} (h : KeysNodup tree) (hnew : tree.getValue key = [])
    (hp : tree'.Perm ((key,rid)::tree)) : KeysNodup tree' := by
  refine ((hp.map Prod.fst).nodup_iff).mpr (List.nodup_cons.mpr ⟨fun hm => ?_,h⟩)
  obtain ⟨e,he,rfl⟩ := List.mem_map.mp hm
  have hmem := mem_getValue.mpr he
  rw [hnew] at hmem
  cases hmem

theorem keysNodup_delete {e : Entry} (h : KeysNodup tree) (hp : (e::tree').Perm tree) :
    KeysNodup tree' :=
  (List.nodup_cons.mp (((hp.map Prod.fst).nodup_iff).mpr h)).2

/-- Only the row itself had the new key, and it has given up its pair. -/
theorem keysNodup_replace {oldKey newKey : Key} (h : KeysNodup tree)
    (hrids : (tree.map Prod.snd).Nodup) (hnew : ∀ r ∈ tree.getValue newKey, r = oldRid)
    (hp : ((oldKey,oldRid)::tree').Perm ((newKey,newRid)::tree)) : KeysNodup tree' := by
  by_cases hsame : (oldKey,oldRid) = (newKey,newRid)
  · rw [hsame] at hp
    exact ((hp.cons_inv.map Prod.fst).nodup_iff).mpr h
  have hold : (oldKey,oldRid) ∈ tree := by
    rcases List.mem_cons.mp (hp.subset List.mem_cons_self) with he | he
    · exact absurd he hsame
    · exact he
  obtain ⟨rest,hrest⟩ : ∃ rest, tree.Perm ((oldKey,oldRid)::rest) :=
    ⟨_,List.perm_cons_erase hold⟩
  have htree' : tree'.Perm ((newKey,newRid)::rest) :=
    (hp.trans ((hrest.cons _).trans (List.Perm.swap ..))).cons_inv
  obtain ⟨-,hkeys⟩ := List.nodup_cons.mp (((hrest.map Prod.fst).nodup_iff).mp h)
  obtain ⟨hrid,-⟩ := List.nodup_cons.mp (((hrest.map Prod.snd).nodup_iff).mp hrids)
  refine ((htree'.map Prod.fst).nodup_iff).mpr (List.nodup_cons.mpr ⟨fun hm => ?_,hkeys⟩)
  obtain ⟨e,he,hkey⟩ := List.mem_map.mp hm
  obtain ⟨k,r⟩ := e
  obtain rfl : k = newKey := hkey
  have hr := hnew r (mem_getValue.mpr (hrest.symm.subset (List.mem_cons_of_mem _ he)))
  exact hrid (List.mem_map.mpr ⟨_,he,hr⟩)

/-! ### Unique indexes along the statements -/

/-- No unique index holds a key twice. -/
def Distinct (db : Database) : Prop :=
  ∀ i ∈ db.indexes, i.isUnique = true → KeysNodup (db.trees i.name)

theorem pairOf_eq_some {column : ℕ} {e : RID × Row} {p : Entry} (h : pairOf column e = some p) :
    asInt e.2 column = some p.1 ∧ p.2 = e.1 := by
  obtain ⟨key,hk,rfl⟩ := Option.map_eq_some_iff.mp h
  exact ⟨hk,rfl⟩

/-- Every live row has a pair. -/
theorem pairOf_isSome (hperm : (tree.map some).Perm (t.rows.map (pairOf column)))
    {e : RID × Row} (he : e ∈ t.rows) : ∃ p ∈ tree, pairOf column e = some p := by
  obtain ⟨p,hp,hpair⟩ := List.mem_map.mp (hperm.symm.subset (List.mem_map_of_mem he))
  exact ⟨p,hp,hpair.symm⟩

theorem map_pairOf {β : Type} (f : Entry → β) (g : RID × Row → β)
    (hperm : (tree.map some).Perm (t.rows.map (pairOf column)))
    (hg : ∀ e p, pairOf column e = some p → f p = g e) :
    (tree.map f).Perm (t.rows.map g) := by
  have hmap := hperm.map (Option.map f)
  rw [List.map_map,List.map_map] at hmap
  have hrows : t.rows.map (Option.map f ∘ pairOf column) = (t.rows.map g).map some := by
    rw [List.map_map]
    refine List.map_congr_left fun e he => ?_
    obtain ⟨p,-,hp⟩ := pairOf_isSome hperm he
    simp [hp,hg e p hp]
  have htree : tree.map (Option.map f ∘ some) = (tree.map f).map some := by
    rw [List.map_map]
    rfl
  rw [hrows,htree] at hmap
  exact (List.map_perm_map_iff (Option.some_injective β)).mp hmap

theorem Consistent.rids_nodup (h : Consistent db) (hi : i ∈ db.indexes) :
    ((db.trees i.name).map Prod.snd).Nodup := by
  obtain ⟨t,column,ht,-,hperm⟩ := h.mirrors i hi
  have hsnd := map_pairOf Prod.snd Prod.fst hperm fun _ _ hp => (pairOf_eq_some hp).2
  exact hsnd.nodup_iff.mpr (h.rids _ t ht)

/-- A maintenance call that keeps the unique indexes of its table keeps them all. -/
theorem Distinct.maintained {gone come : List Key → List Entry} (hd : Distinct db)
    (hm : Maintained gone come rows table db db')
    (ht : ∀ i ∈ db.indexes, i.tableName = table → i.isUnique = true →
      KeysNodup (db'.trees i.name)) : Distinct db' := by
  intro i hi hu
  rw [hm.indexes] at hi
  by_cases hn : i.tableName = table
  · exact ht i hi hn hu
  · rw [hm.others i hi hn]
    exact hd i hi hu

theorem fillTree_keysNodup : ∀ {rows : List (RID × Row)} {tree tree' : Tree},
    KeysNodup tree → fillTree true column tree rows = .ok tree' → KeysNodup tree'
  | [], tree, tree', hn, h => by
    obtain rfl := Outcome.ok.inj h
    exact hn
  | (rid,row)::rest, tree, tree', hn, h => by
    rw [fillTree] at h
    split at h
    · simp at h
    · next key hk =>
      split at h
      · simp at h
      next hfree =>
      split at h
      · simp at h
      · next tree₁ ht =>
        have hnew : tree.getValue key = [] := by simpa using hfree
        exact fillTree_keysNodup (keysNodup_insert hn hnew (Tree.insert_ok ht)) h

theorem createIndex_distinct (hd : Distinct db) (h : createIndex i db = (.ok (),db')) :
    Distinct db' := by
  rw [createIndex] at h
  split at h
  · simp at h
  next hnew =>
  split at h
  · simp at h
  split at h
  · simp at h
  split at h
  · simp at h
  · simp at h
  next tree hfill =>
  split at h
  · simp at h
  obtain rfl := (Prod.mk.inj h).2
  intro j hj hu
  rcases List.mem_cons.mp ((List.perm_orderedInsert _ i db.indexes).mem_iff.mp hj) with rfl | hj
  · simp only [Database.setTree,Function.update_self]
    rw [hu] at hfill
    have hnil : KeysNodup [] := List.nodup_nil
    exact fillTree_keysNodup hnil hfill
  · have hname : j.name ≠ i.name := fun he =>
      hnew (List.any_eq_true.mpr ⟨j,hj,by simpa using he⟩)
    simp only [Database.setTree,Function.update_of_ne hname]
    exact hd j hj hu

theorem survives_distinct : Survives Distinct where
  insert := by
    intro transaction db db' table t t' place row rid hc hd ht hi ho
    have hn : Named (db.setTable table t') := hc.names
    have hm := onInsert_ok hn ho
    have hd : Distinct (db.setTable table t') := hd
    refine hd.maintained hm fun i hi hn hu => ?_
    obtain ⟨column,keys,hcol,hk,htree⟩ := hm.trees i hi hn
    have hclash := maintain_clash ho hi hn hcol hk
    obtain ⟨key,hkey,rfl⟩ := mapM_one hk
    have hfree : ((db.setTable table t').trees i.name).getValue key = [] := by
      simpa [hu] using hclash
    exact keysNodup_insert (hd i hi hu) hfree htree
  delete := by
    intro transaction db db' table t t' row rid hc hd ht hrow ho hdel
    have hm := onDelete_ok hc.names ho
    have hdistinct : Distinct db' := by
      refine hd.maintained hm fun i hi hn hu => ?_
      obtain ⟨column,keys,-,-,htree⟩ := hm.trees i hi hn
      exact keysNodup_delete (hd i hi hu) htree
    exact hdistinct
  replace := by
    intro transaction db db' table t t₁ t' place oldRow newRow oldRid newRid hc hd ht hrow hi ho
      hdel
    have hn : Named (db.setTable table t₁) := hc.names
    have hm := onUpdate_ok hn ho
    have hd : Distinct (db.setTable table t₁) := hd
    have hdistinct : Distinct db' := by
      refine hd.maintained hm fun i hi hn hu => ?_
      obtain ⟨column,keys,hcol,hk,htree⟩ := hm.trees i hi hn
      have hclash := maintain_clash ho hi hn hcol hk
      obtain ⟨oldKey,newKey,-,-,rfl⟩ := mapM_two hk
      have hfree : ∀ r ∈ ((db.setTable table t₁).trees i.name).getValue newKey, r = oldRid := by
        simpa [hu] using hclash
      exact keysNodup_replace (hd i hi hu) (hc.rids_nodup hi) hfree htree
    exact hdistinct
  createIndex := fun _ hd h => createIndex_distinct hd h

/-! ### Runs with CREATE TABLE -/

/-- A column as the rows see it. -/
def dataColumn (c : Catalog.Column) : Column where
  name := c.name
  type := match c.type with
    | .int => .int
    | .varchar => .varchar
  length := c.length
  nullable := c.nullable

/-- The catalog with the marks of its columns, and the tables with their rows. -/
structure Catalogued where
  declared : Catalog.Schemas.Tables
  db : Database

/-- Successful statements from an empty database on. -/
inductive Declared (Query : Type) : Catalogued → Prop
  | empty (failed : Bool) :
    Declared Query ⟨fun _ => none,⟨fun _ => none,[],fun _ => [],failed⟩⟩
  | createTable {s : Catalogued} {declared : Catalog.Schemas.Tables}
    {stored : Catalog.Schemas.Stored} {p : Catalog.Schemas.Position} {name : String}
    {schema : List Catalog.Column} : Declared Query s →
    Catalog.Schemas.execute stored p (.createTable name schema) s.declared = (.ok (),declared) →
    Declared Query ⟨declared,s.db.setTable name ⟨schema.map dataColumn,[]⟩⟩
  | statement {s : Catalogued} {db : Database} {rids : List RID} (transaction : Bool)
    (q : Statement Query) : Declared Query s → q.execute transaction s.db = (.ok rids,db) →
    Declared Query ⟨s.declared,db⟩

/-- The tables have the columns that the catalog says. -/
def HasSchemas (declared : Catalog.Schemas.Tables) (db : Database) : Prop :=
  ∀ name, (db.tables name).map Table.schema = (declared name).map (List.map dataColumn)

theorem hasSchemas_setTable {declared : Catalog.Schemas.Tables} (h : HasSchemas declared db)
    (ht : db.tables table = some t) (hs : t'.schema = t.schema) :
    HasSchemas declared (db.setTable table t') := by
  intro name
  rw [← h name]
  by_cases hn : name = table
  · rw [hn,setTable_at,ht,Option.map_some,Option.map_some,hs]
  · rw [setTable_of_ne hn]

theorem hasSchemas_congr {declared : Catalog.Schemas.Tables} (h : HasSchemas declared db)
    (ht : db'.tables = db.tables) : HasSchemas declared db' := by
  intro name
  rw [ht,h name]

theorem createIndex_tables (h : createIndex i db = (.ok (),db')) : db'.tables = db.tables := by
  rw [createIndex] at h
  split at h
  · simp at h
  split at h
  · simp at h
  split at h
  · simp at h
  split at h
  · simp at h
  · simp at h
  split at h
  · simp at h
  obtain rfl := (Prod.mk.inj h).2
  rfl

theorem survives_hasSchemas (declared : Catalog.Schemas.Tables) :
    Survives (HasSchemas declared) where
  insert := by
    intro transaction db db' table t t' place row rid hc hd ht hi ho
    have hn : Named (db.setTable table t') := hc.names
    have hs := hasSchemas_setTable hd ht (Table.insertRow_ok hi).2.1
    exact hasSchemas_congr hs (onInsert_ok hn ho).tables
  delete := by
    intro transaction db db' table t t' row rid hc hd ht hrow ho hdel
    have htables := (onDelete_ok hc.names ho).tables
    refine hasSchemas_setTable (hasSchemas_congr hd htables) (htables ▸ ht) ?_
    exact (Table.deleteRow_ok (hc.rids table t ht) hrow hdel).1
  replace := by
    intro transaction db db' table t t₁ t' place oldRow newRow oldRid newRid hc hd ht hrow hi ho
      hdel
    have hn : Named (db.setTable table t₁) := hc.names
    obtain ⟨hfresh,hs₁,hrows₁⟩ := Table.insertRow_ok hi
    have hn₁ : t₁.rids.Nodup := by
      rw [rids_perm hrows₁,List.map_cons,List.nodup_cons]
      exact ⟨hfresh,hc.rids table t ht⟩
    have hrow₁ := hrows₁.mem_iff.mpr (List.mem_cons_of_mem _ hrow)
    have htables := (onUpdate_ok hn ho).tables
    refine hasSchemas_setTable (hasSchemas_congr (hasSchemas_setTable hd ht hs₁) htables)
      (t := t₁) ?_ (Table.deleteRow_ok hn₁ hrow₁ hdel).1
    rw [htables,setTable_at]
  createIndex := fun _ hd h => hasSchemas_congr hd (createIndex_tables h)

theorem Survives.and {P Q : Database → Prop} (hP : Survives P) (hQ : Survives Q) :
    Survives fun db => P db ∧ Q db where
  insert := fun hc h ht hi ho => ⟨hP.insert hc h.1 ht hi ho,hQ.insert hc h.2 ht hi ho⟩
  delete := fun hc h ht hr ho hd => ⟨hP.delete hc h.1 ht hr ho hd,hQ.delete hc h.2 ht hr ho hd⟩
  replace := fun hc h ht hr hi ho hd =>
    ⟨hP.replace hc h.1 ht hr hi ho hd,hQ.replace hc h.2 ht hr hi ho hd⟩
  createIndex := fun hc h hi => ⟨hP.createIndex hc h.1 hi,hQ.createIndex hc h.2 hi⟩

/-- A new table has a new name. -/
theorem execute_createTable {declared declared' : Catalog.Schemas.Tables}
    {stored : Catalog.Schemas.Stored} {p : Catalog.Schemas.Position} {name : String}
    {schema : List Catalog.Column}
    (h : Catalog.Schemas.execute stored p (.createTable name schema) declared =
      (.ok (),declared')) :
    declared name = none ∧ declared' = Function.update declared name (some schema) := by
  unfold Catalog.Schemas.execute at h
  split at h
  · simp [Catalog.Schemas.failAt] at h
  next hplan =>
  dsimp only at h
  split at h
  · simp at h
  next hcreate =>
  obtain rfl := (Prod.mk.inj h).2
  refine ⟨?_,Catalog.Schemas.createTable_ok hcreate⟩
  unfold Catalog.Schemas.plan at hplan
  dsimp only at hplan
  split at hplan
  · simp at hplan
  · exact Option.not_isSome_iff_eq_none.mp (ite_fail_eq_ok.mp hplan).1

theorem Consistent.newTable (h : Consistent db) (hnew : db.tables table = none)
    (ht : t.rows = []) : Consistent (db.setTable table t) where
  names := h.names
  rids := by
    intro name t₁ h₁
    by_cases hn : name = table
    · rw [hn,setTable_at] at h₁
      obtain rfl := Option.some.inj h₁
      rw [Table.rids,ht]
      exact List.nodup_nil
    · rw [setTable_of_ne hn] at h₁
      exact h.rids name t₁ h₁
  mirrors := by
    intro i hi
    obtain ⟨t₁,column,h₁,hc,hperm⟩ := h.mirrors i hi
    have hn : i.tableName ≠ table := fun he => by simp [he,hnew] at h₁
    refine ⟨t₁,column,by rw [setTable_of_ne hn,h₁],?_,hperm⟩
    rw [← hc,indexedColumn,indexedColumn,setTable_of_ne hn]

/-- Along every run. -/
theorem Declared.invariant {s : Catalogued} (h : Declared Query s) :
    Consistent s.db ∧ Distinct s.db ∧ HasSchemas s.declared s.db := by
  induction h with
  | empty failed =>
    refine ⟨⟨List.nodup_nil,?_,?_⟩,?_,fun _ => rfl⟩
    · intro table t ht
      cases ht
    · intro i hi
      cases hi
    · intro i hi
      cases hi
  | @createTable s declared stored p name schema _ he ih =>
    obtain ⟨hc,hd,hs⟩ := ih
    obtain ⟨hnew,rfl⟩ := execute_createTable he
    have hnone : s.db.tables name = none := by
      have hmap := hs name
      rw [hnew] at hmap
      exact Option.map_eq_none_iff.mp hmap
    refine ⟨hc.newTable hnone rfl,hd,fun n => ?_⟩
    by_cases hn : n = name
    · simp [hn]
    · dsimp only
      rw [setTable_of_ne hn,Function.update_of_ne hn]
      exact hs n
  | @statement s db rids transaction q _ he ih =>
    obtain ⟨hc,hd,hs⟩ := ih
    exact q.survives (survives_distinct.and (survives_hasSchemas s.declared)) hc ⟨hd,hs⟩ he

/-- `AsInt` of a value that a row may have. -/
def keyOf : Option Value → Option Key
  | some (.int n) => some n.toInt
  | _ => none

theorem Declared.run {s : Catalogued} {q : Statement Query} (rids : List RID)
    (h : Declared Query s) (hq : (q.execute transaction s.db).1 = .ok rids) :
    Declared Query ⟨s.declared,(q.execute transaction s.db).2⟩ :=
  .statement transaction q h (Prod.ext hq rfl)

/-! A table with a primary key, an index on it, and a row; then the row again without it. -/

def keyedColumn : Catalog.Column := ⟨"a",.int,none,false,true,true,none⟩

def keyedDeclared : Catalog.Schemas.Tables :=
  (Catalog.Schemas.execute {} ⟨1,1⟩ (.createTable "t" [keyedColumn]) fun _ => none).2

def keyedStart : Catalogued :=
  ⟨keyedDeclared,Database.setTable ⟨fun _ => none,[],fun _ => [],false⟩ "t"
    ⟨[keyedColumn].map dataColumn,[]⟩⟩

def keyedIndex : IndexMetadata := ⟨"i","t","a",4294967295,true⟩

def keyedIndexed : Catalogued :=
  ⟨keyedDeclared,(@Statement.execute Empty false (.createIndex keyedIndex) keyedStart.db).2⟩

def keyedTwice : Statement Empty :=
  .insert "t" [(⟨⟨1,0⟩,0⟩,[.int 1]),(⟨⟨1,1⟩,1⟩,[.int 1])]

theorem keyedStart_declared : Declared Empty keyedStart := by
  have hcreate : Catalog.Schemas.execute {} ⟨1,1⟩ (.createTable "t" [keyedColumn]) (fun _ => none)
      = (.ok (),keyedDeclared) := Prod.ext (by decide +kernel) rfl
  exact .createTable (.empty false) hcreate

end Execution
end OurSql
