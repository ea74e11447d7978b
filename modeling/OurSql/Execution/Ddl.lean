import OurSql.Catalog.RawCodec
import OurSql.Execution.Keys

/-! `DROP TABLE` and `ALTER TABLE`, one call of the storage after the other: any of them may fail,
and what the calls before it have done stays done. -/
namespace OurSql
namespace Execution
namespace Ddl

open Data
open Catalog (IndexMetadata)
open Catalog.Schemas (AlterTableAction Tables)

/-- The schemas of the catalog, the tables and their indexes. The pages of a `released` table are on
their way to the free list; `calls` counts the calls that may fail. -/
structure Store where
  declared : Tables
  db : Database
  released : String → Bool
  calls : ℕ

/-- What the pages answer to the call of a number: its failure, the room for a row, whether a row is
in its page although the call has failed, and the root of a new tree. -/
structure Environment where
  faults : ℕ → Option Failure
  places : ℕ → Place
  written : ℕ → Bool
  roots : ℕ → PageId
  unreadable : Failure

/-- A step that fails keeps the store as it has made it. -/
def DdlM (α : Type) := Store → Outcome α × Store

variable {α β : Type} {env : Environment} {s s' s₁ : Store} {e : Failure} {table name : String}

instance : Monad DdlM where
  pure a := fun s => (.ok a,s)
  bind x f := fun s => match x s with
    | (.ok a,s) => f a s
    | (.error e,s) => (.error e,s)
    | (.throws,s) => (.throws,s)

namespace DdlM

def result (r : Result α) : DdlM α := fun s => (.ofResult r,s)

def read (f : Store → α) : DdlM α := fun s => (.ok (f s),s)

def modify (f : Store → Store) : DdlM Unit := fun s => (.ok (),f s)

/-- The context that a caller puts in front of an error. -/
def within (layer : String) (x : DdlM α) : DdlM α := fun s => match x s with
  | (.error e,s) => (.error (contextualize layer e),s)
  | r => r

end DdlM

open DdlM

section steps

variable (env : Environment)

/-- A call of the storage below, or several of which the first failure counts. -/
def call : DdlM Unit := fun s => match env.faults s.calls with
  | none => (.ok (),{ s with calls := s.calls + 1 })
  | some e => (.error e,{ s with calls := s.calls + 1 })

/-! ### The catalog -/

/-- `Catalog::GetTableMetadataCopy`. -/
def getTableMetadata (table : String) : DdlM (List Catalog.Column) := fun s =>
  match s.declared table with
  | none => (.error ⟨.notFound,"Catalog 未找到表: " ++ table⟩,s)
  | some schema => (.ok schema,s)

/-- `Catalog::CreateTable`. -/
def createCatalogTable (name : String) (schema : List Catalog.Column) : DdlM Unit := do
  let declared ← read Store.declared
  result (Catalog.Schemas.createTable (.ok ()) name schema declared).1
  call env
  modify fun s => { s with
    declared := Function.update s.declared name (some schema)
    db := s.db.setTable name ⟨schema.map dataColumn,[]⟩
    released := Function.update s.released name false }

/-- `Catalog::DropTable`: the record of the table goes, or nothing does. -/
def dropCatalogTable (table : String) : DdlM Unit := do
  let _ ← getTableMetadata table
  let indexes ← read fun s => s.db.listTableIndexes table
  result (if indexes ≠ [] then
    fail .invalidArgument "删除表元数据前必须先删除该表的全部索引" else .ok ())
  call env
  modify fun s => { s with
    declared := Function.update s.declared table none
    db := { s.db with tables := Function.update s.db.tables table none } }

/-! ### Indexes -/

/-- The catalog without the indexes of some names. -/
def without (db : Database) (names : List String) : Database :=
  { db with indexes := db.indexes.filter fun i => i.name ∉ names }

/-- `IndexManager::DropIndex`: the metadata first, then the pages, which nothing leads to now. -/
def dropIndex (name : String) : DdlM Unit := do
  let db ← read Store.db
  let _ ← result (db.findIndex name)
  call env
  modify fun s => { s with db := without s.db [name] }
  call env

def dropIndexes : List IndexMetadata → DdlM Unit
  | [] => pure ()
  | i::is => do
    dropIndex env i.name
    dropIndexes is

/-- `IndexManager::CreateIndex`. -/
def createIndex (name table columnName : String) (isUnique : Bool) : DdlM Unit := do
  let n ← read Store.calls
  call env
  fun s =>
    let (outcome,db) := Execution.createIndex ⟨name,table,columnName,env.roots n,isUnique⟩ s.db
    (outcome,{ s with db := db })

def createIndexes (table : String) : List IndexMetadata → DdlM Unit
  | [] => pure ()
  | i::is => do
    createIndex env i.name table i.columnName i.isUnique
    createIndexes table is

/-! ### Rows -/

/-- The pages of the table can be walked. -/
def reachable (table : String) : DdlM Unit := do
  let released ← read fun s => s.released table
  result (if released then .error env.unreadable else .ok ())

/-- `HeapTable::Scan`. -/
def scan (table : String) : DdlM (List Row) := do
  reachable env table
  call env
  read fun s => (s.db.tables table).elim [] fun t => t.rows.map Prod.snd

/-- `HeapTable::Destroy`: the first call walks the chain and reserves its pages, the second one
frees them. -/
def destroyHeap (table : String) : DdlM Unit := do
  reachable env table
  call env
  modify fun s => { s with released := Function.update s.released table true }
  call env

/-- `HeapTable::InsertRow` into a table of the catalog. -/
def insertRow (table : String) (row : Row) : DdlM Unit := fun s =>
  match s.db.tables table with
  | none => (.error ⟨.notFound,"Catalog 未找到表: " ++ table⟩,s)
  | some t =>
    match t.insertRow (env.places s.calls) row with
    | .error e => (.error e,s)
    | .ok (_,t') =>
      let stored := { s with db := s.db.setTable table t' }
      match env.faults s.calls with
      | none => (.ok (),{ stored with calls := s.calls + 1 })
      | some e =>
        if env.written s.calls then (.error e,{ stored with calls := s.calls + 1 })
        else (.error e,{ s with calls := s.calls + 1 })

def insertRows (table : String) : List Row → DdlM Unit
  | [] => pure ()
  | row::rows => do
    insertRow env table row
    insertRows table rows

/-! ### Statements -/

/-- `DropTablePlan`. -/
def dropTable (table : String) : DdlM Unit := do
  let _ ← getTableMetadata table
  let indexes ← read fun s => s.db.listTableIndexes table
  within "DropTableExecutor" (dropIndexes env indexes)
  within "DropTableExecutor" (destroyHeap env table)
  within "DropTableExecutor" (dropCatalogTable env table)

/-- `remove` of `AlterTableExecutor`. -/
def remove (table : String) : DdlM Unit := do
  let indexes ← read fun s => s.db.listTableIndexes table
  dropIndexes env indexes
  let _ ← getTableMetadata table
  destroyHeap env table
  dropCatalogTable env table

/-- `install` of `AlterTableExecutor`. -/
def install (name : String) (schema : List Catalog.Column) (rows : List Row)
    (indexes : List IndexMetadata) : DdlM Unit := do
  createCatalogTable env name schema
  let _ ← getTableMetadata name
  insertRows env name rows
  createIndexes env name indexes

/-- A column to be renamed is there. -/
def checkColumn (schema : List Catalog.Column) : AlterTableAction → Status
  | .renameColumn columnName _ =>
    if Catalog.Schemas.hasColumn schema columnName then .ok ()
    else fail .notFound ("Schema 未找到列: " ++ columnName)
  | _ => .ok ()

/-- A new column has the value of the statement in every row, its own default, or NULL. -/
def replacementRows (rows : List Row) : AlterTableAction → List Row
  | .addColumn column defaultValue =>
    let fill := (defaultValue <|> column.defaultValue).getD .null
    rows.map fun row => row ++ [Catalog.Raw.ofValue fill]
  | _ => rows

def replacementIndex (name : String) (action : AlterTableAction) (i : IndexMetadata) :
    IndexMetadata :=
  { i with
    tableName := name
    columnName := match action with
      | .renameColumn columnName newName =>
        if i.columnName = columnName then newName else i.columnName
      | _ => i.columnName
    rootPageId := invalidPageId }

/-- All new rows are encoded before the old table goes. -/
def encodeRows (schema : Schema) : List Row → Status
  | [] => .ok ()
  | row::rows =>
    match RowCodec.encode schema row with
    | .error e => .error e
    | .ok _ => encodeRows schema rows

/-- What follows on an installation that has failed: the old table comes back. -/
def restore (transaction : Bool) (name newName : String) (schema : List Catalog.Column)
    (rows : List Row) (indexes : List IndexMetadata) (e : Failure) : DdlM ℕ := fun s =>
  let s := if (s.declared newName).isSome then (remove env newName s).2 else s
  match install env name schema rows indexes s with
  | (.ok (),s) => (.error (contextualize "AlterTableExecutor" e),
      { s with db := s.db.mark transaction })
  | (.error e',s) => (.error ⟨.ioError,"AlterTableExecutor: " ++ e.message ++
      "; 恢复旧表也失败: " ++ e'.message⟩,{ s with db := s.db.mark transaction })
  | (.throws,s) => (.throws,s)

/-- The old table goes, and the new one comes. -/
def replaceTable (transaction : Bool) (table newName : String)
    (schema newSchema : List Catalog.Column) (rows newRows : List Row)
    (indexes newIndexes : List IndexMetadata) : DdlM ℕ := fun s =>
  match remove env table s with
  | (.error e,s) => (.error (contextualize "AlterTableExecutor" e),
      { s with db := s.db.mark transaction })
  | (.throws,s) => (.throws,s)
  | (.ok (),s) =>
    match install env newName newSchema newRows newIndexes s with
    | (.ok (),s) => (.ok newRows.length,s)
    | (.throws,s) => (.throws,s)
    | (.error e,s) => restore env transaction table newName schema rows indexes e s

/-- `AlterTableExecutor::Execute`. -/
def alterTable (transaction : Bool) (table : String) (action : AlterTableAction) : DdlM ℕ := do
  let schema ← within "AlterTableExecutor" (getTableMetadata table)
  let rows ← within "AlterTableExecutor" (scan env table)
  result (checkColumn schema action)
  let replacement := Catalog.Schemas.replacement table schema action
  let newRows := replacementRows rows action
  result (encodeRows (replacement.2.map dataColumn) newRows)
  let indexes ← read fun s => s.db.listTableIndexes table
  replaceTable env transaction table replacement.1 schema replacement.2 rows newRows indexes
    (indexes.map (replacementIndex replacement.1 action))

end steps

/-! ### Runs of steps -/

section runs

variable {x : DdlM α} {f : α → DdlM β} {a : α} {b : β} {g : Store → α} {u : Store → Store}
  {k : Unit → DdlM β} {h : α → DdlM β} {layer : String}

theorem bind_of_ok (hx : x s = (.ok a,s₁)) : (x >>= f) s = f a s₁ := by
  simp only [Bind.bind,hx]

theorem bind_of_error (hx : x s = (.error e,s₁)) : (x >>= f) s = (.error e,s₁) := by
  simp only [Bind.bind,hx]

@[simp] theorem read_bind : (read g >>= h) s = h (g s) s := rfl

@[simp] theorem modify_bind : (modify u >>= k) s = k () (u s) := rfl

@[simp] theorem pure_bind : ((pure a : DdlM α) >>= h) s = h a s := rfl

theorem bind_eq_ok :
    (x >>= f) s = (.ok b,s') ↔ ∃ a s₁, x s = (.ok a,s₁) ∧ f a s₁ = (.ok b,s') := by
  simp only [Bind.bind]
  cases hx : x s with
  | mk outcome s₁ => cases outcome <;> simp

theorem bind_eq_error : (x >>= f) s = (.error e,s') ↔
    x s = (.error e,s') ∨ ∃ a s₁, x s = (.ok a,s₁) ∧ f a s₁ = (.error e,s') := by
  simp only [Bind.bind]
  cases hx : x s with
  | mk outcome s₁ => cases outcome <;> simp

theorem within_of_ok (hx : x s = (.ok a,s₁)) : within layer x s = (.ok a,s₁) := by
  simp only [within,hx]

theorem within_of_error (hx : x s = (.error e,s₁)) :
    within layer x s = (.error (contextualize layer e),s₁) := by
  simp only [within,hx]

end runs

/-! ### The first call that fails -/

/-- None of the next `n` calls fails. -/
def Quiet (env : Environment) (start n : ℕ) : Prop := ∀ k < n, env.faults (start + k) = none

/-- Of the next calls the first one to fail is number `n`, counted from 0. -/
def Stops (env : Environment) (start n : ℕ) (e : Failure) : Prop :=
  Quiet env start n ∧ env.faults (start + n) = some e

variable {start n m : ℕ} {is : List IndexMetadata} {db : Database}

theorem quiet_or_stops (env : Environment) (start m : ℕ) :
    Quiet env start m ∨ ∃ n e, n < m ∧ Stops env start n e := by
  induction m with
  | zero => exact .inl fun k hk => absurd hk (Nat.not_lt_zero k)
  | succ m ih =>
    rcases ih with hquiet | ⟨n,e,hn,hs⟩
    · cases hf : env.faults (start + m) with
      | none =>
        refine .inl fun k hk => ?_
        rcases Nat.lt_succ_iff_lt_or_eq.mp hk with hk | rfl
        · exact hquiet k hk
        · exact hf
      | some e => exact .inr ⟨m,e,Nat.lt_succ_self m,hquiet,hf⟩
    · exact .inr ⟨n,e,Nat.lt_succ_of_lt hn,hs⟩

theorem Quiet.next (h : Quiet env start (n + m)) : Quiet env (start + n) m := by
  intro k hk
  rw [Nat.add_assoc]
  exact h (n + k) (by omega)

theorem Quiet.mono (h : Quiet env start n) (hm : m ≤ n) : Quiet env start m :=
  fun k hk => h k (Nat.lt_of_lt_of_le hk hm)

theorem Quiet.head (h : Quiet env start n) (hn : 0 < n) : env.faults start = none := h 0 hn

theorem Stops.next (h : Stops env start (n + m) e) : Stops env (start + n) m e := by
  refine ⟨h.1.next,?_⟩
  rw [Nat.add_assoc]
  exact h.2

theorem call_of_none (h : env.faults s.calls = none) :
    call env s = (.ok (),{ s with calls := s.calls + 1 }) := by
  simp only [call,h]

theorem call_of_some (h : env.faults s.calls = some e) :
    call env s = (.error e,{ s with calls := s.calls + 1 }) := by
  simp only [call,h]

/-! ### Indexes that go -/

theorem without_nil (db : Database) : without db [] = db := by
  simp [without]

theorem without_cons (name : String) (names : List String) :
    without (without db [name]) names = without db (name::names) := by
  simp only [without,List.filter_filter,Database.mk.injEq,true_and,and_true]
  refine List.filter_congr fun i _ => ?_
  simp [Bool.and_comm]

/-- The store after the calls of a removal that has come to the index behind `names`. -/
def Store.lost (s : Store) (names : List String) (n : ℕ) : Store :=
  { s with db := without s.db names, calls := s.calls + n }

theorem findIndex_of_mem {i : IndexMetadata} (h : i ∈ db.indexes) :
    ∃ j, db.findIndex i.name = .ok j := by
  rw [Database.findIndex]
  cases hf : db.indexes.find? fun j => j.name = i.name with
  | none => exact absurd (List.find?_eq_none.mp hf i h) (by simp)
  | some j => exact ⟨j,rfl⟩

theorem dropIndex_first {j : IndexMetadata} (hi : s.db.findIndex name = .ok j)
    (hf : env.faults s.calls = some e) : dropIndex env name s = (.error e,s.lost [] 1) := by
  rw [dropIndex,read_bind,hi,bind_of_ok (show result (.ok j) s = (.ok j,s) from rfl),
    bind_of_error (call_of_some hf),Store.lost,without_nil]

/-- The index is gone whether its pages are freed or not. -/
theorem dropIndex_second {j : IndexMetadata} (hi : s.db.findIndex name = .ok j)
    (hf : env.faults s.calls = none) : dropIndex env name s = call env (s.lost [name] 1) := by
  rw [dropIndex,read_bind,hi,bind_of_ok (show result (.ok j) s = (.ok j,s) from rfl),
    bind_of_ok (call_of_none hf)]
  rfl

theorem lost_lost (names : List String) :
    (s.lost [name] n).lost names m = s.lost (name::names) (n + m) := by
  simp only [Store.lost,without_cons,Nat.add_assoc]

theorem found_lost {i : IndexMetadata} (hfound : ∀ j ∈ i::is, j ∈ s.db.indexes)
    (hn : ((i::is).map IndexMetadata.name).Nodup) :
    ∀ j ∈ is, j ∈ (s.lost [i.name] n).db.indexes := by
  intro j hj
  have hne : j.name ≠ i.name := by
    intro he
    exact (List.nodup_cons.mp hn).1 (he ▸ List.mem_map_of_mem hj)
  exact List.mem_filter.mpr ⟨hfound j (List.mem_cons_of_mem i hj),by simpa using hne⟩

theorem dropIndexes_quiet (hfound : ∀ i ∈ is, i ∈ s.db.indexes)
    (hn : (is.map IndexMetadata.name).Nodup) (hq : Quiet env s.calls (2 * is.length)) :
    dropIndexes env is s = (.ok (),s.lost (is.map IndexMetadata.name) (2 * is.length)) := by
  induction is generalizing s with
  | nil =>
    rw [List.map_nil,Store.lost,without_nil]
    rfl
  | cons i is ih =>
    obtain ⟨j,hj⟩ := findIndex_of_mem (hfound i List.mem_cons_self)
    rw [List.length_cons,Nat.mul_succ,Nat.add_comm] at hq
    have hfirst : dropIndex env i.name s = (.ok (),s.lost [i.name] 2) := by
      rw [dropIndex_second hj (hq.head (by omega)),call_of_none (hq 1 (by omega))]
      rfl
    rw [dropIndexes,bind_of_ok hfirst,
      ih (found_lost hfound hn) (List.nodup_cons.mp hn).2 hq.next,lost_lost,List.map_cons,
      List.length_cons,Nat.mul_succ,Nat.add_comm 2]

/-- Two calls an index, and it is gone with the first. -/
theorem dropIndexes_stops (hfound : ∀ i ∈ is, i ∈ s.db.indexes)
    (hn : (is.map IndexMetadata.name).Nodup) (hlt : n < 2 * is.length)
    (hs : Stops env s.calls n e) : dropIndexes env is s =
      (.error e,s.lost ((is.map IndexMetadata.name).take ((n + 1) / 2)) (n + 1)) := by
  induction is generalizing s n with
  | nil => exact absurd hlt (Nat.not_lt_zero n)
  | cons i is ih =>
    obtain ⟨j,hj⟩ := findIndex_of_mem (hfound i List.mem_cons_self)
    rw [dropIndexes]
    rcases n with _ | _ | n
    · exact bind_of_error (dropIndex_first hj hs.2)
    · have hnone := hs.1.head (by omega)
      refine bind_of_error ?_
      rw [dropIndex_second hj hnone,call_of_some hs.2]
      rfl
    · have hfirst : dropIndex env i.name s = (.ok (),s.lost [i.name] 2) := by
        rw [dropIndex_second hj (hs.1.head (by omega)),call_of_none (hs.1 1 (by omega))]
        rfl
      rw [Nat.add_comm n 2] at hs
      rw [List.length_cons] at hlt
      rw [bind_of_ok hfirst,
        ih (found_lost hfound hn) (List.nodup_cons.mp hn).2 (by omega) hs.next,lost_lost,
        show (n + 1 + 1 + 1) / 2 = (n + 1) / 2 + 1 by omega,List.map_cons,List.take_succ_cons,
        show 2 + (n + 1) = n + 1 + 1 + 1 by omega]

/-! ### Tables that go -/

/-- The names of the indexes of a table, in the order in which they go. -/
def indexNames (db : Database) (table : String) : List String :=
  (db.listTableIndexes table).map IndexMetadata.name

theorem indexNames_nodup (h : Named db) : (indexNames db table).Nodup :=
  h.sublist (List.filter_sublist.map _)

theorem listTableIndexes_without (h : Named db) (k : ℕ) :
    (without db ((indexNames db table).take k)).listTableIndexes table =
      (db.listTableIndexes table).drop k := by
  have hnames : (indexNames db table).Nodup := indexNames_nodup h
  rw [indexNames] at hnames ⊢
  have hfilter : (without db (((db.listTableIndexes table).map IndexMetadata.name).take k)
      ).listTableIndexes table = (db.listTableIndexes table).filter fun i =>
        i.name ∉ ((db.listTableIndexes table).map IndexMetadata.name).take k := by
    rw [Database.listTableIndexes,without,List.filter_filter,Database.listTableIndexes,
      List.filter_filter]
    exact List.filter_congr fun i _ => Bool.and_comm ..
  rw [hfilter]
  generalize db.listTableIndexes table = l at hnames ⊢
  have hsplit := List.take_append_drop k l
  rw [← hsplit,List.map_append,List.nodup_append] at hnames
  calc l.filter (fun i => i.name ∉ (l.map IndexMetadata.name).take k)
      = (l.take k ++ l.drop k).filter (fun i => i.name ∉ (l.map IndexMetadata.name).take k) := by
        rw [hsplit]
    _ = (l.take k).filter (fun i => i.name ∉ (l.map IndexMetadata.name).take k) ++
          (l.drop k).filter (fun i => i.name ∉ (l.map IndexMetadata.name).take k) :=
        List.filter_append ..
    _ = [] ++ l.drop k := by
        rw [← List.map_take]
        congr 1
        · refine List.filter_eq_nil_iff.mpr fun i hi => ?_
          have hm : i.name ∈ (l.take k).map IndexMetadata.name := List.mem_map_of_mem hi
          simpa using hm
        · refine List.filter_eq_self.mpr fun i hi => ?_
          refine decide_eq_true fun hm => ?_
          exact hnames.2.2 _ hm _ (List.mem_map_of_mem hi) rfl
    _ = l.drop k := List.nil_append _

theorem reachable_of (h : s.released table = false) : reachable env table s = (.ok (),s) := by
  rw [reachable,read_bind,h]
  rfl

theorem getTableMetadata_of {schema : List Catalog.Column} (h : s.declared table = some schema) :
    getTableMetadata table s = (.ok schema,s) := by
  simp only [getTableMetadata,h]

theorem destroyHeap_first (hr : s.released table = false) (hf : env.faults s.calls = some e) :
    destroyHeap env table s = (.error e,{ s with calls := s.calls + 1 }) := by
  rw [destroyHeap,bind_of_ok (reachable_of hr),bind_of_error (call_of_some hf)]

theorem destroyHeap_second (hr : s.released table = false) (hf : env.faults s.calls = none) :
    destroyHeap env table s = call env { s with
      released := Function.update s.released table true, calls := s.calls + 1 } := by
  rw [destroyHeap,bind_of_ok (reachable_of hr),bind_of_ok (call_of_none hf)]
  rfl

/-- A removal that stops at its call `n` has taken two calls for each index that is gone; from the
first call behind the indexes and the walk through the heap on, the pages go. -/
def Store.stopped (s : Store) (table : String) (n : ℕ) : Store :=
  { s with
    db := without s.db ((indexNames s.db table).take ((n + 1) / 2))
    released := if 2 * (s.db.listTableIndexes table).length < n then
      Function.update s.released table true else s.released
    calls := s.calls + (n + 1) }

def Store.removed (s : Store) (table : String) : Store :=
  { s with
    declared := Function.update s.declared table none
    db := { without s.db (indexNames s.db table) with
      tables := Function.update s.db.tables table none }
    released := Function.update s.released table true
    calls := s.calls + (2 * (s.db.listTableIndexes table).length + 3) }

theorem listed_found : ∀ i ∈ db.listTableIndexes table, i ∈ db.indexes :=
  fun _ hi => (List.mem_filter.mp hi).1

theorem take_indexNames (h : (db.listTableIndexes table).length ≤ n) :
    (indexNames db table).take n = indexNames db table :=
  List.take_of_length_le (by rwa [indexNames,List.length_map])

theorem listTableIndexes_none (hn : Named db) :
    (without db (indexNames db table)).listTableIndexes table = [] := by
  have hall := List.drop_length (l := db.listTableIndexes table)
  rwa [← listTableIndexes_without hn,take_indexNames (Nat.le_refl _)] at hall

/-- With the indexes gone only the record of the table is left. -/
theorem dropCatalogTable_last {schema : List Catalog.Column}
    (hd : s.declared table = some schema) (hnone : s.db.listTableIndexes table = []) :
    dropCatalogTable env table s = (call env >>= fun _ => DdlM.modify fun s => { s with
      declared := Function.update s.declared table none
      db := { s.db with tables := Function.update s.db.tables table none } }) s := by
  rw [dropCatalogTable,bind_of_ok (getTableMetadata_of hd),read_bind,hnone]
  rfl

section removal

variable {schema : List Catalog.Column} (hd : s.declared table = some schema)
  (hr : s.released table = false) (hn : Named s.db)
include hd hn

/-- The indexes are gone, the heap is next. -/
theorem remove_indexes (hq : Quiet env s.calls (2 * (s.db.listTableIndexes table).length)) :
    remove env table s = (destroyHeap env table >>= fun _ => dropCatalogTable env table)
      (s.lost (indexNames s.db table) (2 * (s.db.listTableIndexes table).length)) := by
  have hdrop := dropIndexes_quiet listed_found (indexNames_nodup hn) hq
  rw [remove,read_bind,bind_of_ok hdrop]
  exact bind_of_ok (getTableMetadata_of hd)

include hr

/-- The heap is gone, the record of the table is next. -/
theorem remove_heap (hq : Quiet env s.calls (2 * (s.db.listTableIndexes table).length + 2)) :
    remove env table s = (call env >>= fun _ => DdlM.modify fun s => { s with
      declared := Function.update s.declared table none
      db := { s.db with tables := Function.update s.db.tables table none } })
      { s.lost (indexNames s.db table) (2 * (s.db.listTableIndexes table).length + 2) with
        released := Function.update s.released table true } := by
  have hfirst := hq _ (Nat.lt_add_of_pos_right Nat.two_pos)
  have hsecond := hq (2 * (s.db.listTableIndexes table).length + 1) (by omega)
  have hgone : (s.lost (indexNames s.db table)
      (2 * (s.db.listTableIndexes table).length)).released table = false := hr
  rw [remove_indexes hd hn (hq.mono (Nat.le_add_right _ _)),
    bind_of_ok ((destroyHeap_second hgone hfirst).trans (call_of_none hsecond))]
  exact dropCatalogTable_last hd (listTableIndexes_none hn)

theorem remove_quiet (hq : Quiet env s.calls (2 * (s.db.listTableIndexes table).length + 3)) :
    remove env table s = (.ok (),s.removed table) := by
  have hlast := hq (2 * (s.db.listTableIndexes table).length + 2) (by omega)
  rw [remove_heap hd hr hn (hq.mono (by omega)),bind_of_ok (call_of_none hlast)]
  rfl

theorem remove_stops (hlt : n < 2 * (s.db.listTableIndexes table).length + 3)
    (hs : Stops env s.calls n e) : remove env table s = (.error e,s.stopped table n) := by
  obtain hindex | rfl | rfl | rfl : n < 2 * (s.db.listTableIndexes table).length ∨
      n = 2 * (s.db.listTableIndexes table).length ∨
      n = 2 * (s.db.listTableIndexes table).length + 1 ∨
      n = 2 * (s.db.listTableIndexes table).length + 2 := by omega
  · have hdrop := dropIndexes_stops listed_found (indexNames_nodup hn) hindex hs
    rw [remove,read_bind,bind_of_error hdrop,Store.stopped,if_neg (by omega)]
    rfl
  · have hgone : (s.lost (indexNames s.db table)
        (2 * (s.db.listTableIndexes table).length)).released table = false := hr
    rw [remove_indexes hd hn hs.1,bind_of_error (destroyHeap_first hgone hs.2),Store.stopped,
      if_neg (Nat.lt_irrefl _),take_indexNames (by omega)]
    rfl
  · have hgone : (s.lost (indexNames s.db table)
        (2 * (s.db.listTableIndexes table).length)).released table = false := hr
    have hfirst := hs.1 (2 * (s.db.listTableIndexes table).length) (Nat.lt_succ_self _)
    rw [remove_indexes hd hn (hs.1.mono (Nat.le_succ _)),
      bind_of_error ((destroyHeap_second hgone hfirst).trans (call_of_some hs.2)),Store.stopped,
      if_pos (Nat.lt_succ_self _),take_indexNames (by omega)]
    rfl
  · rw [remove_heap hd hr hn hs.1,bind_of_error (call_of_some hs.2),Store.stopped,
      if_pos (by omega),take_indexNames (by omega)]
    rfl

end removal

/-! ### What a step keeps -/

/-- Whether the step fails or not, the catalog and the rows keep `P`. -/
def Keeps (P : Tables → Database → Prop) (x : DdlM α) : Prop :=
  ∀ s, P s.declared s.db → P (x s).2.declared (x s).2.db

variable {P : Tables → Database → Prop} {x : DdlM α} {f : α → DdlM β} {g : Store → α}

theorem keeps_bind_of (hx : P (x s).2.declared (x s).2.db)
    (hf : ∀ a s₁, x s = (.ok a,s₁) → P (f a s₁).2.declared (f a s₁).2.db) :
    P ((x >>= f) s).2.declared ((x >>= f) s).2.db := by
  cases hr : x s with
  | mk outcome s₁ =>
    rw [hr] at hx
    cases outcome with
    | ok a =>
      rw [bind_of_ok hr]
      exact hf a s₁ hr
    | error e =>
      rw [bind_of_error hr]
      exact hx
    | throws =>
      simp only [Bind.bind,hr]
      exact hx

theorem Keeps.bind (hx : Keeps P x) (hf : ∀ a, Keeps P (f a)) : Keeps P (x >>= f) := by
  intro s hs
  refine keeps_bind_of (hx s hs) fun a s₁ hr => hf a s₁ ?_
  have hnext := hx s hs
  rwa [hr] at hnext

theorem keeps_read : Keeps P (DdlM.read g) := fun _ hs => hs

theorem keeps_pure (a : α) : Keeps P (pure a : DdlM α) := fun _ hs => hs

theorem keeps_result (r : Result α) : Keeps P (result r) := fun _ hs => hs

theorem keeps_call : Keeps P (call env) := by
  intro s hs
  cases hf : env.faults s.calls with
  | none => rwa [call_of_none hf]
  | some e => rwa [call_of_some hf]

theorem keeps_modify {u : Store → Store} (h : ∀ s, P s.declared s.db → P (u s).declared (u s).db) :
    Keeps P (DdlM.modify u) := h

theorem keeps_getTableMetadata : Keeps P (getTableMetadata table) := by
  intro s hs
  cases hd : s.declared table with
  | none => simpa only [getTableMetadata,hd] using hs
  | some schema => simpa only [getTableMetadata,hd] using hs

theorem keeps_dropIndexes (h : ∀ d db names, P d db → P d (without db names)) :
    Keeps P (dropIndexes env is) := by
  induction is with
  | nil => exact keeps_pure ()
  | cons i is ih =>
    refine Keeps.bind ?_ fun _ => ih
    refine keeps_read.bind fun _ => (keeps_result _).bind fun _ => keeps_call.bind fun _ => ?_
    exact (keeps_modify fun s hs => h s.declared s.db [i.name] hs).bind fun _ => keeps_call

theorem keeps_destroyHeap : Keeps P (destroyHeap env table) := by
  have hreach : Keeps P (reachable env table) := keeps_read.bind fun _ => keeps_result _
  have hmark : Keeps P (DdlM.modify fun s => { s with
      released := Function.update s.released table true }) := keeps_modify fun _ hs => hs
  exact hreach.bind fun _ => keeps_call.bind fun _ => hmark.bind fun _ => keeps_call

/-! ### A failed DROP TABLE -/

theorem within_bind (layer : String) :
    within layer (x >>= f) s = (within layer x >>= fun a => within layer (f a)) s := by
  cases hx : x s with
  | mk outcome s₁ =>
    cases outcome with
    | ok a =>
      rw [bind_of_ok (within_of_ok hx)]
      simp only [within,bind_of_ok hx]
    | error e => rw [bind_of_error (within_of_error hx),within_of_error (bind_of_error hx)]
    | throws => simp only [within,Bind.bind,hx]

/-- The executor and ALTER TABLE remove a table with the same calls. -/
theorem dropTable_eq {schema : List Catalog.Column} (hd : s.declared table = some schema) :
    dropTable env table s = within "DropTableExecutor" (remove env table) s := by
  have hkeep : Keeps (fun d _ => d table = some schema)
      (dropIndexes env (s.db.listTableIndexes table)) := keeps_dropIndexes fun _ _ _ h => h
  have hkept := hkeep s hd
  rw [dropTable,bind_of_ok (getTableMetadata_of hd),read_bind,remove,within_bind]
  have hlist : within "DropTableExecutor" (DdlM.read fun s => s.db.listTableIndexes table) s =
      (.ok (s.db.listTableIndexes table),s) := rfl
  rw [bind_of_ok hlist,within_bind]
  cases hr : dropIndexes env (s.db.listTableIndexes table) s with
  | mk outcome s₁ =>
    rw [hr] at hkept
    cases outcome with
    | ok u =>
      rw [bind_of_ok (within_of_ok hr),bind_of_ok (within_of_ok hr),within_bind,
        bind_of_ok (within_of_ok (getTableMetadata_of hkept)),within_bind]
    | error e => rw [bind_of_error (within_of_error hr),bind_of_error (within_of_error hr)]
    | throws => simp only [Bind.bind,within,hr]

/-- What the catalog says of an index, but for the page of its root. -/
def definition (i : IndexMetadata) : String × String × String × Bool :=
  (i.name,i.tableName,i.columnName,i.isUnique)

/-- The table has its schema, its rows and its indexes with their pairs, wherever these lie. -/
structure AsBefore (table : String) (s s' : Store) : Prop where
  schema : s'.declared table = s.declared table
  readable : s'.released table = false
  rows : ∃ t t', s.db.tables table = some t ∧ s'.db.tables table = some t' ∧
    t'.schema = t.schema ∧ (t'.rows.map Prod.snd).Perm (t.rows.map Prod.snd)
  indexes : ((s'.db.listTableIndexes table).map definition).Perm
    ((s.db.listTableIndexes table).map definition)
  mirrors : ∀ i ∈ s'.db.listTableIndexes table, Mirrors s'.db i

/-- The schemas of the catalog are those of the tables, and every index mirrors its rows. -/
structure Sound (declared : Tables) (db : Database) : Prop where
  consistent : Consistent db
  schemas : HasSchemas declared db

theorem Sound.found {schema : List Catalog.Column} (h : Sound s.declared s.db)
    (hd : s.declared table = some schema) :
    ∃ t, s.db.tables table = some t ∧ t.schema = schema.map dataColumn := by
  have hmap := h.schemas table
  rw [hd,Option.map_some] at hmap
  exact Option.map_eq_some_iff.mp hmap

theorem asBefore_of {schema : List Catalog.Column} (h : Sound s.declared s.db)
    (hd : s.declared table = some schema) (hr : s.released table = false)
    (hdeclared : s'.declared = s.declared) (htables : s'.db.tables = s.db.tables)
    (hindexes : s'.db.indexes = s.db.indexes) (htrees : s'.db.trees = s.db.trees)
    (hreleased : s'.released = s.released) : AsBefore table s s' := by
  obtain ⟨t,ht,-⟩ := h.found hd
  have hlist : s'.db.listTableIndexes table = s.db.listTableIndexes table := by
    rw [Database.listTableIndexes,hindexes,Database.listTableIndexes]
  refine ⟨congrFun hdeclared table,by rw [hreleased,hr],⟨t,t,ht,?_,rfl,.refl _⟩,?_,?_⟩
  · rw [htables,ht]
  · rw [hlist]
  · intro i hi
    rw [hlist] at hi
    obtain ⟨t₁,column,ht₁,hc,hperm⟩ := h.consistent.mirrors i (listed_found i hi)
    refine ⟨t₁,column,by rw [htables,ht₁],?_,by rwa [htrees]⟩
    rw [indexedColumn_congr htables i,hc]

/-- Only a removal that stops at once leaves the table as it was. -/
theorem stopped_asBefore {schema : List Catalog.Column} (h : Sound s.declared s.db)
    (hd : s.declared table = some schema) (hr : s.released table = false) :
    AsBefore table s (s.stopped table n) ↔ n = 0 := by
  constructor
  · intro hb
    by_contra hne
    have hheap : ¬ 2 * (s.db.listTableIndexes table).length < n := by
      intro hlt
      have hreleased := hb.readable
      rw [Store.stopped,if_pos hlt] at hreleased
      simp at hreleased
    have hlength := hb.indexes.length_eq
    rw [List.length_map,List.length_map] at hlength
    have hdrop : (s.stopped table n).db.listTableIndexes table =
        (s.db.listTableIndexes table).drop ((n + 1) / 2) :=
      listTableIndexes_without h.consistent.names _
    rw [hdrop,List.length_drop] at hlength
    omega
  · rintro rfl
    have hnone : without s.db ((indexNames s.db table).take 0) = s.db := without_nil s.db
    refine asBefore_of h hd hr rfl rfl ?_ rfl ?_
    · exact congrArg Database.indexes hnone
    · rw [Store.stopped,if_neg (Nat.not_lt_zero _)]

/-- A failed DROP TABLE has stopped at one of its calls, and the table is as it was exactly when
that is the first of them. -/
theorem dropTable_failed {schema : List Catalog.Column} (h : Sound s.declared s.db)
    (hd : s.declared table = some schema) (hr : s.released table = false)
    (hfail : dropTable env table s = (.error e,s')) :
    ∃ n e', n < 2 * (s.db.listTableIndexes table).length + 3 ∧ Stops env s.calls n e' ∧
      e = contextualize "DropTableExecutor" e' ∧ s' = s.stopped table n ∧
      (AsBefore table s s' ↔ n = 0) := by
  rw [dropTable_eq hd] at hfail
  rcases quiet_or_stops env s.calls (2 * (s.db.listTableIndexes table).length + 3) with
    hquiet | ⟨n,e',hlt,hs⟩
  · rw [within_of_ok (remove_quiet hd hr h.consistent.names hquiet)] at hfail
    cases hfail
  · rw [within_of_error (remove_stops hd hr h.consistent.names hlt hs)] at hfail
    obtain ⟨he,rfl⟩ := Prod.mk.inj hfail
    exact ⟨n,e',hlt,hs,(Outcome.error.inj he).symm,rfl,stopped_asBefore h hd hr⟩

end Ddl
end Execution
end OurSql
