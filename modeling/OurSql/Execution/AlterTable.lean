import OurSql.Execution.Ddl

/-! A failed `ALTER TABLE`: the table that comes back has the rows and indexes of the one that went,
unless the removal has stopped half way or the return fails as well. -/
namespace OurSql
namespace Execution
namespace Ddl

open Data DdlM
open Catalog (IndexMetadata)
open Catalog.Schemas (AlterTableAction Tables)

variable {env : Environment} {s s' : Store} {e : Failure} {table name : String}
  {schema : List Catalog.Column} {declared : Tables} {db db' : Database} {t t' : Table}
  {row : Row} {rows : List Row} {place : Place} {rid : RID} {i : IndexMetadata}
  {is : List IndexMetadata}

/-! ### The steps keep the database sound -/

theorem Sound.without (h : Sound declared db) (names : List String) :
    Sound declared (without db names) where
  consistent :=
    { names := h.consistent.names.sublist (List.filter_sublist.map _)
      rids := h.consistent.rids
      mirrors := fun i hi => h.consistent.mirrors i (List.mem_filter.mp hi).1 }
  schemas := h.schemas

theorem Sound.createTable (h : Sound declared db) (hnew : declared name = none) :
    Sound (Function.update declared name (some schema))
      (db.setTable name ⟨schema.map dataColumn,[]⟩) where
  consistent := by
    refine h.consistent.newTable ?_ rfl
    have hmap := h.schemas name
    rw [hnew] at hmap
    exact Option.map_eq_none_iff.mp hmap
  schemas := by
    intro other
    by_cases hn : other = name
    · simp [hn]
    · rw [setTable_of_ne hn,Function.update_of_ne hn]
      exact h.schemas other

theorem Sound.dropTable (h : Sound declared db) (hnone : db.listTableIndexes table = []) :
    Sound (Function.update declared table none)
      { db with tables := Function.update db.tables table none } where
  consistent :=
    { names := h.consistent.names
      rids := by
        intro other t ht
        by_cases hn : other = table
        · simp [hn] at ht
        · dsimp only at ht
          rw [Function.update_of_ne hn] at ht
          exact h.consistent.rids other t ht
      mirrors := by
        intro i hi
        have hn : i.tableName ≠ table := by
          intro he
          have hmem : i ∈ db.listTableIndexes table := List.mem_filter.mpr ⟨hi,by simpa using he⟩
          rw [hnone] at hmem
          cases hmem
        obtain ⟨t,column,ht,hc,hperm⟩ := h.consistent.mirrors i hi
        refine ⟨t,column,by rw [← ht]; exact Function.update_of_ne hn ..,?_,hperm⟩
        rw [← hc,indexedColumn,indexedColumn]
        dsimp only
        rw [Function.update_of_ne hn] }
  schemas := by
    intro other
    by_cases hn : other = table
    · simp [hn]
    · dsimp only
      rw [Function.update_of_ne hn,Function.update_of_ne hn]
      exact h.schemas other

/-- A row that comes before the indexes. -/
theorem Sound.insertRow (h : Sound declared db) (hnone : db.listTableIndexes table = [])
    (ht : db.tables table = some t) (hi : t.insertRow place row = .ok (rid,t')) :
    Sound declared (db.setTable table t') where
  consistent := by
    obtain ⟨hfresh,hs,hrows⟩ := Table.insertRow_ok hi
    have hrids : t'.rids.Nodup := by
      rw [rids_perm hrows,List.map_cons,List.nodup_cons]
      exact ⟨hfresh,h.consistent.rids table t ht⟩
    refine h.consistent.swap [] [(rid,row)] ht hs hrids hrows rfl rfl ?_ fun _ _ _ => rfl
    intro i hi hn
    have hmem : i ∈ db.listTableIndexes table := List.mem_filter.mpr ⟨hi,by simpa using hn⟩
    rw [hnone] at hmem
    cases hmem
  schemas := hasSchemas_setTable h.schemas ht (Table.insertRow_ok hi).2.1

/-- An index comes whole, or not at all. -/
theorem createIndex_cases (i : IndexMetadata) (db : Database) :
    (∃ tree, Execution.createIndex i db = (.ok (),{ db.setTree i.name tree with
      indexes := db.indexes.orderedInsert (fun a b => a.name ≤ b.name) i })) ∨
    ∃ o, o ≠ .ok () ∧ Execution.createIndex i db = (o,db) := by
  rw [Execution.createIndex]
  split
  · exact .inr ⟨_,by simp,rfl⟩
  split
  · exact .inr ⟨_,by simp,rfl⟩
  split
  · exact .inr ⟨_,by simp,rfl⟩
  split
  · exact .inr ⟨_,by simp,rfl⟩
  · exact .inr ⟨_,by simp,rfl⟩
  next tree _ =>
  split
  · exact .inr ⟨_,by simp,rfl⟩
  · exact .inl ⟨tree,rfl⟩

theorem Sound.createIndex (h : Sound declared db) :
    Sound declared (Execution.createIndex i db).2 := by
  rcases createIndex_cases i db with ⟨tree,hc⟩ | ⟨o,-,hc⟩
  · have hok := hc
    rw [hc]
    exact ⟨createIndex_statement h.consistent hok,h.schemas⟩
  · rwa [hc]

theorem call_state {outcome : Outcome Unit} (h : call env s = (outcome,s')) :
    s' = { s with calls := s.calls + 1 } := by
  cases hf : env.faults s.calls with
  | none =>
    rw [call_of_none hf] at h
    exact (Prod.mk.inj h).2.symm
  | some e =>
    rw [call_of_some hf] at h
    exact (Prod.mk.inj h).2.symm

theorem Keeps.after {α : Type} {P : Tables → Database → Prop} {x : DdlM α} {o : Outcome α}
    (h : Keeps P x) (hs : P s.declared s.db) (hx : x s = (o,s')) : P s'.declared s'.db := by
  have hkept := h s hs
  rwa [hx] at hkept

theorem keeps_dropCatalogTable : Keeps Sound (dropCatalogTable env table) := by
  intro s hs
  refine keeps_bind_of (keeps_getTableMetadata s hs) fun schema s₁ hmeta => ?_
  have hs₁ := keeps_getTableMetadata.after hs hmeta
  rw [read_bind]
  by_cases hnone : s₁.db.listTableIndexes table = []
  · rw [hnone]
    refine keeps_bind_of hs₁ fun _ s₂ hcheck => ?_
    obtain rfl := (Prod.mk.inj hcheck).2
    refine keeps_bind_of (keeps_call s₁ hs₁) fun _ s₂ hcall => ?_
    rw [call_state hcall]
    exact hs₁.dropTable hnone
  · rw [if_pos hnone]
    exact hs₁

/-- The table goes, but never from under its indexes. -/
theorem keeps_remove : Keeps Sound (remove env table) := by
  refine keeps_read.bind fun is => ?_
  refine (keeps_dropIndexes fun _ _ names h => h.without names).bind fun _ => ?_
  refine keeps_getTableMetadata.bind fun _ => keeps_destroyHeap.bind fun _ => ?_
  exact keeps_dropCatalogTable

theorem createTable_fresh {stored : Status} {tables : Tables}
    (h : (Catalog.Schemas.createTable stored name schema tables).1 = .ok ()) :
    tables name = none := by
  unfold Catalog.Schemas.createTable at h
  split at h
  · cases h
  split at h
  · cases h
  split at h
  · cases h
  next hnone => exact Option.not_isSome_iff_eq_none.mp hnone

/-- The store with a new table. -/
def Store.created (s : Store) (name : String) (schema : List Catalog.Column) : Store :=
  { s with
    declared := Function.update s.declared name (some schema)
    db := s.db.setTable name ⟨schema.map dataColumn,[]⟩
    released := Function.update s.released name false
    calls := s.calls + 1 }

theorem result_eq_ok {α : Type} {r : Result α} {a : α} :
    result r s = (.ok a,s') ↔ r = .ok a ∧ s' = s := by
  cases r with
  | ok b => simp [result,Outcome.ofResult,eq_comm]
  | error e => simp [result,Outcome.ofResult]

theorem createCatalogTable_ok (h : createCatalogTable env name schema s = (.ok (),s')) :
    s.declared name = none ∧ s' = s.created name schema := by
  rw [createCatalogTable,read_bind] at h
  obtain ⟨_,s₁,hcheck,h₁⟩ := bind_eq_ok.mp h
  obtain ⟨hstatus,hs₁⟩ := result_eq_ok.mp hcheck
  rw [hs₁] at h₁
  obtain ⟨_,s₂,hcall,h₂⟩ := bind_eq_ok.mp h₁
  rw [call_state hcall] at h₂
  exact ⟨createTable_fresh hstatus,(Prod.mk.inj h₂).2.symm⟩

theorem keeps_createCatalogTable : Keeps Sound (createCatalogTable env name schema) := by
  intro s hs
  rw [createCatalogTable,read_bind]
  refine keeps_bind_of (keeps_result _ s hs) fun _ s₁ hcheck => ?_
  obtain ⟨hstatus,rfl⟩ := result_eq_ok.mp hcheck
  refine keeps_bind_of (keeps_call _ hs) fun _ s₂ hcall => ?_
  rw [call_state hcall]
  exact hs.createTable (createTable_fresh hstatus)

/-- No index can be older than its table. -/
theorem no_index_created (h : Sound s.declared s.db) (hnew : s.declared name = none) :
    (s.created name schema).db.listTableIndexes name = [] := by
  refine List.filter_eq_nil_iff.mpr fun i hi hname => ?_
  obtain ⟨t,column,ht,-⟩ := h.consistent.mirrors i hi
  have hmap := h.schemas i.tableName
  rw [of_decide_eq_true hname,hnew] at hmap
  rw [of_decide_eq_true hname] at ht
  rw [ht] at hmap
  cases hmap

/-- The database is sound, and the table has no index. -/
def Bare (name : String) (declared : Tables) (db : Database) : Prop :=
  Sound declared db ∧ db.listTableIndexes name = []

theorem keeps_insertRow : Keeps (Bare name) (insertRow env name row) := by
  rintro s ⟨hs,hnone⟩
  rw [insertRow]
  cases ht : s.db.tables name with
  | none => exact ⟨hs,hnone⟩
  | some t =>
    dsimp only
    cases hi : t.insertRow (env.places s.calls) row with
    | error e => exact ⟨hs,hnone⟩
    | ok r =>
      have hstored := hs.insertRow hnone ht hi
      dsimp only
      cases env.faults s.calls with
      | none => exact ⟨hstored,hnone⟩
      | some e =>
        dsimp only
        by_cases hw : env.written s.calls = true
        · rw [if_pos hw]
          exact ⟨hstored,hnone⟩
        · rw [if_neg hw]
          exact ⟨hs,hnone⟩

theorem keeps_insertRows : Keeps (Bare name) (insertRows env name rows) := by
  induction rows with
  | nil => exact keeps_pure ()
  | cons row rows ih => exact keeps_insertRow.bind fun _ => ih

theorem keeps_createIndex {columnName : String} {isUnique : Bool} :
    Keeps Sound (createIndex env name table columnName isUnique) := by
  refine keeps_read.bind fun n => keeps_call.bind fun _ => ?_
  intro s hs
  exact hs.createIndex

theorem keeps_createIndexes : Keeps Sound (createIndexes env table is) := by
  induction is with
  | nil => exact keeps_pure ()
  | cons i is ih => exact keeps_createIndex.bind fun _ => ih

theorem created_metadata :
    getTableMetadata name (s.created name schema) = (.ok schema,s.created name schema) :=
  getTableMetadata_of (Function.update_self ..)

theorem created_bare (h : Sound s.declared s.db)
    (hcreate : createCatalogTable env name schema s = (.ok (),s')) :
    Bare name s'.declared s'.db := by
  have hs := keeps_createCatalogTable.after h hcreate
  obtain ⟨hnew,rfl⟩ := createCatalogTable_ok hcreate
  exact ⟨hs,no_index_created h hnew⟩

theorem keeps_install : Keeps Sound (install env name schema rows is) := by
  intro s hs
  refine keeps_bind_of (keeps_createCatalogTable s hs) fun _ s₁ hcreate => ?_
  have hbare := created_bare hs hcreate
  obtain ⟨-,rfl⟩ := createCatalogTable_ok hcreate
  rw [bind_of_ok created_metadata]
  refine keeps_bind_of (keeps_insertRows _ hbare).1 fun _ s₂ hrows => ?_
  exact keeps_createIndexes s₂ (keeps_insertRows.after hbare hrows).1

/-! ### What an installation has made -/

theorem insertRow_ok (ht : s.db.tables name = some t) (h : insertRow env name row s = (.ok (),s')) :
    ∃ t', s'.db = s.db.setTable name t' ∧ s'.declared = s.declared ∧ s'.released = s.released ∧
      t'.schema = t.schema ∧ (t'.rows.map Prod.snd).Perm (row::t.rows.map Prod.snd) := by
  rw [insertRow,ht] at h
  dsimp only at h
  cases hi : t.insertRow (env.places s.calls) row with
  | error e =>
    rw [hi] at h
    cases h
  | ok r =>
    rw [hi] at h
    dsimp only at h
    cases hf : env.faults s.calls with
    | none =>
      rw [hf] at h
      obtain ⟨-,hs,hrows⟩ := Table.insertRow_ok hi
      obtain rfl := (Prod.mk.inj h).2
      exact ⟨r.2,rfl,rfl,rfl,hs,hrows.map Prod.snd⟩
    | some e =>
      rw [hf] at h
      dsimp only at h
      by_cases hw : env.written s.calls = true
      · rw [if_pos hw] at h
        cases h
      · rw [if_neg hw] at h
        cases h

theorem insertRows_ok (ht : s.db.tables name = some t)
    (h : insertRows env name rows s = (.ok (),s')) :
    ∃ t', s'.db.tables name = some t' ∧ s'.db.indexes = s.db.indexes ∧
      s'.declared = s.declared ∧ s'.released = s.released ∧ t'.schema = t.schema ∧
      (t'.rows.map Prod.snd).Perm (rows ++ t.rows.map Prod.snd) := by
  induction rows generalizing s t with
  | nil =>
    obtain rfl := (Prod.mk.inj h).2
    exact ⟨t,ht,rfl,rfl,rfl,rfl,.refl _⟩
  | cons row rows ih =>
    obtain ⟨_,s₁,hrow,hrest⟩ := bind_eq_ok.mp h
    obtain ⟨t₁,hdb,hdeclared,hreleased,hschema,hrows⟩ := insertRow_ok ht hrow
    have ht₁ : s₁.db.tables name = some t₁ := by rw [hdb,setTable_at]
    obtain ⟨t',ht',hindexes,hdeclared',hreleased',hschema',hrows'⟩ := ih ht₁ hrest
    refine ⟨t',ht',?_,hdeclared'.trans hdeclared,hreleased'.trans hreleased,
      hschema'.trans hschema,?_⟩
    · rw [hindexes,hdb]
      rfl
    · calc (t'.rows.map Prod.snd).Perm (rows ++ t₁.rows.map Prod.snd) := hrows'
        _ |>.Perm (rows ++ row::t.rows.map Prod.snd) := hrows.append_left _
        _ |>.Perm (row::rows ++ t.rows.map Prod.snd) := List.perm_middle

theorem createIndex_ok {columnName : String} {isUnique : Bool}
    (h : createIndex env name table columnName isUnique s = (.ok (),s')) :
    s'.db.tables = s.db.tables ∧ s'.declared = s.declared ∧ s'.released = s.released ∧
      (s'.db.indexes.map definition).Perm
        ((name,table,columnName,isUnique)::s.db.indexes.map definition) := by
  rw [createIndex,read_bind] at h
  obtain ⟨_,s₁,hcall,h⟩ := bind_eq_ok.mp h
  obtain rfl := call_state hcall
  rcases createIndex_cases ⟨name,table,columnName,env.roots s.calls,isUnique⟩ s.db with
    ⟨tree,hc⟩ | ⟨o,ho,hc⟩
  · dsimp only at h
    rw [hc] at h
    obtain rfl := (Prod.mk.inj h).2
    exact ⟨rfl,rfl,rfl,(List.perm_orderedInsert _ _ _).map definition⟩
  · dsimp only at h
    rw [hc] at h
    exact absurd (Prod.mk.inj h).1 ho

/-- The definition that an index gets on a table. -/
def definitionOn (table : String) (i : IndexMetadata) : String × String × String × Bool :=
  (i.name,table,i.columnName,i.isUnique)

theorem createIndexes_ok (h : createIndexes env table is s = (.ok (),s')) :
    s'.db.tables = s.db.tables ∧ s'.declared = s.declared ∧ s'.released = s.released ∧
      (s'.db.indexes.map definition).Perm
        (is.map (definitionOn table) ++ s.db.indexes.map definition) := by
  induction is generalizing s with
  | nil =>
    obtain rfl := (Prod.mk.inj h).2
    exact ⟨rfl,rfl,rfl,.refl _⟩
  | cons i is ih =>
    obtain ⟨_,s₁,hindex,hrest⟩ := bind_eq_ok.mp h
    obtain ⟨htables,hdeclared,hreleased,hindexes⟩ := createIndex_ok hindex
    obtain ⟨htables',hdeclared',hreleased',hindexes'⟩ := ih hrest
    refine ⟨htables'.trans htables,hdeclared'.trans hdeclared,hreleased'.trans hreleased,?_⟩
    calc (s'.db.indexes.map definition).Perm
          (is.map (definitionOn table) ++ s₁.db.indexes.map definition) := hindexes'
      _ |>.Perm (is.map (definitionOn table) ++
            definitionOn table i::s.db.indexes.map definition) := hindexes.append_left _
      _ |>.Perm ((i::is).map (definitionOn table) ++ s.db.indexes.map definition) :=
        List.perm_middle

theorem listed_definitions (db : Database) (table : String) :
    (db.listTableIndexes table).map definition =
      (db.indexes.map definition).filter fun d => d.2.1 = table := by
  rw [List.filter_map,Database.listTableIndexes]
  rfl

/-- A table that has been installed, on a sound database. -/
theorem install_ok (h : Sound s.declared s.db)
    (hin : install env name schema rows is s = (.ok (),s')) :
    s'.declared name = some schema ∧ s'.released name = false ∧
      (∃ t, s'.db.tables name = some t ∧ t.schema = schema.map dataColumn ∧
        (t.rows.map Prod.snd).Perm rows) ∧
      ((s'.db.listTableIndexes name).map definition).Perm (is.map (definitionOn name)) := by
  obtain ⟨_,s₁,hcreate,hin₁⟩ := bind_eq_ok.mp hin
  obtain ⟨hnew,rfl⟩ := createCatalogTable_ok hcreate
  rw [bind_of_ok created_metadata] at hin₁
  obtain ⟨_,s₂,hrows,hin₂⟩ := bind_eq_ok.mp hin₁
  obtain ⟨t,ht,hindexes,hdeclared,hreleased,hschema,hperm⟩ :=
    insertRows_ok (setTable_at : (s.created name schema).db.tables name = _) hrows
  obtain ⟨htables,hdeclared',hreleased',hdefs⟩ := createIndexes_ok hin₂
  refine ⟨?_,?_,⟨t,by rw [htables,ht],hschema,?_⟩,?_⟩
  · rw [hdeclared',hdeclared]
    exact Function.update_self ..
  · rw [hreleased',hreleased]
    exact Function.update_self ..
  · simpa using hperm
  · have hlist : (s.created name schema).db.listTableIndexes name = [] := no_index_created h hnew
    have hbare := congrArg (List.map definition) hlist
    rw [listed_definitions] at hbare ⊢
    have hnone : (s₂.db.indexes.map definition).filter (fun d => d.2.1 = name) = [] := by
      rw [hindexes]
      exact hbare
    have hall : (is.map (definitionOn name)).filter (fun d => d.2.1 = name) =
        is.map (definitionOn name) := by
      refine List.filter_eq_self.mpr fun d hd => ?_
      obtain ⟨i,-,rfl⟩ := List.mem_map.mp hd
      exact decide_eq_true rfl
    have hfilter := hdefs.filter fun d => d.2.1 = name
    rwa [List.filter_append,hnone,hall,List.append_nil] at hfilter

/-- A table that was sound, and has been installed again. -/
theorem install_asBefore {s₀ : Store} (h₀ : Sound s₀.declared s₀.db)
    (ht : s₀.db.tables name = some t) (hd : s₀.declared name = some schema) (h : Sound s.declared s.db)
    (hin : install env name schema (t.rows.map Prod.snd) (s₀.db.listTableIndexes name) s =
      (.ok (),s')) : AsBefore name s₀ s' := by
  obtain ⟨hdeclared,hreleased,⟨t',ht',hschema,hrows⟩,hindexes⟩ := install_ok h hin
  have hsound := keeps_install.after h hin
  obtain ⟨t₀,ht₀,hschema₀⟩ := h₀.found hd
  rw [ht,Option.some.injEq] at ht₀
  refine ⟨hdeclared.trans hd.symm,hreleased,⟨t,t',ht,ht',?_,hrows⟩,?_,?_⟩
  · rw [hschema,ht₀,hschema₀]
  · have hsame : (s₀.db.listTableIndexes name).map (definitionOn name) =
        (s₀.db.listTableIndexes name).map definition := by
      refine List.map_congr_left fun i hi => ?_
      rw [definitionOn,definition,of_decide_eq_true (List.mem_filter.mp hi).2]
    rwa [hsame] at hindexes
  · exact fun i hi => hsound.consistent.mirrors i (listed_found i hi)

/-! ### A failed ALTER TABLE -/

def Store.marked (s : Store) (transaction : Bool) : Store :=
  { s with db := s.db.mark transaction }

theorem AsBefore.marked {transaction : Bool} (h : AsBefore table s s') :
    AsBefore table s (s'.marked transaction) :=
  ⟨h.schema,h.readable,h.rows,h.indexes,h.mirrors⟩

theorem scan_reads (env : Environment) (hr : s.released table = false)
    (ht : s.db.tables table = some t) :
    (∃ e, scan env table s = (.error e,{ s with calls := s.calls + 1 })) ∨
      scan env table s = (.ok (t.rows.map Prod.snd),{ s with calls := s.calls + 1 }) := by
  rw [scan,bind_of_ok (reachable_of hr)]
  cases hf : env.faults s.calls with
  | some e => exact .inl ⟨e,bind_of_error (call_of_some hf)⟩
  | none =>
    refine .inr ?_
    rw [bind_of_ok (call_of_none hf)]
    simp only [DdlM.read,ht,Option.elim_some]

variable {transaction : Bool} {newName : String} {indexes : List IndexMetadata}

/-- What was put in the place of the old table goes first, as far as it can. -/
theorem restore_error {e₁ : Failure} (h : Sound s.declared s.db)
    (hfail : restore env transaction table newName schema rows indexes e₁ s = (.error e,s')) :
    (∃ s₁ s₂, Sound s₁.declared s₁.db ∧ install env table schema rows indexes s₁ = (.ok (),s₂) ∧
      s' = s₂.marked transaction ∧ e = contextualize "AlterTableExecutor" e₁) ∨
    ∃ e₂ : Failure, e = ⟨.ioError,"AlterTableExecutor: " ++ e₁.message ++
      "; 恢复旧表也失败: " ++ e₂.message⟩ := by
  have hcleared : ∃ s₁ : Store, Sound s₁.declared s₁.db ∧
      (if (s.declared newName).isSome then (remove env newName s).2 else s) = s₁ := by
    refine ⟨_,?_,rfl⟩
    by_cases hhas : (s.declared newName).isSome = true
    · rw [if_pos hhas]
      exact keeps_remove s h
    · rwa [if_neg hhas]
  obtain ⟨s₁,hs₁,heq⟩ := hcleared
  simp only [restore,heq] at hfail
  cases hin : install env table schema rows indexes s₁ with
  | mk outcome s₂ =>
    rw [hin] at hfail
    cases outcome with
    | ok u =>
      obtain ⟨he,rfl⟩ := Prod.mk.inj hfail
      exact .inl ⟨s₁,s₂,hs₁,hin,rfl,(Outcome.error.inj he).symm⟩
    | error e₂ =>
      obtain ⟨he,-⟩ := Prod.mk.inj hfail
      exact .inr ⟨e₂,(Outcome.error.inj he).symm⟩
    | throws => cases hfail

/-- A removal that stops, or an installation that fails: the old table comes back, or the error says
that it does not. -/
theorem replaceTable_failed {s₀ : Store} {newSchema : List Catalog.Column} {newRows : List Row}
    {newIndexes : List IndexMetadata} (h₀ : Sound s₀.declared s₀.db)
    (ht : s₀.db.tables table = some t) (hd₀ : s₀.declared table = some schema)
    (h : Sound s.declared s.db) (hd : s.declared table = some schema)
    (hr : s.released table = false)
    (hfail : replaceTable env transaction table newName schema newSchema (t.rows.map Prod.snd)
      newRows (s₀.db.listTableIndexes table) newIndexes s = (.error e,s')) :
    AsBefore table s₀ s' ∨
    (∃ n e', n < 2 * (s.db.listTableIndexes table).length + 3 ∧ Stops env s.calls n e' ∧
      e = contextualize "AlterTableExecutor" e' ∧
      s' = (s.stopped table n).marked transaction) ∨
    ∃ e₁ e₂ : Failure, e = ⟨.ioError,"AlterTableExecutor: " ++ e₁.message ++
      "; 恢复旧表也失败: " ++ e₂.message⟩ := by
  rw [replaceTable] at hfail
  rcases quiet_or_stops env s.calls (2 * (s.db.listTableIndexes table).length + 3) with
    hquiet | ⟨n,e',hlt,hs⟩
  · have hremove := remove_quiet hd hr h.consistent.names hquiet
    have hremoved := keeps_remove.after h hremove
    rw [hremove] at hfail
    dsimp only at hfail
    cases hin : install env newName newSchema newRows newIndexes (s.removed table) with
    | mk outcome s₁ =>
      rw [hin] at hfail
      cases outcome with
      | ok u => cases hfail
      | throws => cases hfail
      | error e₁ =>
        rcases restore_error (keeps_install.after hremoved hin) hfail with
          ⟨s₂,s₃,hs₂,hback,rfl,-⟩ | ⟨e₂,he⟩
        · exact .inl (install_asBefore h₀ ht hd₀ hs₂ hback).marked
        · exact .inr (.inr ⟨e₁,e₂,he⟩)
  · rw [remove_stops hd hr h.consistent.names hlt hs] at hfail
    obtain ⟨he,rfl⟩ := Prod.mk.inj hfail
    exact .inr (.inl ⟨n,e',hlt,hs,(Outcome.error.inj he).symm,rfl⟩)

/-- A statement that fails before the old table goes has only read. -/
theorem alterTable_failed {action : AlterTableAction} (h : Sound s.declared s.db)
    (hd : s.declared table = some schema) (hr : s.released table = false)
    (hfail : alterTable env transaction table action s = (.error e,s')) :
    AsBefore table s s' ∨
    (∃ n e', 0 < n ∧ n < 2 * (s.db.listTableIndexes table).length + 3 ∧
      Stops env (s.calls + 1) n e' ∧ e = contextualize "AlterTableExecutor" e' ∧
      s' = (({ s with calls := s.calls + 1 } : Store).stopped table n).marked transaction) ∨
    ∃ e₁ e₂ : Failure, e = ⟨.ioError,"AlterTableExecutor: " ++ e₁.message ++
      "; 恢复旧表也失败: " ++ e₂.message⟩ := by
  obtain ⟨t,ht,-⟩ := h.found hd
  rw [alterTable,bind_of_ok (within_of_ok (getTableMetadata_of hd))] at hfail
  rcases scan_reads env hr ht with ⟨e₀,hscan⟩ | hscan
  · rw [bind_of_error (within_of_error hscan)] at hfail
    obtain rfl := (Prod.mk.inj hfail).2
    exact .inl (asBefore_of h hd hr rfl rfl rfl rfl rfl)
  rw [bind_of_ok (within_of_ok hscan)] at hfail
  have hread : AsBefore table s { s with calls := s.calls + 1 } :=
    asBefore_of h hd hr rfl rfl rfl rfl rfl
  rcases bind_eq_error.mp hfail with hcolumn | ⟨_,s₁,hcolumn,hrest⟩
  · obtain rfl := (Prod.mk.inj hcolumn).2
    exact .inl hread
  obtain ⟨-,rfl⟩ := result_eq_ok.mp hcolumn
  rcases bind_eq_error.mp hrest with hrows | ⟨_,s₁,hrows,hreplace⟩
  · obtain rfl := (Prod.mk.inj hrows).2
    exact .inl hread
  obtain ⟨-,rfl⟩ := result_eq_ok.mp hrows
  rw [read_bind] at hreplace
  rcases replaceTable_failed (s := { s with calls := s.calls + 1 }) h ht hd h hd hr hreplace with
    hback | ⟨n,e',hlt,hs,he,rfl⟩ | hlost
  · exact .inl hback
  · rcases Nat.eq_zero_or_pos n with rfl | hn
    · have hstop := (stopped_asBefore (s := { s with calls := s.calls + 1 }) h hd hr).mpr rfl
      exact .inl ⟨hstop.schema,hstop.readable,hstop.rows,hstop.indexes,hstop.mirrors⟩
    · exact .inr (.inl ⟨n,e',hn,hlt,hs,he,rfl⟩)
  · exact .inr (.inr hlost)

theorem sound_of_declared {Query : Type} {c : Catalogued} (h : Declared Query c) :
    Sound c.declared c.db :=
  ⟨h.invariant.1,h.invariant.2.2⟩

def emptyStore : Store := ⟨fun _ => none,⟨fun _ => none,[],fun _ => [],false⟩,fun _ => false,0⟩

def quietEnvironment : Environment := ⟨fun _ => none,fun _ => ⟨⟨1,0⟩,0⟩,fun _ => false,fun _ => 2,
  ⟨.notFound,"页面正在删除: 1"⟩⟩

def intColumn : Catalog.Column := { name := "a", type := .int }

/-- A table of one INT column with one row and an index. -/
def indexedStore : Store :=
  (install quietEnvironment "t" [intColumn] [[.int 7]] [⟨"i","t","a",2,false⟩] emptyStore).2

/-- A reader has the only page of the table pinned. -/
def pinned : Failure := ⟨.invalidArgument,"被 pin 的页面不能删除: 1"⟩

def pinnedEnvironment (n : ℕ) : Environment :=
  { quietEnvironment with faults := fun k => if k = n then some pinned else none }

theorem sound_empty : Sound emptyStore.declared emptyStore.db where
  consistent :=
    { names := List.nodup_nil
      rids := fun _ _ ht => by cases ht
      mirrors := fun _ hi => by cases hi }
  schemas := fun _ => rfl

theorem sound_indexed : Sound indexedStore.declared indexedStore.db :=
  keeps_install emptyStore sound_empty

theorem indexed_installed :
    install quietEnvironment "t" [intColumn] [[.int 7]] [⟨"i","t","a",2,false⟩] emptyStore =
      (.ok (),indexedStore) := by
  have hok : (install quietEnvironment "t" [intColumn] [[.int 7]] [⟨"i","t","a",2,false⟩]
      emptyStore).1 = .ok () := by decide +kernel
  exact Prod.ext hok rfl

theorem indexed_declared : indexedStore.declared "t" = some [intColumn] :=
  (install_ok sound_empty indexed_installed).1

theorem indexed_readable : indexedStore.released "t" = false :=
  (install_ok sound_empty indexed_installed).2.1

theorem not_asBefore (h : (s'.db.listTableIndexes "t").length = 0) :
    ¬ AsBefore "t" indexedStore s' := by
  intro hb
  have hone : (indexedStore.db.listTableIndexes "t").length = 1 := by decide +kernel
  have hlength := hb.indexes.length_eq
  rw [List.length_map,List.length_map,h,hone] at hlength
  cases hlength

end Ddl
end Execution
end OurSql
