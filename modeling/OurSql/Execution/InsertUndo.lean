import OurSql.Execution.Mirror

/-! Statements without a transaction take back by hand what they have done: the entries of the
indexes already served, and the rows of an INSERT already written. -/
namespace OurSql
namespace Execution

open Data Index Expression
open Catalog (IndexMetadata)

variable {db db' : Database} {table name other : String} {t t' : Table} {row : Row}
  {rid : RID} {key : Key} {tree : Tree} {place : Place} {e : Failure}

@[simp] theorem mark_false (db : Database) : db.mark false = db := by
  simp [Database.mark]

@[simp] theorem setTree_tables (db : Database) (name : String) (tree : Tree) :
    (db.setTree name tree).tables = db.tables := rfl

@[simp] theorem setTree_indexes (db : Database) (name : String) (tree : Tree) :
    (db.setTree name tree).indexes = db.indexes := rfl

@[simp] theorem setTree_failed (db : Database) (name : String) (tree : Tree) :
    (db.setTree name tree).failed = db.failed := rfl

@[simp] theorem setTree_at (db : Database) (name : String) (tree : Tree) :
    (db.setTree name tree).trees name = tree := Function.update_self ..

theorem setTree_of_ne (db : Database) (tree : Tree) (h : other ≠ name) :
    (db.setTree name tree).trees other = db.trees other := Function.update_of_ne h ..

@[simp] theorem setTree_setTree (db : Database) (name : String) (tree tree' : Tree) :
    (db.setTree name tree).setTree name tree' = db.setTree name tree' := by
  simp [Database.setTree]

@[simp] theorem setTree_self (db : Database) (name : String) :
    db.setTree name (db.trees name) = db := by
  simp [Database.setTree]

theorem setTree_comm (db : Database) (tree tree' : Tree) (h : other ≠ name) :
    (db.setTree name tree).setTree other tree' = (db.setTree other tree').setTree name tree := by
  simp only [Database.setTree]
  rw [Function.update_comm h]

@[simp] theorem findIndex_setTree (db : Database) (tree : Tree) (other : String) :
    (db.setTree name tree).findIndex other = db.findIndex other := rfl

/-! ### What is applied can be undone -/

/-- Where the tree has `P` the one call takes back what the other has done to it, a refused call
has done nothing, and no call sees the trees of the others. -/
structure Reversible (P : Database → String → Prop)
    (apply undo : String × List Key → Database → Status × Database) : Prop where
  keeps : ∀ b name db db', name ≠ b.1 → P db name → apply b db = (.ok (),db') → P db' name
  undoes : ∀ b db db', P db b.1 → apply b db = (.ok (),db') → (undo b db').2 = db
  refuses : ∀ b db db' e, P db b.1 → apply b db = (.error e,db') → db' = db

/-- By induction on what is left to apply: undoing `done` leads to where it was. -/
theorem applyAll_error {P : Database → String → Prop}
    {apply undo : String × List Key → Database → Status × Database}
    (hr : Reversible P apply undo) : ∀ (rest done : List (String × List Key)) (db db' : Database),
      (rest.map Prod.fst).Nodup → (∀ b ∈ rest, P db b.1) →
      applyAll false apply undo done rest db = (.error e,db') →
      db' = done.foldl (fun db b => (undo b db).2) db
  | [], _, _, _, _, _, h => by cases h
  | b::rest, done, db, db', hn, hp, h => by
    obtain ⟨hb,hn⟩ := List.nodup_cons.mp hn
    have hpb := hp b List.mem_cons_self
    rw [applyAll] at h
    cases hstep : apply b db with
    | mk status db₁ =>
      rw [hstep] at h
      cases status with
      | ok u =>
        have hrest : ∀ c ∈ rest, P db₁ c.1 := by
          intro c hc
          have hne : c.1 ≠ b.1 := fun heq => hb (heq ▸ List.mem_map_of_mem hc)
          exact hr.keeps b c.1 db db₁ hne (hp c (List.mem_cons_of_mem b hc)) hstep
        rw [applyAll_error hr rest (b::done) db₁ db' hn hrest h,List.foldl_cons,
          hr.undoes b db db₁ hpb hstep]
      | error e' =>
        rw [hr.refuses b db db₁ e' hpb hstep] at h
        exact (Prod.mk.inj h).2.symm

theorem maintain_error {P : Database → String → Prop} {rows : List Row}
    {clash : IndexMetadata → List Key → Bool}
    {apply undo : String × List Key → Database → Status × Database} (hn : Named db)
    (hr : Reversible P apply undo) (hp : ∀ i ∈ db.listTableIndexes table, P db i.name)
    (h : maintain false rows clash apply undo table db = (.error e,db')) : db' = db := by
  rw [maintain] at h
  cases hprep : prepare db rows clash (db.listTableIndexes table) with
  | error e' =>
    rw [hprep] at h
    simpa using (Prod.mk.inj h).2.symm
  | throws =>
    rw [hprep] at h
    cases h
  | ok prepared =>
    rw [hprep] at h
    have hnames := forall₂_names (prepare_ok hprep)
    have hnodup : (prepared.map Prod.fst).Nodup := by
      rw [hnames]
      exact hn.sublist (List.filter_sublist.map _)
    have hready : ∀ b ∈ prepared, P db b.1 := by
      intro b hb
      have hmem : b.1 ∈ prepared.map Prod.fst := List.mem_map_of_mem hb
      rw [hnames] at hmem
      obtain ⟨i,hi,hname⟩ := List.mem_map.mp hmem
      exact hname ▸ hp i hi
    cases hrun : applyAll false apply undo [] prepared db with
    | mk status db₁ =>
      simp only [hrun] at h
      obtain ⟨hs,rfl⟩ := Prod.mk.inj h
      cases status with
      | ok u => cases hs
      | error e' => exact applyAll_error hr prepared [] db db₁ hnodup hready hrun

/-! ### One entry -/

theorem insertEntry_eq_ok : insertEntry false name key rid db = (.ok (),db') ↔
    ∃ i, db.findIndex name = .ok i ∧ ¬ (i.isUnique ∧ (db.trees name).getValue key ≠ []) ∧
      (key,rid) ∉ db.trees name ∧
      db' = db.setTree name ((db.trees name).orderedInsert entryLe (key,rid)) := by
  rw [insertEntry]
  cases hi : db.findIndex name with
  | error e => simp
  | ok i =>
    dsimp only
    by_cases hu : i.isUnique ∧ (db.trees name).getValue key ≠ []
    · rw [if_pos hu]
      simp [hu]
    · rw [if_neg hu,Tree.insert]
      by_cases hm : (key,rid) ∈ db.trees name
      · rw [if_pos hm]
        simp [hm,fail]
      · rw [if_neg hm]
        simp only [Prod.mk.injEq,true_and,Except.ok.injEq,exists_eq_left',hu,hm,not_false_iff]
        exact eq_comm

theorem insertEntry_error (h : insertEntry false name key rid db = (.error e,db')) : db' = db := by
  rw [insertEntry] at h
  cases hi : db.findIndex name with
  | error e =>
    rw [hi] at h
    simpa using (Prod.mk.inj h).2.symm
  | ok i =>
    rw [hi] at h
    dsimp only at h
    by_cases hu : i.isUnique ∧ (db.trees name).getValue key ≠ []
    · rw [if_pos hu] at h
      simpa using (Prod.mk.inj h).2.symm
    · rw [if_neg hu] at h
      cases ht : (db.trees name).insert key rid with
      | error e' =>
        rw [ht] at h
        simpa using (Prod.mk.inj h).2.symm
      | ok tree =>
        rw [ht] at h
        cases h

theorem erase_inserted (x : Entry) (tree : Tree) :
    (tree.orderedInsert entryLe x).erase x = tree := by
  induction tree with
  | nil => simp
  | cons y tree ih =>
    rw [List.orderedInsert]
    by_cases hle : entryLe x y
    · rw [if_pos hle]
      simp
    · have hrefl : entryLe x x := (entryLe_total x x).elim id id
      have hne : y ≠ x := by
        rintro rfl
        exact hle hrefl
      rw [if_neg hle,List.erase_cons_tail (by simpa using hne),ih]

/-- What has been inserted is deleted again. -/
theorem deleteEntry_inserted {i : IndexMetadata} (hi : db.findIndex name = .ok i)
    (htree : db.trees name = tree.orderedInsert entryLe (key,rid)) :
    deleteEntry false name key rid db = (.ok (),db.setTree name tree) := by
  have hmem : (key,rid) ∈ tree.orderedInsert entryLe (key,rid) := by simp
  rw [deleteEntry,hi,Tree.remove,htree]
  dsimp only
  rw [if_pos hmem,erase_inserted]

/-- The entries of `OnInsert`, and those of `OnDelete` that take them out. -/
def entryIn (rid : RID) (p : String × List Key) : Database → Status × Database :=
  insertEntry false p.1 (p.2.headD 0) rid

def entryOut (rid : RID) (p : String × List Key) : Database → Status × Database :=
  deleteEntry false p.1 (p.2.headD 0) rid

theorem reversible_insert (rid : RID) :
    Reversible (fun _ _ => True) (entryIn rid) (entryOut rid) where
  keeps _ _ _ _ _ _ _ := trivial
  undoes p db db' _ h := by
    obtain ⟨i,hi,-,-,rfl⟩ := insertEntry_eq_ok.mp h
    have hi' : (db.setTree p.1 ((db.trees p.1).orderedInsert entryLe
      (p.2.headD 0,rid))).findIndex p.1 = .ok i := hi
    rw [entryOut,deleteEntry_inserted hi' (setTree_at ..)]
    simp
  refuses _ _ _ _ _ h := insertEntry_error h

/-! ### The entries of a row, in and out again -/

theorem insertEntry_frame (tree : Tree) (hne : other ≠ name)
    (h : insertEntry false name key rid db = (.ok (),db')) :
    insertEntry false name key rid (db.setTree other tree) = (.ok (),db'.setTree other tree) := by
  obtain ⟨i,hi,hu,hm,rfl⟩ := insertEntry_eq_ok.mp h
  refine insertEntry_eq_ok.mpr ⟨i,hi,?_,?_,?_⟩
  · rwa [setTree_of_ne _ _ hne.symm]
  · rwa [setTree_of_ne _ _ hne.symm]
  · rw [setTree_of_ne _ _ hne.symm,setTree_comm _ _ _ hne]

theorem applyAll_frame (tree : Tree) : ∀ (prepared done : List (String × List Key))
    (db db' : Database), other ∉ prepared.map Prod.fst →
      applyAll false (entryIn rid) (entryOut rid) done prepared db = (.ok (),db') →
      applyAll false (entryIn rid) (entryOut rid) done prepared (db.setTree other tree) =
        (.ok (),db'.setTree other tree)
  | [], _, _, _, _, h => by
    cases h
    rfl
  | p::ps, done, db, db', hn, h => by
    rw [List.map_cons,List.mem_cons,not_or] at hn
    rw [applyAll] at h ⊢
    cases hstep : entryIn rid p db with
    | mk status db₁ =>
      rw [hstep] at h
      cases status with
      | ok u =>
        rw [entryIn] at hstep
        rw [entryIn,insertEntry_frame tree hn.1 hstep]
        exact applyAll_frame tree ps (p::done) db₁ db' hn.2 h
      | error e => cases h

theorem swaps_entryIn {p : String × List Key} (h : entryIn rid p db = (.ok (),db')) :
    Swaps p.1 [] [(p.2.headD 0,rid)] db db' := insertEntry_ok h

/-- The first tree is put back as it was; the others do not see it. -/
theorem applyAll_inserted : ∀ (prepared done done' : List (String × List Key))
    (db db' : Database), (prepared.map Prod.fst).Nodup →
      applyAll false (entryIn rid) (entryOut rid) done prepared db = (.ok (),db') →
      applyAll false (entryOut rid) (entryIn rid) done' prepared db' = (.ok (),db)
  | [], _, _, _, _, _, h => by
    cases h
    rfl
  | p::ps, done, done', db, db', hn, h => by
    obtain ⟨hp,hn⟩ := List.nodup_cons.mp hn
    rw [applyAll] at h ⊢
    cases hstep : entryIn rid p db with
    | mk status db₁ =>
      rw [hstep] at h
      cases status with
      | ok u =>
        have hrest : Applied (fun _ => []) (fun keys => [(keys.headD 0,rid)]) ps db₁ db' :=
          applyAll_ok (fun _ _ _ => swaps_entryIn) ps (p::done) db₁ db' hn h
        obtain ⟨i,hi,-,-,hdb₁⟩ := insertEntry_eq_ok.mp hstep
        have hindex : db'.findIndex p.1 = .ok i := by
          rw [Database.findIndex,hrest.indexes,hdb₁]
          exact hi
        have htree : db'.trees p.1 =
            (db.trees p.1).orderedInsert entryLe (p.2.headD 0,rid) := by
          rw [hrest.others _ hp,hdb₁,setTree_at]
        have hback : db₁.setTree p.1 (db.trees p.1) = db := by
          rw [hdb₁,setTree_setTree,setTree_self]
        have hframe := applyAll_frame (db.trees p.1) ps (p::done) db₁ db' hp h
        rw [hback] at hframe
        rw [entryOut,deleteEntry_inserted hindex htree]
        exact applyAll_inserted ps (p::done) (p::done') db _ hn hframe
      | error e => cases h

theorem keysOf_congr (h : db'.tables = db.tables) (i : IndexMetadata) (rows : List Row) :
    keysOf db' i rows = keysOf db i rows := by
  rw [keysOf,keysOf,indexedColumn_congr h]

/-- The keys are found again, whatever the check of the unique ones was. -/
theorem prepare_again {rows : List Row} {clash : IndexMetadata → List Key → Bool}
    (ht : db'.tables = db.tables) : ∀ {is : List IndexMetadata} {prepared : List (String × List Key)},
      prepare db rows clash is = .ok prepared →
      prepare db' rows (fun _ _ => false) is = .ok prepared
  | [], _, h => h
  | i::is, prepared, h => by
    rw [prepare] at h ⊢
    rw [keysOf_congr ht]
    cases hk : keysOf db i rows with
    | error e =>
      rw [hk] at h
      cases h
    | throws =>
      rw [hk] at h
      cases h
    | ok keys =>
      rw [hk] at h
      dsimp only at h ⊢
      by_cases hc : clash i keys = true
      · rw [if_pos hc] at h
        cases h
      rw [if_neg hc] at h
      cases hr : prepare db rows clash is with
      | error e =>
        rw [hr] at h
        cases h
      | throws =>
        rw [hr] at h
        cases h
      | ok rest =>
        rw [hr] at h
        rw [if_neg Bool.false_ne_true,prepare_again ht hr]
        exact h

/-- The check of a unique index in `OnInsert`. -/
def keyTaken (db : Database) (i : IndexMetadata) (keys : List Key) : Bool :=
  i.isUnique ∧ keys.any fun key => (db.trees i.name).getValue key ≠ []

theorem onInsert_eq : onInsert false table row rid db =
    maintain false [row] (keyTaken db) (entryIn rid) (entryOut rid) table db := rfl

theorem onDelete_eq : onDelete false table row rid db =
    maintain false [row] (fun _ _ => false) (entryOut rid) (entryIn rid) table db := rfl

theorem onInsert_error (hn : Named db)
    (h : onInsert false table row rid db = (.error e,db')) : db' = db :=
  maintain_error hn (reversible_insert rid) (fun _ _ => trivial) h

/-- `OnDelete` right after `OnInsert`. -/
theorem onInsert_onDelete (hn : Named db) (h : onInsert false table row rid db = (.ok (),db')) :
    onDelete false table row rid db' = (.ok (),db) := by
  have hm := onInsert_ok hn h
  rw [onInsert_eq,maintain] at h
  cases hprep : prepare db [row] (keyTaken db) (db.listTableIndexes table) with
  | error e =>
    rw [hprep] at h
    cases h
  | throws =>
    rw [hprep] at h
    cases h
  | ok prepared =>
    rw [hprep] at h
    have hlist : db'.listTableIndexes table = db.listTableIndexes table := by
      rw [Database.listTableIndexes,hm.indexes]
      rfl
    have hnames : (prepared.map Prod.fst).Nodup := by
      rw [forall₂_names (prepare_ok hprep)]
      exact hn.sublist (List.filter_sublist.map _)
    have hagain := prepare_again hm.tables hprep
    have hrun : applyAll false (entryIn rid) (entryOut rid) [] prepared db = (.ok (),db') := by
      cases happ : applyAll false (entryIn rid) (entryOut rid) [] prepared db with
      | mk status db₁ =>
        simp only [happ] at h
        obtain ⟨hs,rfl⟩ := Prod.mk.inj h
        cases status with
        | ok u => rfl
        | error e => cases hs
    have hout := applyAll_inserted prepared [] [] db db' hnames hrun
    rw [onDelete_eq,maintain,hlist,hagain]
    simp only [hout,Outcome.ofResult]

/-! ### Rows -/

theorem eraseP_insertIdx {rows : List (RID × Row)} (h : rid ∉ rows.map Prod.fst) (k : ℕ)
    (hk : k ≤ rows.length) :
    (rows.insertIdx k (rid,row)).eraseP (fun e => e.1 = rid) = rows := by
  induction rows generalizing k with
  | nil =>
    obtain rfl := Nat.le_zero.mp hk
    simp
  | cons x rows ih =>
    rw [List.map_cons,List.mem_cons,not_or] at h
    cases k with
    | zero => simp
    | succ k =>
      rw [List.insertIdx_succ_cons,List.eraseP_cons_of_neg (by simpa using Ne.symm h.1),
        ih h.2 k (Nat.le_of_succ_le_succ hk)]

theorem deleteRow_inserted (h : t.insertRow place row = .ok (rid,t')) : t'.deleteRow rid = .ok t := by
  have hmem := (Table.insertRow_ok h).2.2
  rw [Table.insertRow] at h
  cases he : RowCodec.encode t.schema row with
  | error e =>
    rw [he] at h
    cases h
  | ok record =>
    rw [he] at h
    dsimp only at h
    by_cases hs : Storage.SlottedPage.kMaxRecordSize < record.length
    · rw [if_pos hs] at h
      cases h
    rw [if_neg hs] at h
    obtain ⟨rfl,rfl⟩ := Prod.mk.inj (Except.ok.inj h)
    have hin : t.freeRid place.rid ∈ (⟨t.schema,t.rows.insertIdx
        (min place.position t.rows.length) (t.freeRid place.rid,row)⟩ : Table).rids :=
      List.mem_map.mpr ⟨_,hmem.symm.subset List.mem_cons_self,rfl⟩
    rw [Table.deleteRow,if_pos hin,eraseP_insertIdx (t.freeRid_notMem _) _ (Nat.min_le_right ..)]

theorem discardRow_inserted (ht : db.tables table = some t)
    (h : t.insertRow place row = .ok (rid,t')) : discardRow table rid (db.setTable table t') = db := by
  have hself : Function.update db.tables table (some t) = db.tables := by
    rw [← ht,Function.update_eq_self]
  rw [discardRow,setTable_at]
  dsimp only
  rw [deleteRow_inserted h]
  simp [Database.setTable,hself]

/-- By induction on the rows to come: what undoing the rows so far leads to is where the
statement began. -/
theorem insertRows_error : ∀ {rows : List (Place × Row)} {done : List (RID × Row)}
    {db db' : Database}, Named db → insertRows false table done rows db = (.error e,db') →
      db' = rollbackDirect false table done db
  | [], _, _, _, _, h => by cases h
  | (place,row)::rest, done, db, db', hn, h => by
    rw [insertRows] at h
    cases ht : db.tables table with
    | none =>
      rw [ht] at h
      cases h
    | some t =>
      rw [ht] at h
      dsimp only at h
      cases hi : t.insertRow place row with
      | error e' =>
        rw [hi] at h
        simpa using (Prod.mk.inj h).2.symm
      | ok inserted =>
        obtain ⟨rid,t'⟩ := inserted
        rw [hi] at h
        dsimp only at h
        cases ho : onInsert false table row rid (db.setTable table t') with
        | mk o db₁ =>
          rw [ho] at h
          have hback := discardRow_inserted ht hi
          cases o with
          | ok u =>
            have hn₁ : Named (db.setTable table t') := hn
            have hm := onInsert_ok hn₁ ho
            have hnamed : Named db₁ := by
              rw [Named,hm.indexes]
              exact hn
            rw [insertRows_error hnamed h]
            simp only [rollbackDirect,Bool.false_eq_true,if_false,List.foldl_cons]
            rw [onInsert_onDelete hn₁ ho,hback]
          | throws => cases h
          | error e' =>
            have hn₁ : Named (db.setTable table t') := hn
            rw [onInsert_error hn₁ ho] at h
            rw [← (Prod.mk.inj h).2]
            simp only [Bool.false_eq_true,if_false]
            rw [hback]

/-- A failing INSERT without a transaction leaves the rows and the trees as they were. -/
theorem insert_all_or_nothing {rows : List (Place × Row)} (hn : Named db)
    (h : insert false table rows db = (.error e,db')) : db' = db := by
  rw [insert] at h
  cases ht : requireMetadata db table with
  | error e' =>
    rw [ht] at h
    exact (Prod.mk.inj h).2.symm
  | ok t =>
    rw [ht] at h
    rw [insertRows_error hn h]
    rfl

/-- The key 1 twice: the second row is refused, and the first one goes again. -/
theorem insert_all_or_nothing_twice : ∃ db',
    insert false "t" [(⟨⟨0,0⟩,0⟩,[.int 1]),(⟨⟨0,1⟩,1⟩,[.int 1])] sampleIndexed =
      (.error (contextualize "InsertExecutor" duplicateKey),db') ∧ db' = sampleIndexed := by
  have hn : Named sampleIndexed := by
    rw [Named]
    decide
  have hfst : (insert false "t" [(⟨⟨0,0⟩,0⟩,[.int 1]),(⟨⟨0,1⟩,1⟩,[.int 1])] sampleIndexed).1 =
      .error (contextualize "InsertExecutor" duplicateKey) := by decide
  have h : insert false "t" [(⟨⟨0,0⟩,0⟩,[.int 1]),(⟨⟨0,1⟩,1⟩,[.int 1])] sampleIndexed =
      (.error (contextualize "InsertExecutor" duplicateKey),
        (insert false "t" [(⟨⟨0,0⟩,0⟩,[.int 1]),(⟨⟨0,1⟩,1⟩,[.int 1])] sampleIndexed).2) :=
    Prod.ext hfst rfl
  exact ⟨_,h,insert_all_or_nothing hn h⟩

end Execution
end OurSql
