import OurSql.Execution.InsertUndo
import OurSql.Execution.Keys
import OurSql.Execution.Where

/-! The calls of `IndexManager` that keep the indexes beside the rows: they serve every index, or
leave the trees alone, unless they come to a NULL. -/
namespace OurSql
namespace Execution

open Data Index Expression
open Catalog (IndexMetadata)

variable {transaction : Bool} {db db' : Database} {table name : String} {t : Table}
  {row oldRow newRow : Row} {rid oldRid newRid : RID} {key oldKey newKey : Key} {column : ℕ}
  {tree : Tree} {e : Failure} {i : IndexMetadata} {rows : List Row}

/-! ### Deleted and updated entries go back -/

/-- The tree of an index in order, without a pair twice, or a key twice if it is unique. -/
structure Ready (db : Database) (name : String) : Prop where
  sorted : Sorted (db.trees name)
  nodup : (db.trees name).Nodup
  unique : ∀ i, db.findIndex name = .ok i → i.isUnique = true → KeysNodup (db.trees name)

theorem Ready.setTree_of_ne {other : String} (h : Ready db other) (tree : Tree)
    (hne : other ≠ name) : Ready (db.setTree name tree) other where
  sorted := by
    rw [Execution.setTree_of_ne _ _ hne]
    exact h.sorted
  nodup := by
    rw [Execution.setTree_of_ne _ _ hne]
    exact h.nodup
  unique i hi hu := by
    rw [Execution.setTree_of_ne _ _ hne]
    exact h.unique i hi hu

theorem inserted_erase {x : Entry} (hs : Sorted tree) (hm : x ∈ tree) :
    (tree.erase x).orderedInsert entryLe x = tree := by
  have hperm : ((tree.erase x).orderedInsert entryLe x).Perm tree :=
    (List.perm_orderedInsert entryLe x _).trans (List.perm_cons_erase hm).symm
  have hsorted : Sorted ((tree.erase x).orderedInsert entryLe x) :=
    (hs.sublist List.erase_sublist).orderedInsert x _
  exact hperm.eq_of_pairwise (fun a b _ _ => entryLe_antisymm) hsorted hs

/-- A unique index has no second entry of a key. -/
theorem getValue_erase (hk : KeysNodup tree) (hm : (key,rid) ∈ tree) :
    Tree.getValue (tree.erase (key,rid)) key = [] := by
  have hperm := (List.perm_cons_erase hm).map Prod.fst
  have hnot := (List.nodup_cons.mp (hperm.nodup_iff.mp hk)).1
  rw [List.eq_nil_iff_forall_not_mem]
  intro r hr
  exact hnot (List.mem_map.mpr ⟨(key,r),mem_getValue.mp hr,rfl⟩)

theorem deleteEntry_eq_ok : deleteEntry false name key rid db = (.ok (),db') ↔
    ∃ i, db.findIndex name = .ok i ∧ (key,rid) ∈ db.trees name ∧
      db' = db.setTree name ((db.trees name).erase (key,rid)) := by
  rw [deleteEntry]
  cases hi : db.findIndex name with
  | error e => simp
  | ok i =>
    dsimp only
    rw [Tree.remove]
    by_cases hm : (key,rid) ∈ db.trees name
    · rw [if_pos hm]
      simp only [Prod.mk.injEq,true_and,Except.ok.injEq,exists_eq_left',hm]
      exact eq_comm
    · rw [if_neg hm]
      simp [hm,fail]

theorem deleteEntry_error (h : deleteEntry false name key rid db = (.error e,db')) : db' = db := by
  rw [deleteEntry] at h
  cases hi : db.findIndex name with
  | error e =>
    rw [hi] at h
    simpa using (Prod.mk.inj h).2.symm
  | ok i =>
    rw [hi] at h
    dsimp only at h
    cases ht : (db.trees name).remove key rid with
    | error e' =>
      rw [ht] at h
      simpa using (Prod.mk.inj h).2.symm
    | ok tree =>
      rw [ht] at h
      cases h

theorem reversible_delete (rid : RID) : Reversible Ready (entryOut rid) (entryIn rid) where
  keeps b name db db' hne hp h := by
    obtain ⟨i,-,-,rfl⟩ := deleteEntry_eq_ok.mp h
    exact hp.setTree_of_ne _ hne
  undoes b db db' hp h := by
    obtain ⟨i,hi,hm,rfl⟩ := deleteEntry_eq_ok.mp h
    have hback : insertEntry false b.1 (b.2.headD 0) rid
        (db.setTree b.1 ((db.trees b.1).erase (b.2.headD 0,rid))) = (.ok (),db) := by
      refine insertEntry_eq_ok.mpr ⟨i,hi,?_,?_,?_⟩
      · rw [setTree_at]
        rintro ⟨hu,hne⟩
        exact hne (getValue_erase (hp.unique i hi hu) hm)
      · rw [setTree_at]
        exact hp.nodup.not_mem_erase
      · rw [setTree_at,setTree_setTree,inserted_erase hp.sorted hm,setTree_self]
    rw [entryIn,hback]
  refuses b db db' e _ h := deleteEntry_error h

/-- An entry that is changed: nothing to do, or the old pair goes and the new one comes. -/
theorem updateEntry_eq_ok : updateEntry false name oldKey oldRid newKey newRid db = (.ok (),db') ↔
    (oldKey = newKey ∧ oldRid = newRid ∧ db' = db) ∨
    (¬ (oldKey = newKey ∧ oldRid = newRid) ∧ ∃ i, db.findIndex name = .ok i ∧
      (i.isUnique = true → ∀ r ∈ (db.trees name).getValue newKey, r = oldRid) ∧
      (oldKey,oldRid) ∈ db.trees name ∧
      (newKey,newRid) ∉ (db.trees name).erase (oldKey,oldRid) ∧
      db' = db.setTree name (((db.trees name).erase (oldKey,oldRid)).orderedInsert entryLe
        (newKey,newRid))) := by
  rw [updateEntry]
  by_cases hsame : oldKey = newKey ∧ oldRid = newRid
  · rw [if_pos hsame]
    simp only [Prod.mk.injEq,true_and,hsame,not_true,false_and,or_false]
    exact eq_comm
  rw [if_neg hsame]
  have hleft : ¬ (oldKey = newKey ∧ oldRid = newRid ∧ db' = db) := fun h => hsame ⟨h.1,h.2.1⟩
  rw [or_iff_right hleft,and_iff_right hsame]
  cases hi : db.findIndex name with
  | error e => simp
  | ok i =>
    dsimp only
    simp only [Except.ok.injEq,exists_eq_left']
    by_cases hu : i.isUnique ∧ ((db.trees name).getValue newKey).any (· ≠ oldRid)
    · rw [if_pos hu]
      obtain ⟨hunique,hany⟩ := hu
      obtain ⟨r,hr,hne⟩ := List.any_eq_true.mp hany
      have hclash : ¬ (i.isUnique = true → ∀ r ∈ (db.trees name).getValue newKey, r = oldRid) :=
        fun h => (of_decide_eq_true hne) (h hunique r hr)
      simp [hclash]
    have hfree : i.isUnique = true → ∀ r ∈ (db.trees name).getValue newKey, r = oldRid := by
      intro hunique r hr
      by_contra hne
      exact hu ⟨hunique,List.any_eq_true.mpr ⟨r,hr,decide_eq_true hne⟩⟩
    rw [if_neg hu,and_iff_right hfree,Tree.remove]
    by_cases hm : (oldKey,oldRid) ∈ db.trees name
    · rw [if_pos hm,and_iff_right hm]
      dsimp only
      rw [Tree.insert]
      by_cases hnew : (newKey,newRid) ∈ (db.trees name).erase (oldKey,oldRid)
      · rw [if_pos hnew]
        simp [hnew,fail]
      · rw [if_neg hnew,and_iff_right hnew]
        simp only [Prod.mk.injEq,true_and]
        exact eq_comm
    · rw [if_neg hm]
      simp [hm,fail]

/-- The old pair, put back in its place when the new one is refused. -/
theorem updateEntry_error (hr : Ready db name)
    (h : updateEntry false name oldKey oldRid newKey newRid db = (.error e,db')) : db' = db := by
  rw [updateEntry] at h
  by_cases hsame : oldKey = newKey ∧ oldRid = newRid
  · rw [if_pos hsame] at h
    cases h
  rw [if_neg hsame] at h
  cases hi : db.findIndex name with
  | error e' =>
    rw [hi] at h
    simpa using (Prod.mk.inj h).2.symm
  | ok i =>
    rw [hi] at h
    dsimp only at h
    by_cases hu : i.isUnique ∧ ((db.trees name).getValue newKey).any (· ≠ oldRid)
    · rw [if_pos hu] at h
      simpa using (Prod.mk.inj h).2.symm
    rw [if_neg hu] at h
    by_cases hm : (oldKey,oldRid) ∈ db.trees name
    · have hremove : (db.trees name).remove oldKey oldRid =
          .ok ((db.trees name).erase (oldKey,oldRid)) := if_pos hm
      have hback : Tree.insert ((db.trees name).erase (oldKey,oldRid)) oldKey oldRid =
          .ok (db.trees name) := by
        rw [Tree.insert,if_neg hr.nodup.not_mem_erase,inserted_erase hr.sorted hm]
      rw [hremove] at h
      dsimp only at h
      cases hins : Tree.insert ((db.trees name).erase (oldKey,oldRid)) newKey newRid with
      | ok tree =>
        rw [hins] at h
        cases h
      | error e' =>
        rw [hins] at h
        simp only [Bool.false_eq_true,if_false] at h
        rw [hback] at h
        simpa using (Prod.mk.inj h).2.symm
    · have hremove : (db.trees name).remove oldKey oldRid =
          fail .notFound "B+树未找到指定的Key/RID" := if_neg hm
      rw [hremove] at h
      simpa [fail] using (Prod.mk.inj h).2.symm

/-- The entries of `OnUpdate`, and those that take them back. -/
def entryOver (oldRid newRid : RID) (p : String × List Key) : Database → Status × Database :=
  updateEntry false p.1 (p.2.headD 0) oldRid (p.2.getD 1 0) newRid

def entryBack (oldRid newRid : RID) (p : String × List Key) : Database → Status × Database :=
  updateEntry false p.1 (p.2.getD 1 0) newRid (p.2.headD 0) oldRid

theorem updateEntry_updated (hr : Ready db name)
    (h : updateEntry false name oldKey oldRid newKey newRid db = (.ok (),db')) :
    updateEntry false name newKey newRid oldKey oldRid db' = (.ok (),db) := by
  rcases updateEntry_eq_ok.mp h with ⟨hk,hrid,rfl⟩ | ⟨hne,i,hi,-,hm,-,rfl⟩
  · exact updateEntry_eq_ok.mpr (.inl ⟨hk.symm,hrid.symm,rfl⟩)
  have hnew : (newKey,newRid) ∈ ((db.trees name).erase (oldKey,oldRid)).orderedInsert entryLe
      (newKey,newRid) := by simp
  refine updateEntry_eq_ok.mpr (.inr ⟨fun hsame => hne ⟨hsame.1.symm,hsame.2.symm⟩,i,hi,?_,?_,?_,?_⟩)
  · -- no pair has the old key but the one that has come
    intro hu r hmem
    rw [setTree_at,mem_getValue,List.mem_orderedInsert] at hmem
    rcases hmem with heq | hmem
    · exact (Prod.mk.inj heq).2
    · have hnone := getValue_erase (hr.unique i hi hu) hm
      rw [← mem_getValue,hnone] at hmem
      cases hmem
  · rwa [setTree_at]
  · rw [setTree_at,erase_inserted]
    exact hr.nodup.not_mem_erase
  · rw [setTree_at,setTree_setTree,erase_inserted,inserted_erase hr.sorted hm,setTree_self]

theorem reversible_update (oldRid newRid : RID) :
    Reversible Ready (entryOver oldRid newRid) (entryBack oldRid newRid) where
  keeps b name db db' hne hp h := by
    rcases updateEntry_eq_ok.mp h with ⟨-,-,rfl⟩ | ⟨-,i,-,-,-,-,rfl⟩
    · exact hp
    · exact hp.setTree_of_ne _ hne
  undoes b db db' hp h := by
    rw [entryBack,updateEntry_updated hp h]
  refuses b db db' e hp h := updateEntry_error hp h

/-! ### The keys of the rows -/

/-- The indexed column of the row is NULL. -/
def NullIn (db : Database) (i : IndexMetadata) (row : Row) : Prop :=
  ∃ column, indexedColumn db i = .ok column ∧ row[column]? = some .null

/-- The indexes come, one after the other, to a NULL in one of the rows before one of them refuses
its key. -/
def MeetsNull (db : Database) (rows : List Row) (refuses : IndexMetadata → Prop)
    (is : List IndexMetadata) : Prop :=
  ∃ front i back, is = front ++ i::back ∧ (∃ row ∈ rows, NullIn db i row) ∧
    ∀ j ∈ front, (∀ row ∈ rows, ¬ NullIn db j row) ∧ ¬ refuses j

/-- The indexes that the engine lets a table have are on INT columns of it. -/
def OnInts (db : Database) (table : String) : Prop :=
  ∀ i ∈ db.listTableIndexes table, ∃ column, indexedColumn db i = .ok column

theorem indexedColumn_int (h : indexedColumn db i = .ok column)
    (ht : db.tables i.tableName = some t) :
    ∃ hlt : column < t.schema.length, t.schema[column].type = .int := by
  rw [indexedColumn,ht] at h
  dsimp only at h
  cases hf : findColumnIndex t.schema i.columnName with
  | none =>
    rw [hf] at h
    cases h
  | some c =>
    rw [hf] at h
    dsimp only at h
    by_cases hne : (t.schema.getD c ⟨"",.null,none,true⟩).type ≠ .int
    · rw [if_pos hne] at h
      cases h
    rw [if_neg hne] at h
    cases h
    obtain ⟨hlt,-⟩ := List.findIdx?_eq_some_iff_findIdx_eq.mp hf
    have htype := not_not.mp hne
    rw [List.getD_eq_getElem?_getD,List.getElem?_eq_getElem hlt] at htype
    exact ⟨hlt,htype⟩

/-- A row of the schema has NULL or an INT in an indexed column. -/
theorem indexed_value (h : indexedColumn db i = .ok column)
    (ht : db.tables i.tableName = some t) (hrow : RowConforms t.schema row) :
    row[column]? = some .null ∨ ∃ n, row[column]? = some (.int n) := by
  obtain ⟨hlt,htype⟩ := indexedColumn_int h ht
  have hrlt : column < row.length := hrow.length_eq ▸ hlt
  rw [List.getElem?_eq_getElem hrlt]
  rcases (List.forall₂_iff_get.mp hrow).2 column hlt hrlt with hnull | hint
  · exact .inl (congrArg some hnull)
  · refine .inr ?_
    have hint : row[column].type = .int := hint.trans htype
    cases hv : row[column] with
    | int n => exact ⟨n,rfl⟩
    | null =>
      rw [hv] at hint
      cases hint
    | varchar text =>
      rw [hv] at hint
      cases hint

theorem meetsNull_cons {refuses : IndexMetadata → Prop} {is : List IndexMetadata} :
    MeetsNull db rows refuses (i::is) ↔ (∃ row ∈ rows, NullIn db i row) ∨
      ((∀ row ∈ rows, ¬ NullIn db i row) ∧ ¬ refuses i ∧ MeetsNull db rows refuses is) := by
  constructor
  · rintro ⟨front,j,back,heq,hnull,hfront⟩
    cases front with
    | nil =>
      obtain ⟨rfl,rfl⟩ := List.cons.inj heq
      exact .inl hnull
    | cons k front =>
      obtain ⟨rfl,rfl⟩ := List.cons.inj heq
      obtain ⟨hi,hr⟩ := hfront i List.mem_cons_self
      exact .inr ⟨hi,hr,front,j,back,rfl,hnull,fun l hl => hfront l (List.mem_cons_of_mem i hl)⟩
  · rintro (hnull | ⟨hi,hr,front,j,back,rfl,hnull,hfront⟩)
    · exact ⟨[],i,is,rfl,hnull,fun _ h => absurd h List.not_mem_nil⟩
    · refine ⟨i::front,j,back,rfl,hnull,fun l hl => ?_⟩
      rcases List.mem_cons.mp hl with rfl | hl
      · exact ⟨hi,hr⟩
      · exact hfront l hl

theorem asInt_null (h : row[column]? = some .null) : asInt row column = none := by
  simp [asInt,h]

theorem asInt_int {n : Int64} (h : row[column]? = some (.int n)) :
    asInt row column = some n.toInt := by
  simp [asInt,h]

theorem mapM_none (h : ∃ row ∈ rows, asInt row column = none) :
    (rows.mapM fun row => asInt row column) = none := by
  induction rows with
  | nil =>
    obtain ⟨row,hrow,-⟩ := h
    cases hrow
  | cons r rows ih =>
    rw [List.mapM_cons]
    cases hr : asInt r column with
    | none => rfl
    | some key =>
      obtain ⟨row,hrow,hnone⟩ := h
      rcases List.mem_cons.mp hrow with rfl | hrow
      · rw [hr] at hnone
        cases hnone
      · rw [ih ⟨row,hrow,hnone⟩]
        rfl

theorem mapM_some (h : ∀ row ∈ rows, ∃ key, asInt row column = some key) :
    ∃ keys, (rows.mapM fun row => asInt row column) = some keys := by
  induction rows with
  | nil => exact ⟨[],rfl⟩
  | cons r rows ih =>
    obtain ⟨key,hkey⟩ := h r List.mem_cons_self
    obtain ⟨keys,hkeys⟩ := ih fun row hrow => h row (List.mem_cons_of_mem r hrow)
    exact ⟨key::keys,by rw [List.mapM_cons,hkey,hkeys]; rfl⟩

section call

variable {is : List IndexMetadata}

/-- The keys of rows of the schema: there, or an exception. -/
theorem keysOf_cases (hc : indexedColumn db i = .ok column) (ht : db.tables i.tableName = some t)
    (hrows : ∀ row ∈ rows, RowConforms t.schema row) :
    ((∃ row ∈ rows, NullIn db i row) ∧ keysOf db i rows = .throws) ∨
      ((∀ row ∈ rows, ¬ NullIn db i row) ∧ ∃ keys, keysOf db i rows = .ok keys ∧
        (rows.mapM fun row => asInt row column) = some keys) := by
  have hlong : ¬ (rows.any fun row => row.length ≤ column) = true := by
    intro hany
    obtain ⟨row,hrow,hle⟩ := List.any_eq_true.mp hany
    obtain ⟨hlt,-⟩ := indexedColumn_int hc ht
    have hlength := (hrows row hrow).length_eq
    exact absurd (of_decide_eq_true hle) (Nat.not_le.mpr (hlength ▸ hlt))
  by_cases hnull : ∃ row ∈ rows, NullIn db i row
  · refine .inl ⟨hnull,?_⟩
    obtain ⟨row,hrow,c,hc',hv⟩ := hnull
    rw [hc,Except.ok.injEq] at hc'
    subst hc'
    rw [keysOf,hc]
    dsimp only
    rw [if_neg hlong,mapM_none ⟨row,hrow,asInt_null hv⟩]
  · have hnot : ∀ row ∈ rows, ¬ NullIn db i row := fun row hrow h => hnull ⟨row,hrow,h⟩
    have hkeys : ∀ row ∈ rows, ∃ key, asInt row column = some key := by
      intro row hrow
      rcases indexed_value hc ht (hrows row hrow) with hv | ⟨n,hv⟩
      · exact absurd ⟨column,hc,hv⟩ (hnot row hrow)
      · exact ⟨n.toInt,asInt_int hv⟩
    obtain ⟨keys,hk⟩ := mapM_some hkeys
    refine .inr ⟨hnot,keys,?_,hk⟩
    rw [keysOf,hc]
    dsimp only
    rw [if_neg hlong,hk]

/-- By induction on the indexes. -/
theorem prepare_throws {clash : IndexMetadata → List Key → Bool} {refuses : IndexMetadata → Prop}
    (hon : ∀ i ∈ is, i.tableName = table ∧ ∃ column, indexedColumn db i = .ok column)
    (ht : db.tables table = some t) (hrows : ∀ row ∈ rows, RowConforms t.schema row)
    (hclash : ∀ i ∈ is, ∀ keys, keysOf db i rows = .ok keys → (clash i keys = true ↔ refuses i)) :
    prepare db rows clash is = .throws ↔ MeetsNull db rows refuses is := by
  induction is with
  | nil =>
    constructor
    · intro h
      cases h
    · rintro ⟨front,i,back,heq,-⟩
      cases front <;> cases heq
  | cons i is ih =>
    obtain ⟨hname,column,hc⟩ := hon i List.mem_cons_self
    have ih := ih (fun j hj => hon j (List.mem_cons_of_mem i hj))
      fun j hj => hclash j (List.mem_cons_of_mem i hj)
    rw [prepare,meetsNull_cons]
    rcases keysOf_cases hc (hname ▸ ht) hrows with ⟨hnull,hk⟩ | ⟨hnot,keys,hk,-⟩
    · rw [hk]
      simp [hnull]
    · have hnone : ¬ ∃ row ∈ rows, NullIn db i row := by
        rintro ⟨row,hrow,h⟩
        exact hnot row hrow h
      have hrefuses := hclash i List.mem_cons_self keys hk
      rw [hk,or_iff_right hnone,and_iff_right hnot]
      dsimp only
      by_cases hcl : clash i keys = true
      · rw [if_pos hcl]
        simp [hrefuses.mp hcl]
      · rw [if_neg hcl,← ih,← hrefuses,and_iff_right hcl]
        cases prepare db rows clash is <;> simp

end call

/-! ### What a call comes to -/

/-- The call has served the indexes, or it returns an error and has changed nothing, which in a
transaction is left to its rollback. -/
def Settled (transaction : Bool) (served : Database → Prop) (db : Database)
    (r : Outcome Unit × Database) : Prop :=
  (r.1 = .ok () ∧ served r.2) ∨
    ∃ e, r.1 = .error e ∧ if transaction then r.2.failed = true else r.2 = db

theorem maintain_failed {clash : IndexMetadata → List Key → Bool}
    {apply undo : String × List Key → Database → Status × Database}
    (h : maintain true rows clash apply undo table db = (.error e,db')) : db'.failed = true := by
  rw [maintain] at h
  cases hprep : prepare db rows clash (db.listTableIndexes table) with
  | error e' =>
    rw [hprep] at h
    rw [← (Prod.mk.inj h).2]
    simp [Database.mark]
  | throws =>
    rw [hprep] at h
    cases h
  | ok prepared =>
    rw [hprep] at h
    have happly : ∀ (rest done : List (String × List Key)) (db db' : Database),
        applyAll true apply undo done rest db = (.error e,db') → db'.failed = true := by
      intro rest
      induction rest with
      | nil =>
        intro done db db' h
        cases h
      | cons b rest ih =>
        intro done db db' h
        rw [applyAll] at h
        cases hstep : apply b db with
        | mk status db₁ =>
          rw [hstep] at h
          cases status with
          | ok u => exact ih (b::done) db₁ db' h
          | error e' =>
            rw [← (Prod.mk.inj h).2]
            simp [Database.mark]
    cases hrun : applyAll true apply undo [] prepared db with
    | mk status db₁ =>
      simp only [hrun] at h
      obtain ⟨hs,rfl⟩ := Prod.mk.inj h
      cases status with
      | ok u => cases hs
      | error e' =>
        obtain rfl : e' = e := Outcome.error.inj hs
        exact happly prepared [] db db₁ hrun

/-- A call is settled unless its first loop throws. -/
theorem maintain_settled {clash : IndexMetadata → List Key → Bool} {served : Database → Prop}
    {apply undo : String × List Key → Database → Status × Database} {meets : Prop}
    (hserved : ∀ db', maintain transaction rows clash apply undo table db = (.ok (),db') →
      served db')
    (herror : transaction = false → ∀ e db',
      maintain transaction rows clash apply undo table db = (.error e,db') → db' = db)
    (hthrows : prepare db rows clash (db.listTableIndexes table) = .throws ↔ meets) :
    Settled transaction served db (maintain transaction rows clash apply undo table db) ↔
      ¬ meets := by
  rw [← hthrows]
  cases hm : maintain transaction rows clash apply undo table db with
  | mk o db' =>
    have hprep : prepare db rows clash (db.listTableIndexes table) = .throws ↔ o = .throws := by
      rw [maintain] at hm
      cases hp : prepare db rows clash (db.listTableIndexes table) with
      | error e =>
        rw [hp] at hm
        rw [← (Prod.mk.inj hm).1]
        simp
      | throws =>
        rw [hp] at hm
        simp [← (Prod.mk.inj hm).1]
      | ok prepared =>
        rw [hp] at hm
        rw [← (Prod.mk.inj hm).1]
        cases (applyAll transaction apply undo [] prepared db).1 <;> simp [Outcome.ofResult]
    rw [hprep]
    cases o with
    | throws => simp [Settled]
    | ok u =>
      have hs := hserved db' hm
      simp [Settled,hs]
    | error e =>
      refine iff_of_true (.inr ⟨e,rfl,?_⟩) (by simp)
      cases transaction with
      | true => exact maintain_failed hm
      | false => exact herror rfl e db' hm

/-- A unique index holds the key of the row, for one of the other rows. -/
def KeyHeld (db : Database) (row : Row) (others : RID → Prop) (i : IndexMetadata) : Prop :=
  i.isUnique = true ∧ ∃ column key r, indexedColumn db i = .ok column ∧
    asInt row column = some key ∧ (key,r) ∈ db.trees i.name ∧ others r

theorem on_indexes (hon : OnInts db table) : ∀ i ∈ db.listTableIndexes table,
    i.tableName = table ∧ ∃ column, indexedColumn db i = .ok column := by
  intro i hi
  exact ⟨by simpa using (List.mem_filter.mp hi).2,hon i hi⟩

section calls

variable (hn : Named db) (ht : db.tables table = some t) (hon : OnInts db table)
include hn ht hon

theorem onInsert_settled (hrow : RowConforms t.schema row) :
    Settled transaction (Maintained (fun _ => []) (fun keys => [(keys.headD 0,rid)]) [row] table db)
        db (onInsert transaction table row rid db) ↔
      ¬ MeetsNull db [row] (KeyHeld db row fun _ => True) (db.listTableIndexes table) := by
  have hrows : ∀ r ∈ [row], RowConforms t.schema r := by simpa using hrow
  refine maintain_settled (fun db' h => onInsert_ok hn h) ?_
    (prepare_throws (on_indexes hon) ht hrows ?_)
  · rintro rfl e db' h
    exact onInsert_error hn h
  · intro i hi keys hk
    obtain ⟨-,column,hc,hkeys⟩ := keysOf_ok hk
    obtain ⟨key,hkey,rfl⟩ := mapM_one hkeys
    simp only [List.any_cons,List.any_nil,Bool.or_false,decide_eq_true_eq]
    refine and_congr_right fun _ => ?_
    constructor
    · intro hne
      obtain ⟨r,hr⟩ := List.exists_mem_of_ne_nil _ hne
      exact ⟨column,key,r,hc,hkey,mem_getValue.mp hr,trivial⟩
    · rintro ⟨column',key',r,hc',hkey',hr,-⟩
      rw [hc,Except.ok.injEq] at hc'
      subst hc'
      rw [hkey,Option.some.injEq] at hkey'
      subst hkey'
      exact List.ne_nil_of_mem (mem_getValue.mpr hr)

theorem onDelete_settled (hready : ∀ i ∈ db.listTableIndexes table, Ready db i.name)
    (hrow : RowConforms t.schema row) :
    Settled transaction (Maintained (fun keys => [(keys.headD 0,rid)]) (fun _ => []) [row] table db)
        db (onDelete transaction table row rid db) ↔
      ¬ MeetsNull db [row] (fun _ => False) (db.listTableIndexes table) := by
  have hrows : ∀ r ∈ [row], RowConforms t.schema r := by simpa using hrow
  refine maintain_settled (fun db' h => onDelete_ok hn h) ?_
    (prepare_throws (on_indexes hon) ht hrows ?_)
  · rintro rfl e db' h
    exact maintain_error hn (reversible_delete rid) hready h
  · intro i hi keys hk
    simp

theorem onUpdate_settled (hready : ∀ i ∈ db.listTableIndexes table, Ready db i.name)
    (hold : RowConforms t.schema oldRow) (hnew : RowConforms t.schema newRow) :
    Settled transaction (Maintained (fun keys => [(keys.headD 0,oldRid)])
          (fun keys => [(keys.getD 1 0,newRid)]) [oldRow,newRow] table db)
        db (onUpdate transaction table oldRow oldRid newRow newRid db) ↔
      ¬ MeetsNull db [oldRow,newRow] (KeyHeld db newRow fun r => r ≠ oldRid)
        (db.listTableIndexes table) := by
  have hrows : ∀ r ∈ [oldRow,newRow], RowConforms t.schema r := by
    simp only [List.mem_cons,List.not_mem_nil,or_false,forall_eq_or_imp,forall_eq]
    exact ⟨hold,hnew⟩
  refine maintain_settled (fun db' h => onUpdate_ok hn h) ?_
    (prepare_throws (on_indexes hon) ht hrows ?_)
  · rintro rfl e db' h
    exact maintain_error hn (reversible_update oldRid newRid) hready h
  · intro i hi keys hk
    obtain ⟨-,column,hc,hkeys⟩ := keysOf_ok hk
    obtain ⟨oldKey,newKey,-,hkey,rfl⟩ := mapM_two hkeys
    simp only [decide_eq_true_eq,List.getD_cons_succ,List.getD_cons_zero,List.any_eq_true]
    refine and_congr_right fun _ => ?_
    constructor
    · rintro ⟨r,hr,hne⟩
      exact ⟨column,newKey,r,hc,hkey,mem_getValue.mp hr,hne⟩
    · rintro ⟨column',key',r,hc',hkey',hr,hne⟩
      rw [hc,Except.ok.injEq] at hc'
      subst hc'
      rw [hkey,Option.some.injEq] at hkey'
      subst hkey'
      exact ⟨r,mem_getValue.mpr hr,hne⟩

end calls

/-! ### CREATE INDEX -/

/-- The rows in scan order come to a NULL before a key comes twice in a unique index. -/
def ScanMeetsNull (isUnique : Bool) (column : ℕ) (rows : List (RID × Row)) : Prop :=
  ∃ front e back, rows = front ++ e::back ∧ e.2[column]? = some .null ∧
    (∀ f ∈ front, f.2[column]? ≠ some .null) ∧
    (isUnique = true → (front.map fun f => asInt f.2 column).Nodup)

/-- The same behind the rows that the tree has the keys of. -/
def MeetsNullBehind (isUnique : Bool) (column : ℕ) (tree : Tree) (rows : List (RID × Row)) : Prop :=
  ∃ front e back, rows = front ++ e::back ∧ e.2[column]? = some .null ∧
    (∀ f ∈ front, f.2[column]? ≠ some .null) ∧
    (isUnique = true → (front.map fun f => asInt f.2 column).Nodup ∧
      ∀ f ∈ front, ∀ key, asInt f.2 column = some key → tree.getValue key = [])

theorem getValue_inserted {k : Key} :
    Tree.getValue (tree.orderedInsert entryLe (key,rid)) k = [] ↔ k ≠ key ∧ tree.getValue k = [] := by
  simp only [List.eq_nil_iff_forall_not_mem,mem_getValue,List.mem_orderedInsert,Prod.mk.injEq,not_or]
  constructor
  · intro h
    exact ⟨fun hk => (h rid).1 ⟨hk,rfl⟩,fun r => (h r).2⟩
  · rintro ⟨hk,h⟩ r
    exact ⟨fun hc => hk hc.1,h r⟩

theorem meetsNullBehind_cons {isUnique : Bool} {entries : List (RID × Row)}
    (hk : asInt row column = some key) :
    MeetsNullBehind isUnique column tree ((rid,row)::entries) ↔
      ¬ (isUnique = true ∧ tree.getValue key ≠ []) ∧
        MeetsNullBehind isUnique column (tree.orderedInsert entryLe (key,rid)) entries := by
  have hnotnull : row[column]? ≠ some .null := by
    intro h
    rw [asInt_null h] at hk
    cases hk
  constructor
  · rintro ⟨front,e,back,heq,hnull,hfront,hunique⟩
    cases front with
    | nil =>
      obtain ⟨rfl,-⟩ := List.cons.inj heq
      exact absurd hnull hnotnull
    | cons f front =>
      obtain ⟨rfl,rfl⟩ := List.cons.inj heq
      refine ⟨?_,front,e,back,rfl,hnull,fun g hg => hfront g (List.mem_cons_of_mem _ hg),?_⟩
      · rintro ⟨hu,hne⟩
        exact hne ((hunique hu).2 _ List.mem_cons_self key hk)
      · intro hu
        obtain ⟨hnodup,hfree⟩ := hunique hu
        rw [List.map_cons,List.nodup_cons] at hnodup
        refine ⟨hnodup.2,fun g hg k hgk => getValue_inserted.mpr ⟨?_,?_⟩⟩
        · rintro rfl
          exact hnodup.1 (List.mem_map.mpr ⟨g,hg,hgk.trans hk.symm⟩)
        · exact hfree g (List.mem_cons_of_mem _ hg) k hgk
  · rintro ⟨hfree,front,e,back,rfl,hnull,hfront,hunique⟩
    refine ⟨(rid,row)::front,e,back,rfl,hnull,?_,?_⟩
    · intro g hg
      rcases List.mem_cons.mp hg with rfl | hg
      · exact hnotnull
      · exact hfront g hg
    · intro hu
      obtain ⟨hnodup,hrest⟩ := hunique hu
      have hnone : tree.getValue key = [] := by
        by_contra hne
        exact hfree ⟨hu,hne⟩
      refine ⟨?_,?_⟩
      · rw [List.map_cons,List.nodup_cons]
        refine ⟨fun hmem => ?_,hnodup⟩
        obtain ⟨g,hg,hgk⟩ := List.mem_map.mp hmem
        exact (getValue_inserted.mp (hrest g hg key (hgk.trans hk))).1 rfl
      · intro g hg k hgk
        rcases List.mem_cons.mp hg with rfl | hg
        · rw [hk,Option.some.injEq] at hgk
          exact hgk ▸ hnone
        · exact (getValue_inserted.mp (hrest g hg k hgk)).2

/-- By induction on the rows; no row meets its own pair in the tree. -/
theorem fillTree_throws {isUnique : Bool} : ∀ {entries : List (RID × Row)} {tree : Tree},
    (entries.map Prod.fst).Nodup → (∀ e ∈ entries, ∀ key, (key,e.1) ∉ tree) →
    (∀ e ∈ entries, e.2[column]? = some .null ∨ ∃ n, e.2[column]? = some (.int n)) →
    (fillTree isUnique column tree entries = .throws ↔
      MeetsNullBehind isUnique column tree entries)
  | [], tree, _, _, _ => by
    constructor
    · intro h
      cases h
    · rintro ⟨front,e,back,heq,-⟩
      cases front <;> cases heq
  | (rid,row)::entries, tree, hnodup, hfresh, hvalues => by
    obtain ⟨hrid,hnodup⟩ := List.nodup_cons.mp hnodup
    rw [fillTree]
    rcases hvalues (rid,row) List.mem_cons_self with hnull | ⟨n,hn⟩
    · rw [asInt_null hnull]
      refine iff_of_true rfl ⟨[],(rid,row),entries,rfl,hnull,?_,?_⟩
      · exact fun _ h => absurd h List.not_mem_nil
      · exact fun _ => ⟨List.nodup_nil,fun _ h => absurd h List.not_mem_nil⟩
    · have hk := asInt_int hn
      rw [meetsNullBehind_cons hk,hk]
      dsimp only
      by_cases hu : isUnique = true ∧ tree.getValue n.toInt ≠ []
      · rw [if_pos hu]
        simp [hu]
      rw [if_neg hu,and_iff_right hu,Tree.insert,if_neg (hfresh _ List.mem_cons_self _)]
      refine fillTree_throws hnodup ?_ fun e he => hvalues e (List.mem_cons_of_mem _ he)
      intro e he key hmem
      rcases (List.mem_orderedInsert entryLe).mp hmem with heq | hmem
      · exact hrid (List.mem_map.mpr ⟨e,he,(Prod.mk.inj heq).2⟩)
      · exact hfresh e (List.mem_cons_of_mem _ he) key hmem

theorem meetsNullBehind_nil {isUnique : Bool} {entries : List (RID × Row)} :
    MeetsNullBehind isUnique column [] entries ↔ ScanMeetsNull isUnique column entries := by
  simp [MeetsNullBehind,ScanMeetsNull,Tree.getValue]

/-- The new index has a pair for every row. -/
def Filled (i : IndexMetadata) (column : ℕ) (rows : List (RID × Row)) (db db' : Database) : Prop :=
  ∃ tree : Tree, (tree.map some).Perm (rows.map (pairOf column)) ∧
    db' = { db.setTree i.name tree with
      indexes := db.indexes.orderedInsert (fun a b => a.name ≤ b.name) i }

theorem createIndex_settled (hnew : ∀ j ∈ db.indexes, j.name ≠ i.name)
    (ht : db.tables i.tableName = some t) (hc : indexedColumn db i = .ok column)
    (hrids : t.rids.Nodup) (hrows : ∀ e ∈ t.rows, RowConforms t.schema e.2) :
    Settled false (Filled i column t.rows db) db (createIndex i db) ↔
      ¬ ScanMeetsNull i.isUnique column t.rows := by
  have hfresh : ¬ (db.indexes.any fun j => j.name = i.name) = true := by
    intro h
    obtain ⟨j,hj,hname⟩ := List.any_eq_true.mp h
    exact hnew j hj (of_decide_eq_true hname)
  have hthrows : fillTree i.isUnique column [] t.rows = .throws ↔
      ScanMeetsNull i.isUnique column t.rows := by
    rw [← meetsNullBehind_nil]
    exact fillTree_throws hrids (fun _ _ _ => List.not_mem_nil)
      fun e he => indexed_value hc ht (hrows e he)
  rw [← hthrows,createIndex,if_neg hfresh,ht]
  dsimp only
  rw [hc]
  dsimp only
  cases hf : fillTree i.isUnique column [] t.rows with
  | error e => exact iff_of_true (.inr ⟨e,rfl,rfl⟩) (by simp)
  | throws => simp [Settled]
  | ok tree =>
    dsimp only
    cases he : Catalog.encodeIndex i with
    | error e => exact iff_of_true (.inr ⟨e,rfl,rfl⟩) (by simp)
    | ok u =>
      have hfill := fillTree_ok hf
      rw [List.map_nil,List.append_nil] at hfill
      exact iff_of_true (.inl ⟨rfl,tree,hfill,rfl⟩) (by simp)

/-- The four calls, on any table with indexes on INT columns and any rows of its schema: each of
them serves the indexes or returns an error without a trace, exactly when it does not come to a
NULL first. -/
theorem maintenance_settled (hn : Named db) (ht : db.tables table = some t) (hon : OnInts db table)
    (hready : ∀ i ∈ db.listTableIndexes table, Ready db i.name) :
    (∀ (i : IndexMetadata) (column : ℕ), i.tableName = table → (∀ j ∈ db.indexes, j.name ≠ i.name) →
      indexedColumn db i = .ok column → t.rids.Nodup → (∀ e ∈ t.rows, RowConforms t.schema e.2) →
      (Settled false (Filled i column t.rows db) db (createIndex i db) ↔
        ¬ ScanMeetsNull i.isUnique column t.rows)) ∧
    (∀ (transaction : Bool) (row : Row) (rid : RID), RowConforms t.schema row →
      (Settled transaction
          (Maintained (fun _ => []) (fun keys => [(keys.headD 0,rid)]) [row] table db)
          db (onInsert transaction table row rid db) ↔
        ¬ MeetsNull db [row] (KeyHeld db row fun _ => True) (db.listTableIndexes table))) ∧
    (∀ (transaction : Bool) (row : Row) (rid : RID), RowConforms t.schema row →
      (Settled transaction
          (Maintained (fun keys => [(keys.headD 0,rid)]) (fun _ => []) [row] table db)
          db (onDelete transaction table row rid db) ↔
        ¬ MeetsNull db [row] (fun _ => False) (db.listTableIndexes table))) ∧
    ∀ (transaction : Bool) (oldRow newRow : Row) (oldRid newRid : RID),
      RowConforms t.schema oldRow → RowConforms t.schema newRow →
      (Settled transaction
          (Maintained (fun keys => [(keys.headD 0,oldRid)]) (fun keys => [(keys.getD 1 0,newRid)])
            [oldRow,newRow] table db)
          db (onUpdate transaction table oldRow oldRid newRow newRid db) ↔
        ¬ MeetsNull db [oldRow,newRow] (KeyHeld db newRow fun r => r ≠ oldRid)
          (db.listTableIndexes table)) := by
  refine ⟨?_,?_,?_,?_⟩
  · rintro i column rfl hnew hc hrids hrows
    exact createIndex_settled hnew ht hc hrids hrows
  · exact fun transaction row rid hrow => onInsert_settled hn ht hon hrow
  · exact fun transaction row rid hrow => onDelete_settled hn ht hon hready hrow
  · exact fun transaction oldRow newRow oldRid newRid hold hnew =>
      onUpdate_settled hn ht hon hready hold hnew

/-- A table with one INT column that may be NULL, and an index on it. -/
def nullableStart : Database where
  tables name := if name = "t" then some ⟨[⟨"a",.int,none,true⟩],[]⟩ else none
  indexes := []
  trees _ := []
  failed := false

def nullableIndex : IndexMetadata := ⟨"i","t","a",4294967295,false⟩

def nullableIndexed : Database := (createIndex nullableIndex nullableStart).2

/-- The engine makes the index, and the row is one of the schema; the INSERT leaves with an
exception, and its row in the table. -/
theorem null_in_index_throws : (createIndex nullableIndex nullableStart).1 = .ok () ∧
    RowConforms [⟨"a",.int,none,true⟩] [.null] ∧
    (onInsert false "t" [.null] ⟨0,0⟩ nullableIndexed).1 = .throws ∧
    (insert false "t" [(⟨⟨0,0⟩,0⟩,[.null])] nullableIndexed).1 = .throws ∧
    (insert false "t" [(⟨⟨0,0⟩,0⟩,[.null])] nullableIndexed).2.tables "t" =
      some ⟨[⟨"a",.int,none,true⟩],[(⟨0,0⟩,[.null])]⟩ := by
  refine ⟨by decide +kernel,.cons (.inl rfl) .nil,by decide +kernel,by decide +kernel,?_⟩
  decide +kernel

theorem maintenance_settled_seven :
    Settled false (Maintained (fun _ => []) (fun keys => [(keys.headD 0,⟨0,0⟩)]) [[.int 7]] "t"
        nullableIndexed) nullableIndexed (onInsert false "t" [.int 7] ⟨0,0⟩ nullableIndexed) ↔
      ¬ MeetsNull nullableIndexed [[.int 7]] (KeyHeld nullableIndexed [.int 7] fun _ => True)
        (nullableIndexed.listTableIndexes "t") := by
  have hlist : nullableIndexed.listTableIndexes "t" = [nullableIndex] := by decide +kernel
  have hn : Named nullableIndexed := by
    rw [Named]
    decide +kernel
  have ht : nullableIndexed.tables "t" = some ⟨[⟨"a",.int,none,true⟩],[]⟩ := by decide +kernel
  have hon : OnInts nullableIndexed "t" := by
    rw [OnInts,hlist]
    simp only [List.mem_singleton,forall_eq]
    exact ⟨0,by decide +kernel⟩
  have htree : nullableIndexed.trees "i" = [] := by decide +kernel
  have hready : ∀ i ∈ nullableIndexed.listTableIndexes "t", Ready nullableIndexed i.name := by
    rw [hlist]
    simp only [List.mem_singleton,forall_eq]
    have hname : nullableIndex.name = "i" := rfl
    refine ⟨?_,?_,?_⟩
    · rw [hname,htree]
      exact List.Pairwise.nil
    · rw [hname,htree]
      exact List.nodup_nil
    · intro i _ _
      rw [hname,htree]
      exact List.nodup_nil
  exact (maintenance_settled hn ht hon hready).2.1 false [.int 7] ⟨0,0⟩ (.cons (.inr rfl) .nil)

end Execution
end OurSql
