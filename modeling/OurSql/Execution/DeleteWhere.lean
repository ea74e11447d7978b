import OurSql.Execution.UpdateWhere

/-! DELETE and its WHERE condition. The scan and the index lead to the same rows; but a
condition without a constant never gets so far. -/
namespace OurSql
namespace Execution

open Data Index Expression
open Catalog (IndexMetadata)
open OurSql.Parser (SelectStatement Expr extractPredicate)

variable {transaction : Bool} {db db' : Database} {table : String} {t : Table}
  {p : Predicate} {e : Expr} {rid : RID} {row : Row} {rids deleted : List RID} {column : ℕ}
  {cursor : ℕ → Option Failure} {value : Value}

/-! ### The scan -/

theorem deleteRows_rows {c : Option ℕ} : ∀ {rest : List (RID × Row)} {deleted : List RID}
    {db db' : Database} {t : Table} {rids : List RID}, Consistent db →
    db.tables table = some t → (∀ r ∈ rest, r ∈ t.rows) → (rest.map Prod.fst).Nodup →
    deleteRows transaction table c value cursor deleted rest db = (.ok rids,db') →
    rids = deleted.reverse ++ (rest.filter fun r => matchesWhere c value r.2).map Prod.fst ∧
      ∃ t', db'.tables table = some t' ∧
        t.rows.Perm (rest.filter (fun r => matchesWhere c value r.2) ++ t'.rows)
  | [], deleted, db, db', t, rids, _, ht, _, _, h => by
    rw [deleteRows] at h
    split at h
    · simp at h
    · obtain ⟨hrids,rfl⟩ := Prod.mk.inj h
      obtain rfl := Outcome.ok.inj hrids
      exact ⟨(List.append_nil _).symm,t,ht,List.Perm.refl _⟩
  | (rid,row)::rest, deleted, db, db', t, rids, hc, ht, hlive, hn, h => by
    obtain ⟨hrid,hn⟩ := List.nodup_cons.mp hn
    have hrest : ∀ r ∈ rest, r ∈ t.rows := fun r hr => hlive r (List.mem_cons_of_mem _ hr)
    rw [deleteRows] at h
    split at h
    · simp at h
    split at h
    · next hm =>
      split at h
      · next db₁ hd =>
        obtain ⟨⟨hc₁,-⟩,t₁,ht₁,hrows⟩ :=
          deleteEntryOf_survives survives_true hc trivial ht (hlive _ List.mem_cons_self) hd
        have hrest₁ : ∀ r ∈ rest, r ∈ t₁.rows := by
          intro r hr
          exact mem_of_perm hrows (hrest r hr) fun heq => hrid (heq ▸ List.mem_map_of_mem hr)
        obtain ⟨hrids,t',ht',hperm⟩ := deleteRows_rows hc₁ ht₁ hrest₁ hn h
        rw [List.filter_cons,if_pos hm]
        refine ⟨?_,t',ht',hrows.trans (hperm.cons _)⟩
        rw [hrids,List.reverse_cons,List.append_assoc]
        rfl
      · simp at h
      · simp at h
    · next hm =>
      rw [List.filter_cons,if_neg hm]
      exact deleteRows_rows hc ht hrest hn h

/-! ### The index -/

theorem row_unique {row' : Row} (hn : t.rids.Nodup) (h : (rid,row) ∈ t.rows)
    (h' : (rid,row') ∈ t.rows) : row = row' :=
  (Prod.mk.inj (List.inj_on_of_nodup_map hn h h' rfl)).2

/-- The offered RIDs are those of the matching rows, in any order: all of them are deleted. -/
theorem deleteLookup_rows {c : Option ℕ} : ∀ {rest deleted : List RID} {db db' : Database}
    {t : Table} {rids : List RID}, Consistent db → db.tables table = some t →
    rest.Perm ((t.rows.filter fun r => matchesWhere c value r.2).map Prod.fst) →
    deleteLookup transaction table c value deleted rest db = (.ok rids,db') →
    rids = deleted.reverse ++ rest ∧ ∃ t', db'.tables table = some t' ∧
      t'.rows.Perm (t.rows.filter fun r => !matchesWhere c value r.2)
  | [], deleted, db, db', t, rids, _, ht, hrest, h => by
    obtain ⟨hrids,rfl⟩ := Prod.mk.inj h
    obtain rfl := Outcome.ok.inj hrids
    refine ⟨(List.append_nil _).symm,t,ht,?_⟩
    have hnone := List.map_eq_nil_iff.mp hrest.nil_eq.symm
    have hall : (t.rows.filter fun r => !matchesWhere c value r.2) = t.rows := by
      refine List.filter_eq_self.mpr fun r hr => ?_
      have := List.filter_eq_nil_iff.mp hnone r hr
      simpa using this
    rw [hall]
  | rid::rest, deleted, db, db', t, rids, hc, ht, hrest, h => by
    rw [deleteLookup,ht] at h
    dsimp only at h
    split at h
    · simp at h
    · next row hget =>
      have hlive := Table.getRow_ok hget
      obtain ⟨⟨rid',row'⟩,hmem,hfst⟩ :=
        List.mem_map.mp (hrest.mem_iff.mp (List.mem_cons_self (a := rid)))
      obtain rfl : rid' = rid := hfst
      obtain ⟨hmem,hmatch⟩ := List.mem_filter.mp hmem
      obtain rfl := row_unique (hc.rids table t ht) hlive hmem
      rw [if_pos hmatch] at h
      split at h
      · next db₁ hd =>
        obtain ⟨⟨hc₁,-⟩,t₁,ht₁,hrows⟩ :=
          deleteEntryOf_survives survives_true hc trivial ht hlive hd
        have hfilter := hrows.filter fun r => matchesWhere c value r.2
        rw [List.filter_cons,if_pos hmatch] at hfilter
        have hrest₁ := (hrest.trans (hfilter.map Prod.fst)).cons_inv
        obtain ⟨hrids,t',ht',hperm⟩ := deleteLookup_rows hc₁ ht₁ hrest₁ h
        refine ⟨?_,t',ht',hperm.trans ?_⟩
        · rw [hrids,List.reverse_cons,List.append_assoc]
          rfl
        · have hothers := hrows.filter fun r => !matchesWhere c value r.2
          rw [List.filter_cons,if_neg (by simp [hmatch])] at hothers
          exact hothers.symm
      · simp at h
      · simp at h

theorem asInt_eq {n : Int64} :
    asInt row column = some n.toInt ↔ row.getD column .null = .int n := by
  rw [asInt,List.getD_eq_getElem?_getD]
  cases hr : row[column]? with
  | none => simp
  | some v =>
    cases v with
    | int m => simp [Int64.toInt_inj]
    | null => simp
    | varchar text => simp

/-- The RID of an entry with the key. -/
def ridOf (key : Key) (o : Option Entry) : Option RID :=
  o.bind fun e => if e.1 = key then some e.2 else none

/-- A tree that mirrors the table answers a key with the rows that have it. -/
theorem getValue_perm {tree : Tree} {n : Int64}
    (h : (tree.map some).Perm (t.rows.map (pairOf column))) :
    (Tree.getValue tree n.toInt).Perm
      ((t.rows.filter fun r => matchesWhere (some column) (.int n) r.2).map Prod.fst) := by
  have htree : (tree.map some).filterMap (ridOf n.toInt) = Tree.getValue tree n.toInt := by
    rw [List.filterMap_map,Tree.getValue,← List.filterMap_eq_map,List.filterMap_filter]
    refine List.filterMap_congr fun e _ => ?_
    simp [ridOf]
  have hrows : (t.rows.map (pairOf column)).filterMap (ridOf n.toInt) =
      (t.rows.filter fun r => matchesWhere (some column) (.int n) r.2).map Prod.fst := by
    rw [List.filterMap_map,← List.filterMap_eq_map,List.filterMap_filter]
    refine List.filterMap_congr fun r _ => ?_
    have hiff : asInt r.2 column = some n.toInt ↔ r.2.getD column .null = .int n := asInt_eq
    rw [Function.comp_apply,ridOf,pairOf,matchesWhere,Option.all_some]
    cases hk : asInt r.2 column with
    | none => simp_all
    | some key => simp_all
  rw [← htree,← hrows]
  exact h.filterMap _

/-! ### The answers -/

/-- What DELETE answers when the constant is of another type than the column. -/
def rejection (p : Predicate) : Failure :=
  ⟨.typeMismatch,"Delete WHERE 列和值类型不匹配: " ++ p.column⟩

/-- An error that the executor has met while it was working on the rows. -/
def OfExecutor (e : Failure) : Prop := ∃ e', e = contextualize "DeleteExecutor" e'

theorem rejection_notOfExecutor : ¬ OfExecutor (rejection p) := by
  rintro ⟨e',h⟩
  have hmessage := congrArg (fun e => e.message.toList.take 7) h
  simp only [rejection,contextualize,String.toList_append,List.append_assoc] at hmessage
  simp at hmessage

theorem deleteEntryOf_error {x : Failure}
    (h : deleteEntryOf transaction table rid row db = (.error x,db')) : OfExecutor x := by
  rw [deleteEntryOf] at h
  split at h
  · split at h
    · simp at h
    · split at h
      · simp at h
      · exact ⟨_,(Outcome.error.inj (Prod.mk.inj h).1).symm⟩
  · next o _ _ _ =>
    cases o with
    | error y => exact ⟨y,(Outcome.error.inj (Prod.mk.inj h).1).symm⟩
    | ok u => simp [Outcome.within] at h
    | throws => simp [Outcome.within] at h

theorem deleteRows_error {c : Option ℕ} {x : Failure} : ∀ {rest : List (RID × Row)}
    {deleted : List RID} {db db' : Database},
    deleteRows transaction table c value cursor deleted rest db = (.error x,db') → OfExecutor x
  | [], deleted, db, db', h => by
    rw [deleteRows] at h
    split at h
    · exact ⟨_,(Outcome.error.inj (Prod.mk.inj h).1).symm⟩
    · simp at h
  | (rid,row)::rest, deleted, db, db', h => by
    rw [deleteRows] at h
    split at h
    · exact ⟨_,(Outcome.error.inj (Prod.mk.inj h).1).symm⟩
    split at h
    · split at h
      · exact deleteRows_error h
      · next hd =>
        obtain rfl := Outcome.error.inj (Prod.mk.inj h).1
        exact deleteEntryOf_error hd
      · simp at h
    · exact deleteRows_error h

theorem deleteLookup_error {c : Option ℕ} {x : Failure} : ∀ {rest deleted : List RID}
    {db db' : Database},
    deleteLookup transaction table c value deleted rest db = (.error x,db') → OfExecutor x
  | [], deleted, db, db', h => by simp [deleteLookup] at h
  | rid::rest, deleted, db, db', h => by
    rw [deleteLookup] at h
    split at h
    · simp at h
    split at h
    · exact ⟨_,(Outcome.error.inj (Prod.mk.inj h).1).symm⟩
    split at h
    · split at h
      · exact deleteLookup_error h
      · next hd =>
        obtain rfl := Outcome.error.inj (Prod.mk.inj h).1
        exact deleteEntryOf_error hd
      · simp at h
    · exact deleteLookup_error h

/-! ### DELETE -/

/-- The column that DELETE compares, once it has accepted the condition. -/
def checkDelete (t : Table) (p : Predicate) : Result ℕ :=
  match schemaColumn t.schema p.column with
  | .error e => .error (contextualize "DeleteExecutor" e)
  | .ok column =>
    if (t.schema.getD column ⟨"",.null,none,true⟩).type ≠ p.value.type then .error (rejection p)
    else .ok column

theorem delete_rejected {x : Failure} (ht : db.tables table = some t)
    (h : checkDelete t p = .error x) :
    delete transaction table (some p) cursor db = (.error x,db) := by
  rw [checkDelete] at h
  rw [delete,requireMetadata_eq ht]
  dsimp only
  cases hc : schemaColumn t.schema p.column with
  | error e =>
    rw [hc] at h
    rw [← Except.error.inj h]
  | ok column =>
    rw [hc] at h
    dsimp only at h ⊢
    split_ifs at h with hty
    rw [← Except.error.inj h]
    exact if_pos hty

theorem delete_accepted (ht : db.tables table = some t) (h : checkDelete t p = .ok column) :
    delete transaction table (some p) cursor db =
      match lookupIndex db table p with
      | none => deleteRows transaction table (some column) p.value cursor [] t.rows db
      | some (i,key) =>
        match lookup db i.name key with
        | .error e => (.error (contextualize "DeleteExecutor" e),db)
        | .ok rids => deleteLookup transaction table (some column) p.value [] rids db := by
  rw [checkDelete] at h
  rw [delete,requireMetadata_eq ht]
  dsimp only
  cases hc : schemaColumn t.schema p.column with
  | error e =>
    rw [hc] at h
    cases h
  | ok column =>
    rw [hc] at h
    dsimp only at h ⊢
    split_ifs at h with hty
    obtain rfl := Except.ok.inj h
    exact if_neg hty

/-- The deleted rows are the selected ones, and the others are as they were. -/
structure Deleted (selects : Row → Bool) (table : String) (t : Table) (rids : List RID)
    (db' : Database) : Prop where
  rids : rids.Perm ((t.rows.filter fun r => selects r.2).map Prod.fst)
  others : ∃ t', db'.tables table = some t' ∧ t'.rows.Perm (t.rows.filter fun r => !selects r.2)

/-- DELETE accepts the condition, deletes what is selected, and deletes the same rows whatever
indexes the table has. -/
structure DeletesSelected (selects : Row → Bool) (table : String) (t : Table) (p : Predicate)
    (db : Database) : Prop where
  accepted : ∀ transaction cursor,
    (delete transaction table (some p) cursor db).1 ≠ .error (rejection p)
  deleted : ∀ transaction cursor rids db',
    delete transaction table (some p) cursor db = (.ok rids,db') →
      Deleted selects table t rids db'
  paths : ∀ transaction cursor rids db' db₁ rids₁ db₁', Consistent db₁ →
    db₁.tables table = some t → delete transaction table (some p) cursor db = (.ok rids,db') →
    delete transaction table (some p) cursor db₁ = (.ok rids₁,db₁') → rids.Perm rids₁

theorem delete_notRejected (ht : db.tables table = some t) (h : checkDelete t p = .ok column) :
    (delete transaction table (some p) cursor db).1 ≠ .error (rejection p) := by
  intro he
  generalize hd : delete transaction table (some p) cursor db = result at he
  obtain ⟨o,db'⟩ := result
  obtain rfl : o = .error (rejection p) := he
  rw [delete_accepted ht h] at hd
  refine rejection_notOfExecutor (p := p) ?_
  split at hd
  · exact deleteRows_error hd
  · split at hd
    · exact ⟨_,(Outcome.error.inj (Prod.mk.inj hd).1).symm⟩
    · exact deleteLookup_error hd

theorem deleted_of_rows {selects : Row → Bool} {t' : Table} {gone : List (RID × Row)}
    (hgone : gone = t.rows.filter fun r => selects r.2) (hrids : rids = gone.map Prod.fst)
    (ht' : db'.tables table = some t') (hrows : t.rows.Perm (gone ++ t'.rows)) :
    Deleted selects table t rids db' := by
  refine ⟨?_,t',ht',?_⟩
  · rw [hrids,hgone]
  · rw [hgone] at hrows
    exact (List.perm_append_left_iff _).mp
      (hrows.symm.trans (List.filter_append_perm (fun r => selects r.2) t.rows).symm)

/-- The index of the lookup mirrors the column that is compared. -/
theorem lookupIndex_mirrors {i : IndexMetadata} {key : Key} (hc : Consistent db)
    (ht : db.tables table = some t) (hcolumn : schemaColumn t.schema p.column = .ok column)
    (h : lookupIndex db table p = some (i,key)) : ∃ n, p.value = .int n ∧ key = n.toInt ∧
      ((db.trees i.name).map some).Perm (t.rows.map (pairOf column)) := by
  rw [lookupIndex] at h
  split at h
  · next n _ hv =>
    obtain ⟨j,hj,hpair⟩ := Option.map_eq_some_iff.mp h
    obtain ⟨rfl,rfl⟩ := Prod.mk.inj hpair
    have hname := List.find?_some hj
    obtain ⟨hmem,htable⟩ := List.mem_filter.mp (List.mem_of_find?_eq_some hj)
    rw [decide_eq_true_iff] at hname htable
    obtain ⟨t₁,c,ht₁,hindexed,hperm⟩ := hc.mirrors j hmem
    rw [htable,ht] at ht₁
    obtain rfl := Option.some.inj ht₁
    obtain rfl : c = column := by
      rw [indexedColumn,htable,ht,hname] at hindexed
      dsimp only at hindexed
      rw [schemaColumn_ok hcolumn] at hindexed
      dsimp only at hindexed
      split_ifs at hindexed with hty
      · simp [fail] at hindexed
      · exact (Except.ok.inj hindexed).symm
    exact ⟨n,hv,rfl,hperm⟩
  · cases h

theorem checkDelete_column (h : checkDelete t p = .ok column) :
    schemaColumn t.schema p.column = .ok column := by
  rw [checkDelete] at h
  split at h
  · cases h
  · next hc =>
    split_ifs at h
    rw [hc,Except.ok.inj h]

/-- Either path deletes the rows whose value is the constant. -/
theorem delete_deleted (hc : Consistent db) (ht : db.tables table = some t)
    (h : checkDelete t p = .ok column)
    (hd : delete transaction table (some p) cursor db = (.ok rids,db')) :
    Deleted (matchesWhere (some column) p.value) table t rids db' := by
  rw [delete_accepted ht h] at hd
  split at hd
  · obtain ⟨hrids,t',ht',hrows⟩ :=
      deleteRows_rows hc ht (fun _ hr => hr) (hc.rids table t ht) hd
    exact deleted_of_rows rfl hrids ht' hrows
  · next i key hi =>
    obtain ⟨n,hv,rfl,hperm⟩ := lookupIndex_mirrors hc ht (checkDelete_column h) hi
    split at hd
    · simp at hd
    · next offered hlookup =>
      rw [lookup] at hlookup
      split at hlookup
      · cases hlookup
      · obtain rfl := Except.ok.inj hlookup
        have hoffered := getValue_perm (n := n) hperm
        rw [hv] at hd ⊢
        obtain ⟨hrids,hothers⟩ := deleteLookup_rows hc ht hoffered hd
        refine ⟨?_,hothers⟩
        rw [hrids]
        exact hoffered

theorem checkDelete_equal (hk : p.kind = .equal) (hp : checkPredicate p t.schema = .ok ())
    (hc : schemaColumn t.schema p.column = .ok column) : checkDelete t p = .ok column := by
  obtain ⟨-,c,hfind,hty⟩ := checkPredicate_equal hp hk
  obtain ⟨hlt,hfind'⟩ := schemaColumn_find hc
  rw [hfind,Option.some.injEq] at hfind'
  rw [checkDelete,hc]
  refine if_neg (not_not.mpr ?_)
  rw [List.getD_eq_getElem?_getD,List.getElem?_eq_getElem hlt,Option.getD_some,← hfind',hty]

/-- Without a constant the value of the condition is NULL, and no column has its type. -/
theorem checkDelete_null (hs : Proper t.schema) (hv : p.value = .null)
    (hc : schemaColumn t.schema p.column = .ok column) :
    checkDelete t p = .error (rejection p) := by
  obtain ⟨hlt,-⟩ := schemaColumn_find hc
  rw [checkDelete,hc]
  refine if_pos ?_
  rw [List.getD_eq_getElem?_getD,List.getElem?_eq_getElem hlt,Option.getD_some,hv]
  exact hs _ (List.getElem_mem hlt)

end Execution
end OurSql
