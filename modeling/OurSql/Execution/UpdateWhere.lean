import OurSql.Execution.Where

/-! UPDATE and its WHERE condition: the rows it replaces are those whose value in the column
equals the value of the condition, and the value of IS NOT NULL is NULL. -/
namespace OurSql
namespace Execution

open Data Expression
open OurSql.Parser (SelectStatement Expr extractPredicate bareColumn)

variable {Query : Type} {transaction : Bool} {db db' : Database} {table : String} {t : Table}
  {p : Predicate} {e : Expr} {rids : List RID}
  {assignments : List (String × CompileExpr Query)} {places : ℕ → Place}

/-- The scan of UPDATE: what it is going to replace. -/
def replacements (t : Table) (assignments : List (String × CompileExpr Query))
    (where_ : Option Predicate) : Result (List Replacement) :=
  match assignmentColumns t.schema assignments with
  | .error e => .error e
  | .ok assignments =>
    match where_.mapM fun p => schemaColumn t.schema p.column with
    | .error e => .error (contextualize "UpdateExecutor" e)
    | .ok column =>
      collect t.schema column ((where_.map Predicate.value).getD .null) assignments t.rows

/-- The replaced rows are the selected ones, and the others are as they were. -/
structure ReplacesSelected (selects : Row → Bool) (rs : List Replacement) (rids : List RID)
    (t t' : Table) : Prop where
  replaced : (rs.map fun r => (r.oldRid,r.oldRow)) = t.rows.filter fun r => selects r.2
  others : t'.rows.Perm
    (rids.zip (rs.map Replacement.newRow) ++ t.rows.filter fun r => !selects r.2)

theorem requireMetadata_eq (ht : db.tables table = some t) : requireMetadata db table = .ok t := by
  rw [requireMetadata,ht]

theorem update_replacements {where_ : Option Predicate} (ht : db.tables table = some t)
    (h : update transaction table assignments where_ places db = (.ok rids,db')) :
    ∃ rs, replacements t assignments where_ = .ok rs ∧
      replaceRows transaction table places [] rs db = (.ok rids,db') := by
  rw [update,requireMetadata_eq ht] at h
  dsimp only at h
  rw [replacements]
  cases hcolumns : assignmentColumns t.schema assignments with
  | error e =>
    rw [hcolumns] at h
    simp at h
  | ok columns =>
    rw [hcolumns] at h
    dsimp only at h ⊢
    cases hcolumn : where_.mapM fun p => schemaColumn t.schema p.column with
    | error e =>
      rw [hcolumn] at h
      simp at h
    | ok column =>
      rw [hcolumn] at h
      dsimp only at h ⊢
      cases hcollect : collect t.schema column ((where_.map Predicate.value).getD .null) columns
          t.rows with
      | error e =>
        rw [hcollect] at h
        simp at h
      | ok rs =>
        rw [hcollect] at h
        exact ⟨rs,rfl,h⟩

theorem collect_rows {schema : Schema} {c : Option ℕ} {value : Value}
    {columns : List (ℕ × CompileExpr Query)} : ∀ {rows : List (RID × Row)}
    {rs : List Replacement}, collect schema c value columns rows = .ok rs →
      (rs.map fun r => (r.oldRid,r.oldRow)) = rows.filter fun r => matchesWhere c value r.2
  | [], rs, h => by
    obtain rfl := Except.ok.inj h
    rfl
  | (rid,row)::rest, rs, h => by
    rw [collect] at h
    split at h
    · next hm =>
      split at h
      · simp at h
      · cases hr : collect schema c value columns rest with
        | error e => simp [hr,Except.map] at h
        | ok rs' =>
          obtain rfl : _ = rs := by simpa [hr,Except.map] using h
          rw [List.filter_cons,if_pos hm,List.map_cons,collect_rows hr]
    · next hm =>
      rw [List.filter_cons,if_neg hm]
      exact collect_rows h

/-- One new row for each replacement, and no other change. -/
theorem replaceRows_rows : ∀ {rest : List Replacement} {replaced : List RID}
    {db db' : Database} {t : Table} {rids : List RID}, Consistent db →
    db.tables table = some t → (∀ r ∈ rest, (r.oldRid,r.oldRow) ∈ t.rows) →
    (rest.map Replacement.oldRid).Nodup →
    replaceRows transaction table places replaced rest db = (.ok rids,db') →
    ∃ news t', rids = replaced.reverse ++ news ∧ db'.tables table = some t' ∧
      (rest.map (fun r => (r.oldRid,r.oldRow)) ++ t'.rows).Perm
        (news.zip (rest.map Replacement.newRow) ++ t.rows)
  | [], replaced, db, db', t, rids, _, ht, _, _, h => by
    obtain ⟨hrids,rfl⟩ := Prod.mk.inj h
    obtain rfl := Outcome.ok.inj hrids
    exact ⟨[],t,(List.append_nil _).symm,ht,List.Perm.refl _⟩
  | r::rest, replaced, db, db', t, rids, hc, ht, hlive, hn, h => by
    obtain ⟨hrid,hn⟩ := List.nodup_cons.mp hn
    rw [replaceRows] at h
    split at h
    · next newRid db₁ hr =>
      obtain ⟨⟨hc₁,-⟩,t₁,ht₁,hrows⟩ :=
        replaceRow_survives survives_true hc trivial ht (hlive r List.mem_cons_self) hr
      have hlive₁ : ∀ x ∈ rest, (x.oldRid,x.oldRow) ∈ t₁.rows := by
        intro x hx
        have hmem := List.mem_cons_of_mem (newRid,r.newRow) (hlive x (List.mem_cons_of_mem _ hx))
        refine mem_of_perm hrows.symm hmem fun heq => hrid ?_
        rw [← show x.oldRid = r.oldRid from heq]
        exact List.mem_map_of_mem hx
      obtain ⟨news,t',rfl,ht',hperm⟩ := replaceRows_rows hc₁ ht₁ hlive₁ hn h
      refine ⟨newRid::news,t',by simp,ht',?_⟩
      rw [List.map_cons,List.map_cons,List.zip_cons_cons,List.cons_append,List.cons_append]
      calc ((r.oldRid,r.oldRow)::(rest.map (fun r => (r.oldRid,r.oldRow)) ++ t'.rows)).Perm
            ((r.oldRid,r.oldRow)::(news.zip (rest.map Replacement.newRow) ++ t₁.rows)) :=
            hperm.cons _
        _ |>.Perm (news.zip (rest.map Replacement.newRow) ++ (r.oldRid,r.oldRow)::t₁.rows) :=
            List.perm_middle.symm
        _ |>.Perm (news.zip (rest.map Replacement.newRow) ++ (newRid,r.newRow)::t.rows) :=
            hrows.append_left _
        _ |>.Perm ((newRid,r.newRow)::(news.zip (rest.map Replacement.newRow) ++ t.rows)) :=
            List.perm_middle
    · simp at h
    · simp at h

theorem replacements_rows {column : ℕ} {rs : List Replacement}
    (hc : schemaColumn t.schema p.column = .ok column)
    (h : replacements t assignments (some p) = .ok rs) :
    (rs.map fun r => (r.oldRid,r.oldRow)) =
      t.rows.filter fun r => matchesWhere (some column) p.value r.2 := by
  rw [replacements] at h
  split at h
  · cases h
  · have hcolumn :
        ((some p).mapM fun p => schemaColumn t.schema p.column) = .ok (some column) := by
      change (schemaColumn t.schema p.column).map some = _
      rw [hc]
      rfl
    rw [hcolumn] at h
    exact collect_rows h

/-- A statement that succeeds has replaced what its scan has collected. -/
theorem update_rows (matching : Row → Bool) (hc : Consistent db)
    (ht : db.tables table = some t) {rs : List Replacement}
    (hrs : (rs.map fun r => (r.oldRid,r.oldRow)) = t.rows.filter fun r => matching r.2)
    (h : replaceRows transaction table places [] rs db = (.ok rids,db')) :
    ∃ t', db'.tables table = some t' ∧ ReplacesSelected matching rs rids t t' := by
  have hsub : (rs.map fun r => (r.oldRid,r.oldRow)).Sublist t.rows := by
    rw [hrs]
    exact List.filter_sublist
  have hn : (rs.map Replacement.oldRid).Nodup := by
    have hn := (hc.rids table t ht).sublist (hsub.map Prod.fst)
    rwa [List.map_map] at hn
  obtain ⟨news,t',hnews,ht',hperm⟩ :=
    replaceRows_rows hc ht (fun r hr => hsub.subset (List.mem_map_of_mem hr)) hn h
  obtain rfl : rids = news := hnews
  refine ⟨t',ht',hrs,(List.perm_append_left_iff (t.rows.filter fun r => matching r.2)).mp ?_⟩
  calc (t.rows.filter (fun r => matching r.2) ++ t'.rows).Perm
        (rids.zip (rs.map Replacement.newRow) ++ t.rows) := by
        rw [← hrs]
        exact hperm
    _ |>.Perm (rids.zip (rs.map Replacement.newRow) ++ (t.rows.filter (fun r => matching r.2) ++
          t.rows.filter fun r => !matching r.2)) :=
        (List.filter_append_perm (fun r => matching r.2) t.rows).symm.append_left _
    _ |>.Perm (t.rows.filter (fun r => matching r.2) ++ (rids.zip (rs.map Replacement.newRow) ++
          t.rows.filter fun r => !matching r.2)) := List.perm_append_comm_assoc ..

/-! ### The condition -/

theorem extractPredicate_value (he : extractPredicate e = some p) (hk : p.kind ≠ .equal) :
    p.value = .null := by
  unfold extractPredicate at he
  split at he
  · next operand negated =>
    cases hb : bareColumn operand with
    | none => simp [hb] at he
    | some name =>
      rw [hb,Option.map_some,Option.some.injEq] at he
      rw [← he]
  · split at he
    · exact absurd (by rw [← Option.some.inj he]) hk
    · split at he
      · exact absurd (by rw [← Option.some.inj he]) hk
      · cases he
  · cases he

/-- What the executor tests is what the filter tests, except for IS NOT NULL. -/
theorem matchesWhere_eq {column : ℕ} {row : Row} (he : extractPredicate e = some p)
    (hp : checkPredicate p t.schema = .ok ()) :
    matchesWhere (some column) p.value row =
      if p.kind = .isNotNull then !predicateMatches p (row.getD column .null)
      else predicateMatches p (row.getD column .null) := by
  cases hk : p.kind with
  | equal => exact matchesWhere_equal hk hp
  | isNull =>
    rw [matchesWhere,Option.all_some,extractPredicate_value he (by rw [hk]; decide),
      predicateMatches,hk]
    rfl
  | isNotNull =>
    rw [matchesWhere,Option.all_some,extractPredicate_value he (by rw [hk]; decide),
      predicateMatches,hk,if_pos rfl,decide_not,Bool.not_not]

theorem filter_not_eq {α : Type} {f : α → Bool} {l : List α}
    (h : l.filter (fun a => !f a) = l.filter f) : l = [] := by
  rw [List.eq_nil_iff_forall_not_mem]
  intro a ha
  cases hf : f a with
  | true =>
    have hm : a ∈ l.filter fun a => !f a := h ▸ List.mem_filter.mpr ⟨ha,hf⟩
    simp [hf] at hm
  | false =>
    have hm : a ∈ l.filter f := h ▸ List.mem_filter.mpr ⟨ha,by rw [hf]; rfl⟩
    simp [hf] at hm

/-- UPDATE replaces the rows that SELECT returns, unless it is told IS NOT NULL. -/
theorem update_selected_iff {runner : Option (SubqueryRunner SelectStatement Unit)}
    (hc : Consistent db) (ht : db.tables table = some t)
    (hrows : ∀ r ∈ t.rows, RowConforms t.schema r.2) (he : extractPredicate e = some p)
    (hp : checkPredicate p t.schema = .ok ())
    (hu : update transaction table assignments (some p) places db = (.ok rids,db')) :
    ∃ rs t', replacements t assignments (some p) = .ok rs ∧ db'.tables table = some t' ∧
      (ReplacesSelected (selectsRow t.schema runner e) rs rids t t' ↔
        p.kind ≠ .isNotNull ∨ t.rows = []) := by
  obtain ⟨column,hcolumn⟩ := schemaColumn_of_checkPredicate hp
  obtain ⟨rs,hrs,hrun⟩ := update_replacements ht hu
  have hold := replacements_rows hcolumn hrs
  have hselects (r : RID × Row) (hr : r ∈ t.rows) :
      matchesWhere (some column) p.value r.2 = if p.kind = .isNotNull then
        !selectsRow t.schema runner e r.2 else selectsRow t.schema runner e r.2 := by
    rw [selectsRow_eq he hcolumn hp (hrows r hr),matchesWhere_eq he hp]
  rw [List.filter_congr hselects] at hold
  by_cases hk : p.kind = .isNotNull
  · simp only [if_pos hk] at hold
    obtain ⟨t',ht',hrep⟩ :=
      update_rows (fun row => !selectsRow t.schema runner e row) hc ht hold hrun
    refine ⟨rs,t',hrs,ht',?_⟩
    constructor
    · intro h
      exact .inr (filter_not_eq (hold.symm.trans h.replaced))
    · rintro (h | h)
      · exact absurd hk h
      · refine ⟨?_,?_⟩
        · rw [hold,h]
          rfl
        · have hothers := hrep.others
          rw [h] at hothers ⊢
          exact hothers
  · simp only [if_neg hk] at hold
    obtain ⟨t',ht',hrep⟩ := update_rows _ hc ht hold hrun
    exact ⟨rs,t',hrs,ht',fun _ => .inl hk,fun _ => hrep⟩

/-! A table with a NULL in the column of the condition. -/

/-- One table, without an index. -/
theorem consistent_single {name : String} {t : Table} (h : t.rids.Nodup) :
    Consistent ⟨fun n => if n = name then some t else none,[],fun _ => [],false⟩ where
  names := List.nodup_nil
  rids := by
    intro table t' ht
    dsimp only at ht
    split_ifs at ht
    rwa [← Option.some.inj ht]
  mirrors := fun _ hi => absurd hi List.not_mem_nil

def sampleTable : Table where
  schema := [⟨"a",.int,none,true⟩,⟨"b",.int,none,false⟩]
  rows := [(⟨1,0⟩,[.null,.int 1]),(⟨1,1⟩,[.int 5,.int 1])]

def sampleDatabase : Database where
  tables name := if name = "t" then some sampleTable else none
  indexes := []
  trees _ := []
  failed := false

/-- `a IS NULL`, or `a IS NOT NULL`. -/
def sampleWhere (negated : Bool) : Expr := .isNull (.column "" "a") negated

def samplePredicate (kind : PredicateKind) : Predicate := ⟨kind,"a",.null⟩

def sampleSet : List (String × CompileExpr Empty) := [("b",.literal {kind := .int,integer := 2})]

theorem consistent_sample : Consistent sampleDatabase := consistent_single (by decide)

theorem sampleTable_conforms : ∀ r ∈ sampleTable.rows, RowConforms sampleTable.schema r.2 := by
  intro r hr
  simp only [sampleTable,List.mem_cons,List.not_mem_nil,or_false] at hr
  rcases hr with rfl | rfl
  · exact .cons (.inl rfl) (.cons (.inr rfl) .nil)
  · exact .cons (.inr rfl) (.cons (.inr rfl) .nil)

/-- `UPDATE t SET b = 2 WHERE a IS NOT NULL` replaces the row whose `a` is NULL. -/
theorem update_inverts_isNotNull :
    extractPredicate (sampleWhere true) = some (samplePredicate .isNotNull) ∧
    checkPredicate (samplePredicate .isNotNull) sampleTable.schema = .ok () ∧
    (sampleTable.rows.filter fun r => selectsRow sampleTable.schema none (sampleWhere true) r.2) =
      [(⟨1,1⟩,[.int 5,.int 1])] ∧
    replacements sampleTable sampleSet (some (samplePredicate .isNotNull)) =
      .ok [⟨⟨1,0⟩,[.null,.int 1],[.null,.int 2]⟩] ∧
    (update false "t" sampleSet (some (samplePredicate .isNotNull)) (fun _ => ⟨⟨1,2⟩,2⟩)
      sampleDatabase).1 = .ok [⟨1,2⟩] ∧
    ((update false "t" sampleSet (some (samplePredicate .isNotNull)) (fun _ => ⟨⟨1,2⟩,2⟩)
      sampleDatabase).2.tables "t").map Table.rows =
      some [(⟨1,1⟩,[.int 5,.int 1]),(⟨1,2⟩,[.null,.int 2])] := by
  refine ⟨rfl,rfl,?_,?_,?_,?_⟩ <;> decide +kernel

/-- `UPDATE t SET b = 2 WHERE a IS NULL` replaces that row too, as SELECT returns it. -/
theorem update_selected_isNull :
    ∃ rs t', replacements sampleTable sampleSet (some (samplePredicate .isNull)) = .ok rs ∧
      (update false "t" sampleSet (some (samplePredicate .isNull)) (fun _ => ⟨⟨1,2⟩,2⟩)
        sampleDatabase).2.tables "t" = some t' ∧
      (ReplacesSelected (selectsRow sampleTable.schema none (sampleWhere false)) rs [⟨1,2⟩]
        sampleTable t' ↔ (samplePredicate .isNull).kind ≠ .isNotNull ∨ sampleTable.rows = []) := by
  have hupdate : update false "t" sampleSet (some (samplePredicate .isNull))
      (fun _ => ⟨⟨1,2⟩,2⟩) sampleDatabase = (.ok [⟨1,2⟩],(update false "t" sampleSet
        (some (samplePredicate .isNull)) (fun _ => ⟨⟨1,2⟩,2⟩) sampleDatabase).2) :=
    Prod.ext (by decide +kernel) rfl
  exact update_selected_iff consistent_sample rfl sampleTable_conforms rfl rfl hupdate

end Execution
end OurSql
