import OurSql.Lib.Grouping
import OurSql.Expression.Aggregate
import OurSql.Expression.Check
import OurSql.Parser.Statement

/-! The aggregate branch of `BuildSource`: grouping, HAVING and the projections of a group,
against the relational definition of GROUP BY. -/
namespace OurSql
namespace Execution

open Data Expression
open OurSql.Parser (OrderKey OrderDirection)

variable {Query σ : Type}

abbrev RowEntry := RID × Row

/-- The parts of a `SelectPlan` the branch reads. -/
structure AggregatePlan (Query : Type) where
  groupBy : List String := []
  order : Option (List OrderKey) := none
  having : CompileExpr Query := .nullptr
  projectionExpressions : List (CompileExpr Query)
  columns : List String
  projectionAliases : List String := []
  outputTypes : List PlanValueType

structure SourcePlan where
  source : List RowEntry
  columnNames : List String
  schema : Schema

def compareValue (left right : Value) : ℤ :=
  match left, right with
  | .null, .null => 0
  | .null, _ => -1
  | _, .null => 1
  | .int l, .int r => compareInt l r
  | .varchar l, .varchar r => compareText l r
  -- a column holds values of one type only: the source would throw here
  | .int _, .varchar _ => 0
  | .varchar _, .int _ => 0

def sameGroup (left right : Row) (indexes : List ℕ) : Bool :=
  indexes.all fun index => left[index]? = right[index]?

/-- One turn of the grouping loop: `std::find_if`, then a new group or the found one. -/
def addEntry (indexes : List ℕ) (entry : RowEntry) : List (List RowEntry) → List (List RowEntry)
  | [] => [[entry]]
  | g::gs => if g.head?.any (fun front => sameGroup front.2 entry.2 indexes) then (g ++ [entry])::gs
    else g::addEntry indexes entry gs

def groupRows (indexes : List ℕ) (rows : List RowEntry) : List (List RowEntry) :=
  let groups := rows.foldl (fun groups entry => addEntry indexes entry groups) []
  if groups.isEmpty && indexes.isEmpty then [[]] else groups

def columnIndexes (schema : Schema) : List String → Result (List ℕ)
  | [] => .ok []
  | name::names =>
    match findColumnIndex schema name with
    | none => fail .notFound ("Schema 未找到列: " ++ name)
    | some index => (columnIndexes schema names).map (index::·)

/-- The comparison of `std::stable_sort` on the first rows of two groups. -/
def frontBefore (left right : Row) : List (ℕ × OrderDirection) → Bool
  | [] => false
  | (index,direction)::keys =>
    let compared := compareValue (left.getD index .null) (right.getD index .null)
    if compared ≠ 0 then (if direction = .asc then compared < 0 else 0 < compared)
    else frontBefore left right keys

def groupBefore (keys : List (ℕ × OrderDirection)) (left right : List RowEntry) : Bool :=
  match left, right with
  | l::_, r::_ => frontBefore l.2 r.2 keys
  | _, _ => false

def sortGroups (schema : Schema) (order : Option (List OrderKey)) (groups : List (List RowEntry)) :
    Result (List (List RowEntry)) :=
  match order with
  | none => .ok groups
  | some keys => (columnIndexes schema (keys.map (·.column))).map fun indexes =>
    groups.mergeSort fun left right =>
      !groupBefore (indexes.zip (keys.map (·.direction))) right left

def toStorageValue (v : EvalValue) : Result Value :=
  match v.kind with
  | .null => .ok .null
  | .int => .ok (.int v.integer)
  | .string => .ok (.varchar v.text)
  | .bool => fail .typeMismatch "结果集尚不支持 BOOL 物理值"

/-- The row that stands for a group: its first one, or NULLs. -/
def representative (schema : Schema) (group : List RowEntry) : Row :=
  (group.head?.map Prod.snd).getD (List.replicate schema.length .null)

section

variable (schema : Schema) (runner : Option (SubqueryRunner Query σ))

def projectGroup (group : List RowEntry) : List (CompileExpr Query) → Eval σ Row
  | [] => .ok []
  | expression::expressions =>
    (evaluateExpression schema runner expression (some (group.map Prod.snd))
      (representative schema group)).bind fun v =>
    (Eval.lift (toStorageValue v)).bind fun stored =>
    (projectGroup group expressions).bind fun row => .ok (stored::row)

/-- Only TRUE keeps a group. -/
def keepsGroup (having : CompileExpr Query) (group : List RowEntry) : Eval σ Bool :=
  if having.isNullptr then .ok true
  else (evaluateExpression schema runner having (some (group.map Prod.snd))
    (representative schema group)).bind fun condition =>
    .ok (decide (condition.kind = .bool) && condition.boolean)

def outputGroups (plan : AggregatePlan Query) : List (List RowEntry) → Eval σ (List RowEntry)
  | [] => .ok []
  | group::groups => (keepsGroup schema runner plan.having group).bind fun keep =>
    if keep then
      (projectGroup schema runner group plan.projectionExpressions).bind fun row =>
      (outputGroups plan groups).bind fun output =>
        .ok (((group.head?.map Prod.fst).getD ⟨0,0⟩,row)::output)
    else outputGroups plan groups

def outputNames (plan : AggregatePlan Query) : List String :=
  plan.columns.mapIdx fun i name =>
    if plan.projectionAliases.getD i "" = "" then name else plan.projectionAliases.getD i ""

def outputSchema (plan : AggregatePlan Query) : Schema :=
  (outputNames plan).mapIdx fun i name =>
    {name := name,type := if plan.outputTypes[i]? = some .varchar then .varchar else .int}

def aggregateSource (plan : AggregatePlan Query) (rows : List RowEntry) : Eval σ SourcePlan :=
  (Eval.lift (columnIndexes schema plan.groupBy)).bind fun indexes =>
  (Eval.lift (sortGroups schema plan.order (groupRows indexes rows))).bind fun groups =>
  (outputGroups schema runner plan groups).bind fun output =>
    .ok ⟨output,outputNames plan,outputSchema plan⟩

end

/-! ### The relational definition -/

/-- The values of the grouping columns; two NULLs are equal. -/
def groupKey (indexes : List ℕ) (entry : RowEntry) : List (Option Value) :=
  indexes.map fun index => entry.2[index]?

/-- The input rows of one combination of group values. -/
def groupOf (indexes : List ℕ) (rows : List RowEntry) (k : List (Option Value)) : List RowEntry :=
  rows.filter fun entry => groupKey indexes entry = k

section

variable (schema : Schema) (runner : Option (SubqueryRunner Query Unit))
  (plan : AggregatePlan Query)

/-- An expression evaluated for a group. -/
def groupOutcome (group : List RowEntry) (e : CompileExpr Query) : Result EvalValue :=
  outcome schema runner (some (group.map Prod.snd)) (representative schema group) e

def havingTrue (group : List RowEntry) : Bool :=
  plan.having.isNullptr || (groupOutcome schema runner group plan.having).toOption.any fun c =>
    decide (c.kind = .bool) && c.boolean

/-- The output row of a group: the RID of its first row and its projections. -/
structure GroupRow (group : List RowEntry) (entry : RowEntry) : Prop where
  rid : entry.1 = (group.head?.map Prod.fst).getD ⟨0,0⟩
  values : List.Forall₂ (fun e v => ∃ w, groupOutcome schema runner group e = .ok w ∧
    toStorageValue w = .ok v) plan.projectionExpressions entry.2

/-- One row for each distinct combination of group values whose HAVING is TRUE. -/
structure Grouped (rows : List RowEntry) (indexes : List ℕ) (result : SourcePlan) : Prop where
  rowPerKey : ∃ ks : List (List (Option Value)), ks.Nodup ∧
    (∀ k, k ∈ ks ↔ (∃ entry ∈ rows, groupKey indexes entry = k) ∨ indexes = [] ∧ k = []) ∧
    (indexes = [] → ks = [[]]) ∧
    List.Forall₂ (GroupRow schema runner plan)
      ((ks.map (groupOf indexes rows)).filter (havingTrue schema runner plan)) result.source
  names : result.columnNames = outputNames plan
  columns : result.schema = outputSchema plan

/-- HAVING has a value for the group, and where it is TRUE every projection has one that a
result can hold. -/
def GroupAnswers (group : List RowEntry) : Prop :=
  (plan.having.isNullptr = true ∨ ∃ c, groupOutcome schema runner group plan.having = .ok c) ∧
    (havingTrue schema runner plan group = true → ∀ e ∈ plan.projectionExpressions,
      ∃ w v, groupOutcome schema runner group e = .ok w ∧ toStorageValue w = .ok v)

end

/-! ### The grouping loop finds the classes -/

variable {schema : Schema} {runner : Option (SubqueryRunner Query Unit)}
  {plan : AggregatePlan Query} {indexes : List ℕ} {rows : List RowEntry}
  {groups : List (List RowEntry)} {group : List RowEntry}

theorem sameGroup_eq (left right : RowEntry) :
    sameGroup left.2 right.2 indexes = decide (groupKey indexes left = groupKey indexes right) := by
  rw [Bool.eq_iff_iff,decide_eq_true_iff,sameGroup,groupKey,groupKey,List.map_inj_left]
  simp

theorem addEntry_eq (entry : RowEntry) :
    addEntry indexes entry groups = Grouping.insert (groupKey indexes) entry groups := by
  induction groups with
  | nil => rfl
  | cons g gs ih => simp only [addEntry,Grouping.insert,sameGroup_eq,ih]

/-- The combinations of group values, and the empty one when there is nothing to group by. -/
def groupKeys (indexes : List ℕ) (rows : List RowEntry) : List (List (Option Value)) :=
  let ks := Grouping.keys (groupKey indexes) rows
  if ks.isEmpty && indexes.isEmpty then [[]] else ks

theorem keys_eq_nil : Grouping.keys (groupKey indexes) rows = [] ↔ rows = [] := by
  constructor
  · intro h
    by_contra hne
    obtain ⟨entry,hmem⟩ := List.exists_mem_of_ne_nil rows hne
    have hkey : groupKey indexes entry ∈ Grouping.keys (groupKey indexes) rows :=
      Grouping.mem_keys.mpr ⟨entry,hmem,rfl⟩
    rw [h] at hkey
    cases hkey
  · rintro rfl
    rfl

theorem groupRows_eq :
    groupRows indexes rows = (groupKeys indexes rows).map (groupOf indexes rows) := by
  have hgroup : rows.foldl (fun groups entry => addEntry indexes entry groups) [] =
      (Grouping.keys (groupKey indexes) rows).map (groupOf indexes rows) := by
    simp only [addEntry_eq]
    exact Grouping.group_eq
  rw [groupRows,hgroup,groupKeys]
  simp only [List.isEmpty_map]
  split_ifs with h
  · rw [Bool.and_eq_true,List.isEmpty_iff] at h
    rw [keys_eq_nil.mp h.1]
    rfl
  · rfl

theorem nodup_groupKeys : (groupKeys indexes rows).Nodup := by
  unfold groupKeys
  dsimp only
  split_ifs
  · exact List.nodup_singleton _
  · exact Grouping.nodup_keys

theorem mem_groupKeys {k : List (Option Value)} : k ∈ groupKeys indexes rows ↔
    (∃ entry ∈ rows, groupKey indexes entry = k) ∨ indexes = [] ∧ k = [] := by
  unfold groupKeys
  dsimp only
  split_ifs with h
  · rw [Bool.and_eq_true,List.isEmpty_iff,List.isEmpty_iff,keys_eq_nil] at h
    simp [h.1,h.2]
  · rw [Grouping.mem_keys]
    refine ⟨Or.inl,?_⟩
    rintro (hk | ⟨rfl,rfl⟩)
    · exact hk
    · have hne : rows ≠ [] := fun he => h (by simp [he,Grouping.keys])
      obtain ⟨entry,hmem⟩ := List.exists_mem_of_ne_nil rows hne
      exact ⟨entry,hmem,rfl⟩

/-- Without grouping columns there is one group, whatever the input. -/
theorem groupKeys_single {ks : List (List (Option Value))} (hn : ks.Nodup)
    (h : ∀ k, k ∈ ks ↔ (∃ entry ∈ rows, groupKey indexes entry = k) ∨ indexes = [] ∧ k = [])
    (hi : indexes = []) : ks = [[]] := by
  subst hi
  refine List.perm_singleton.mp ((List.perm_ext_iff_of_nodup hn (List.nodup_singleton _)).mpr ?_)
  intro k
  rw [h k,List.mem_singleton]
  constructor
  · rintro (⟨entry,-,rfl⟩ | ⟨-,rfl⟩) <;> rfl
  · rintro rfl
    exact Or.inr ⟨rfl,rfl⟩

/-! ### Sorting keeps the groups -/

theorem sortGroups_keys {order : Option (List OrderKey)} {ks : List (List (Option Value))}
    {f : List (Option Value) → List RowEntry} {sorted : List (List RowEntry)}
    (h : sortGroups schema order (ks.map f) = .ok sorted) :
    ∃ ks', List.Perm ks' ks ∧ sorted = ks'.map f := by
  cases order with
  | none =>
    cases h
    exact ⟨ks,.refl ks,rfl⟩
  | some keys =>
    rw [sortGroups] at h
    cases hi : columnIndexes schema (keys.map (·.column)) with
    | error e =>
      rw [hi] at h
      cases h
    | ok indexes =>
      rw [hi] at h
      cases h
      have hmap := List.map_mergeSort (l := ks) (f := f)
        (s := fun a b => !groupBefore (indexes.zip (keys.map (·.direction))) b a)
        (r := fun a b => !groupBefore (indexes.zip (keys.map (·.direction))) (f b) (f a))
        fun _ _ _ _ => rfl
      exact ⟨_,List.mergeSort_perm ks _,hmap.symm⟩

/-! ### HAVING and the projections -/

theorem keepsGroup_ok {keep : Bool}
    (h : (keepsGroup schema runner plan.having group ()).1 = .ok keep) :
    keep = havingTrue schema runner plan group := by
  unfold keepsGroup at h
  unfold havingTrue
  split_ifs at h with hn
  · cases h
    rw [hn,Bool.true_or]
  · obtain ⟨c,hc,hkeep⟩ := bind_answers.mp h
    have hc : groupOutcome schema runner group plan.having = .ok c := hc
    cases hkeep
    rw [Bool.eq_false_of_not_eq_true hn,Bool.false_or,hc]
    rfl

theorem projectGroup_ok {expressions : List (CompileExpr Query)} {row : Row}
    (h : (projectGroup schema runner group expressions ()).1 = .ok row) :
    List.Forall₂ (fun e v => ∃ w, groupOutcome schema runner group e = .ok w ∧
      toStorageValue w = .ok v) expressions row := by
  induction expressions generalizing row with
  | nil =>
    cases h
    exact .nil
  | cons e es ih =>
    rw [projectGroup] at h
    obtain ⟨w,hw,h⟩ := bind_answers.mp h
    obtain ⟨v,hv,h⟩ := bind_answers.mp h
    obtain ⟨rest,hrest,h⟩ := bind_answers.mp h
    cases h
    exact .cons ⟨w,hw,hv⟩ (ih hrest)

theorem outputGroups_ok {output : List RowEntry}
    (h : (outputGroups schema runner plan groups ()).1 = .ok output) :
    List.Forall₂ (GroupRow schema runner plan) (groups.filter (havingTrue schema runner plan))
      output := by
  induction groups generalizing output with
  | nil =>
    cases h
    exact .nil
  | cons group groups ih =>
    rw [outputGroups] at h
    obtain ⟨keep,hkeep,h⟩ := bind_answers.mp h
    rw [List.filter_cons,← keepsGroup_ok hkeep]
    cases keep with
    | false => exact ih h
    | true =>
      obtain ⟨row,hrow,h⟩ := bind_answers.mp h
      obtain ⟨rest,hrest,h⟩ := bind_answers.mp h
      cases h
      exact .cons ⟨rfl,projectGroup_ok hrow⟩ (ih hrest)

theorem projectGroup_answers {expressions : List (CompileExpr Query)}
    (h : ∀ e ∈ expressions, ∃ w v, groupOutcome schema runner group e = .ok w ∧
      toStorageValue w = .ok v) :
    ∃ row, (projectGroup schema runner group expressions ()).1 = .ok row := by
  induction expressions with
  | nil => exact ⟨[],rfl⟩
  | cons e es ih =>
    obtain ⟨w,v,hw,hv⟩ := h e List.mem_cons_self
    obtain ⟨row,hrow⟩ := ih fun e he => h e (List.mem_cons_of_mem _ he)
    rw [projectGroup]
    exact ⟨v::row,bind_answers.mpr ⟨w,hw,bind_answers.mpr ⟨v,hv,
      bind_answers.mpr ⟨row,hrow,rfl⟩⟩⟩⟩

theorem outputGroups_answers (h : ∀ group ∈ groups, GroupAnswers schema runner plan group) :
    ∃ output, (outputGroups schema runner plan groups ()).1 = .ok output := by
  induction groups with
  | nil => exact ⟨[],rfl⟩
  | cons group groups ih =>
    obtain ⟨hhaving,hprojections⟩ := h group List.mem_cons_self
    obtain ⟨rest,hrest⟩ := ih fun g hg => h g (List.mem_cons_of_mem _ hg)
    have hkeep : (keepsGroup schema runner plan.having group ()).1 =
        .ok (havingTrue schema runner plan group) := by
      unfold keepsGroup
      unfold havingTrue
      rcases hhaving with hn | ⟨c,hc⟩
      · rw [if_pos hn,hn,Bool.true_or]
        rfl
      · split_ifs with hn
        · rw [hn,Bool.true_or]
          rfl
        · rw [Bool.eq_false_of_not_eq_true hn,Bool.false_or,hc]
          exact bind_answers.mpr ⟨c,hc,rfl⟩
    rw [outputGroups]
    cases ht : havingTrue schema runner plan group with
    | false => exact ⟨rest,bind_answers.mpr ⟨false,ht ▸ hkeep,hrest⟩⟩
    | true =>
      obtain ⟨row,hrow⟩ := projectGroup_answers (hprojections ht)
      exact ⟨_,bind_answers.mpr ⟨true,ht ▸ hkeep,bind_answers.mpr ⟨row,hrow,
        bind_answers.mpr ⟨rest,hrest,rfl⟩⟩⟩⟩

/-! ### The branch -/

/-- The aggregate branch on one list of input rows. -/
structure GroupedAggregation (schema : Schema) (runner : Option (SubqueryRunner Query Unit))
    (plan : AggregatePlan Query) (rows : List RowEntry) : Prop where
  grouped : ∀ {result}, (aggregateSource schema runner plan rows ()).1 = .ok result →
    ∃ indexes, columnIndexes schema plan.groupBy = .ok indexes ∧
      Grouped schema runner plan rows indexes result
  /-- Nothing but a missing column or an expression without a value makes it fail. -/
  answers : ∀ {indexes}, columnIndexes schema plan.groupBy = .ok indexes →
    (∀ keys ∈ plan.order, ∃ is, columnIndexes schema (keys.map (·.column)) = .ok is) →
    (∀ k, (∃ entry ∈ rows, groupKey indexes entry = k) ∨ indexes = [] ∧ k = [] →
      GroupAnswers schema runner plan (groupOf indexes rows k)) →
    ∃ result, (aggregateSource schema runner plan rows ()).1 = .ok result
  countStar : ∀ group argument, groupOutcome schema runner group (.aggregate .count true argument) =
    .ok (.int (Int64.ofNat group.length))
  aggregate : ∀ {group kind argument v},
    groupOutcome schema runner group (.aggregate kind false argument) = .ok v →
    ∃ vs, List.Forall₂ (fun entry w => outcome schema runner none entry.2 argument = .ok w)
      group vs ∧ AggregateOf kind (nonNull vs) v
  aggregateAnswers : ∀ {group : List RowEntry} {kind argument} {vs : List EvalValue},
    List.Forall₂ (fun entry w => outcome schema runner none entry.2 argument = .ok w) group vs →
    Accumulates kind (nonNull vs) →
    ∃ v, groupOutcome schema runner group (.aggregate kind false argument) = .ok v

/-- Grouped aggregation is its relational definition: one output row for each combination of
group values that HAVING keeps, with the aggregates over exactly the rows that have it. -/
theorem groupedAggregation (schema : Schema) (runner : Option (SubqueryRunner Query Unit))
    (plan : AggregatePlan Query) (rows : List RowEntry) :
    GroupedAggregation schema runner plan rows where
  grouped := by
    intro result h
    obtain ⟨indexes,hi,h⟩ := bind_answers.mp h
    obtain ⟨groups,hg,h⟩ := bind_answers.mp h
    obtain ⟨output,ho,h⟩ := bind_answers.mp h
    cases h
    rw [groupRows_eq] at hg
    obtain ⟨ks,hperm,rfl⟩ := sortGroups_keys hg
    have hn : ks.Nodup := hperm.nodup_iff.mpr nodup_groupKeys
    have hmem (k : List (Option Value)) : k ∈ ks ↔
        (∃ entry ∈ rows, groupKey indexes entry = k) ∨ indexes = [] ∧ k = [] := by
      rw [hperm.mem_iff,mem_groupKeys]
    exact ⟨indexes,hi,⟨ks,hn,hmem,groupKeys_single hn hmem,outputGroups_ok ho⟩,rfl,rfl⟩
  answers := by
    intro indexes hi horder hanswers
    have hsorted :
        ∃ groups, sortGroups schema plan.order (groupRows indexes rows) = .ok groups := by
      cases ho : plan.order with
      | none => exact ⟨_,rfl⟩
      | some keys =>
        obtain ⟨is,his⟩ := horder keys ho
        rw [sortGroups,his]
        exact ⟨_,rfl⟩
    obtain ⟨groups,hg⟩ := hsorted
    have hgroups : ∀ group ∈ groups, GroupAnswers schema runner plan group := by
      rw [groupRows_eq] at hg
      obtain ⟨ks,hperm,rfl⟩ := sortGroups_keys hg
      intro group hgroup
      obtain ⟨k,hk,rfl⟩ := List.mem_map.mp hgroup
      exact hanswers k (mem_groupKeys.mp (hperm.mem_iff.mp hk))
    obtain ⟨output,ho⟩ := outputGroups_answers hgroups
    exact ⟨_,bind_answers.mpr ⟨indexes,hi,bind_answers.mpr ⟨groups,hg,
      bind_answers.mpr ⟨output,ho,rfl⟩⟩⟩⟩
  countStar := by
    intro group argument
    rw [groupOutcome,outcome_countStar,List.length_map]
  aggregate := by
    intro group kind argument v h
    obtain ⟨vs,hvs,hv⟩ := outcome_aggregate h
    exact ⟨vs,List.forall₂_map_left_iff.mp hvs,hv⟩
  aggregateAnswers := by
    intro group kind argument vs hvs h
    exact aggregate_answers (List.forall₂_map_left_iff.mpr hvs) h

end Execution
end OurSql
