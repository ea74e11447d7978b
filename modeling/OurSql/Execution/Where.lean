import OurSql.Execution.Mirror
import OurSql.Expression.Outcome
import OurSql.Expression.Sound
import OurSql.Parser.Statement

/-! The simple WHERE conditions: what SELECT's filter, the row locks of UPDATE and DELETE and
the planner's check make of them, row by row. -/
namespace OurSql
namespace Execution

open Data Expression
open OurSql.Parser (SelectStatement Expr extractPredicate bareColumn extractLiteralValue)

/-- `CheckPredicate`. -/
def checkPredicate (p : Predicate) (schema : Schema) : Status :=
  match schema.find? fun c => c.name = p.column with
  | none => fail .notFound ("WHERE 列不存在: " ++ p.column)
  | some c =>
    if p.kind = .isNull ∨ p.kind = .isNotNull then .ok ()
    else if p.value = .null then fail .invalidArgument "WHERE 不能使用 = NULL，请改用 IS NULL"
    else if c.type ≠ p.value.type then
      fail .typeMismatch ("WHERE 列和值类型不匹配: " ++ p.column)
    else match p.value with
      | .varchar text =>
        if c.length.any (· < text.length) then
          fail .invalidArgument ("WHERE 字符串超过列长度: " ++ p.column)
        else .ok ()
      | _ => .ok ()

/-- The filter's test of a value, and that of the row locks. -/
def predicateMatches (p : Predicate) (v : Value) : Bool :=
  match p.kind with
  | .isNull => v = .null
  | .isNotNull => v ≠ .null
  | .equal => v ≠ .null ∧ v.type = p.value.type ∧ v = p.value

/-- `MatchingRids`. -/
def matchingRids (t : Table) (p : Predicate) : Result (List RID) :=
  (schemaColumn t.schema p.column).map fun column =>
    (t.rows.filter fun e =>
      decide (p.kind = .equal ∧ e.2.getD column .null = p.value) ||
      decide (p.kind = .isNull ∧ e.2.getD column .null = .null) ||
      decide (p.kind = .isNotNull ∧ e.2.getD column .null ≠ .null)).map Prod.fst

/-- `FilterSource::Next` keeps the row: its expression is TRUE there. -/
def selectsRow (schema : Schema) (runner : Option (SubqueryRunner SelectStatement Unit))
    (e : Expr) (row : Row) : Bool :=
  (outcome schema runner none row e).toOption.any fun c => decide (c.kind = .bool) && c.boolean

variable {schema : Schema} {runner : Option (SubqueryRunner SelectStatement Unit)} {e : Expr}
  {p : Predicate} {row : Row} {column : ℕ} {v w : Value} {name : String}

/-! ### Columns and constants -/

theorem schemaColumn_ok (h : schemaColumn schema name = .ok column) :
    findColumnIndex schema name = some column := by
  rw [schemaColumn] at h
  split at h
  · next c hc =>
    cases h
    exact hc
  · cases h

theorem outcome_column {tableName : String} (h : schemaColumn schema name = .ok column)
    (hrow : RowConforms schema row) :
    outcome schema runner none row (.column tableName name) =
      .ok (.fromValue (row.getD column .null)) := by
  have hi := schemaColumn_ok h
  have hlt : column < row.length := by
    rw [← hrow.length_eq]
    exact (List.findIdx?_eq_some_iff_findIdx_eq.mp hi).1
  rw [outcome,evaluateExpression]
  simp only [Eval.lift,evaluateColumn,hi,List.getElem?_eq_getElem hlt,
    List.getD_eq_getElem?_getD,Option.getD_some]

theorem outcome_isNull {operand : Expr} {negated : Bool} :
    outcome schema runner none row (.isNull operand negated) =
      (outcome schema runner none row operand).map fun v =>
        .bool (if negated then !v.isNull else v.isNull) := by
  rw [outcome,evaluateExpression,evaluate_pure]
  cases outcome schema runner none row operand <;> rfl

theorem isNull_fromValue : (EvalValue.fromValue v).isNull = decide (v = .null) := by
  cases v <;> rfl

theorem outcome_literal (l : CompileLiteral) :
    outcome schema runner none row (.literal l) = .ok l.value := by
  rw [outcome,evaluateExpression]
  rfl

theorem bareColumn_eq (h : bareColumn e = some name) : e = .column "" name := by
  unfold bareColumn at h
  split at h
  · cases h
    rfl
  · cases h

theorem extractLiteralValue_eq (h : extractLiteralValue e = some v) :
    ∃ l, e = .literal l ∧ l.value = .fromValue v ∧ v ≠ .null := by
  unfold extractLiteralValue at h
  split at h
  · next l =>
    split at h
    · next hk =>
      cases h
      exact ⟨l,rfl,by rw [CompileLiteral.value,hk]; rfl,by simp⟩
    · next hk =>
      cases h
      exact ⟨l,rfl,by rw [CompileLiteral.value,hk]; rfl,by simp⟩
    · cases h
  · cases h

/-! ### `=` on values of one type -/

theorem compareInt_zero {l r : Int64} : compareInt l r = 0 ↔ l = r := by
  unfold compareInt
  rw [← Int64.toInt_inj]
  simp only [Int64.lt_iff_toInt_lt]
  split_ifs <;> simp <;> omega

theorem compareText_zero {l r : List UInt8} : compareText l r = 0 ↔ l = r := by
  unfold compareText
  split_ifs with h h'
  · refine iff_of_false (by decide) ?_
    rintro rfl
    exact List.lt_irrefl _ h
  · refine iff_of_false (by decide) ?_
    rintro rfl
    exact List.lt_irrefl _ h'
  · exact iff_of_true rfl (List.le_antisymm (List.not_lt.mp h') (List.not_lt.mp h))

theorem compareEval_fromValue (ht : v.type = w.type) (hv : v ≠ .null) :
    ∃ c, compareEval (.fromValue v) (.fromValue w) = .ok c ∧ (c = 0 ↔ v = w) := by
  cases v with
  | null => exact absurd rfl hv
  | int n =>
    cases w with
    | int m =>
      refine ⟨compareInt n m,rfl,?_⟩
      rw [compareInt_zero,Value.int.injEq]
    | _ => cases ht
  | varchar text =>
    cases w with
    | varchar text' =>
      refine ⟨compareText text text',rfl,?_⟩
      rw [compareText_zero,Value.varchar.injEq]
    | _ => cases ht

theorem combine_equal (x y : EvalValue) : combine "=" x y =
    if x.isNull ∨ y.isNull then .ok .null
    else (compareEval x y).map fun c => .bool (decide (c = 0)) :=
  combine_comparison (by decide) (by decide) (by decide) x y

/-- `=` is TRUE for the value itself, and NULL or FALSE for every other one of the type. -/
theorem combine_fromValue (hw : w ≠ .null) (hv : v = .null ∨ v.type = w.type) :
    ((combine "=" (.fromValue v) (.fromValue w)).toOption.any fun c =>
        decide (c.kind = .bool) && c.boolean) = decide (v = w) ∧
      ((combine "=" (.fromValue w) (.fromValue v)).toOption.any fun c =>
        decide (c.kind = .bool) && c.boolean) = decide (v = w) := by
  have hwn : (EvalValue.fromValue w).isNull = false := by
    cases w with
    | null => exact absurd rfl hw
    | _ => rfl
  rw [combine_equal,combine_equal]
  by_cases hn : v = .null
  · subst hn
    have hne : Value.null ≠ w := Ne.symm hw
    have hvn : (EvalValue.fromValue .null).isNull = true := rfl
    rw [if_pos (Or.inl hvn),if_pos (Or.inr hvn),decide_eq_false hne]
    exact ⟨rfl,rfl⟩
  · have ht := hv.resolve_left hn
    have hvn : (EvalValue.fromValue v).isNull = false := by
      cases v with
      | null => exact absurd rfl hn
      | _ => rfl
    obtain ⟨c,hc,heq⟩ := compareEval_fromValue ht hn
    obtain ⟨d,hd,heq'⟩ := compareEval_fromValue ht.symm hw
    rw [if_neg (by simp [hvn,hwn]),if_neg (by simp [hvn,hwn]),hc,hd]
    simp only [Except.map,Except.toOption,Option.any_some,EvalValue.bool,decide_true,Bool.true_and,
      heq,heq',eq_comm (a := w),and_self]

/-! ### The filter and the condition -/

theorem schemaColumn_find (hc : schemaColumn schema name = .ok column) :
    ∃ hlt : column < schema.length,
      schema.find? (fun c => c.name = name) = some schema[column] := by
  obtain ⟨hlt,hname⟩ := List.findIdx?_eq_some_iff_findIdx_eq.mp (schemaColumn_ok hc)
  refine ⟨hlt,?_⟩
  rw [List.find?_eq_getElem?_findIdx,hname,List.getElem?_eq_getElem hlt]

theorem column_conforms (hrow : RowConforms schema row)
    (hc : schemaColumn schema name = .ok column) :
    ∃ c, schema.find? (fun c => c.name = name) = some c ∧
      ColumnConforms c (row.getD column .null) := by
  obtain ⟨hlt,hfind⟩ := schemaColumn_find hc
  have hrlt : column < row.length := hrow.length_eq ▸ hlt
  refine ⟨schema[column],hfind,?_⟩
  rw [List.getD_eq_getElem?_getD,List.getElem?_eq_getElem hrlt]
  exact (List.forall₂_iff_get.mp hrow).2 column hlt hrlt

theorem checkPredicate_equal (hp : checkPredicate p schema = .ok ()) (hk : p.kind = .equal) :
    p.value ≠ .null ∧
      ∃ c, schema.find? (fun c => c.name = p.column) = some c ∧ c.type = p.value.type := by
  rw [checkPredicate] at hp
  split at hp
  · cases hp
  · next c hc =>
    rw [if_neg (by simp [hk])] at hp
    split_ifs at hp with hn ht
    · cases hp
    · cases hp
    · exact ⟨hn,c,hc,not_not.mp ht⟩

theorem schemaColumn_of_checkPredicate (hp : checkPredicate p schema = .ok ()) :
    ∃ column, schemaColumn schema p.column = .ok column := by
  rw [checkPredicate] at hp
  split at hp
  · cases hp
  · next c hc =>
    rw [List.find?_eq_getElem?_findIdx] at hc
    have hlt := (List.getElem?_eq_some_iff.mp hc).1
    have hindex := List.findIdx?_eq_some_iff_findIdx_eq.mpr ⟨hlt,rfl⟩
    exact ⟨_,by rw [schemaColumn,findColumnIndex,hindex]⟩

theorem predicateMatches_equal (hk : p.kind = .equal) (hn : p.value ≠ .null) :
    predicateMatches p v = decide (v = p.value) := by
  rw [predicateMatches,hk,Bool.eq_iff_iff,decide_eq_true_iff,decide_eq_true_iff]
  constructor
  · exact fun h => h.2.2
  · rintro rfl
    exact ⟨hn,rfl,rfl⟩

/-- SELECT returns the rows whose value matches the condition. -/
theorem selectsRow_eq (he : extractPredicate e = some p)
    (hc : schemaColumn schema p.column = .ok column) (hp : checkPredicate p schema = .ok ())
    (hrow : RowConforms schema row) :
    selectsRow schema runner e row = predicateMatches p (row.getD column .null) := by
  have hequal {left right : Expr} {name : String} {value : Value} (hl : bareColumn left = some name)
      (hr : extractLiteralValue right = some value) (hpe : p = {column := name,value := value}) :
      selectsRow schema runner (.binary "=" left right) row =
          predicateMatches p (row.getD column .null) ∧
        selectsRow schema runner (.binary "=" right left) row =
          predicateMatches p (row.getD column .null) := by
    subst hpe
    obtain ⟨hn,c,hfind,htype⟩ := checkPredicate_equal hp rfl
    obtain ⟨c',hfind',hconf⟩ := column_conforms hrow hc
    obtain rfl := Option.some.inj (hfind.symm.trans hfind')
    obtain ⟨l,rfl,hlit,-⟩ := extractLiteralValue_eq hr
    obtain rfl := bareColumn_eq hl
    have hvalue : row.getD column .null = .null ∨ (row.getD column .null).type = value.type :=
      hconf.imp id fun ht => ht.trans htype
    have hnone (v : EvalValue) : shortCircuit "=" v = none :=
      shortCircuit_eq_none (Or.inl (by decide))
    have hcombine := combine_fromValue hn hvalue
    rw [predicateMatches_equal rfl hn,selectsRow,selectsRow,outcome_binary,outcome_binary,
      outcome_column hc hrow,outcome_literal,hlit]
    simp only [Except.bind,hnone]
    exact hcombine
  unfold extractPredicate at he
  split at he
  · next operand negated =>
    cases hb : bareColumn operand with
    | none => simp [hb] at he
    | some name =>
      rw [hb,Option.map_some,Option.some.injEq] at he
      subst he
      obtain rfl := bareColumn_eq hb
      rw [selectsRow,outcome_isNull,outcome_column hc hrow]
      simp only [Except.map,Except.toOption,Option.any_some,EvalValue.bool,decide_true,
        Bool.true_and,isNull_fromValue,predicateMatches]
      cases negated <;> simp
  · next left right =>
    split at he
    · next name value hl hr => exact (hequal hl hr (Option.some.inj he).symm).1
    · split at he
      · next name value hl hr => exact (hequal hl hr (Option.some.inj he).symm).2
      · cases he
  · cases he

/-- The filter, the row locks and the executors agree on an equality. -/
theorem matchesWhere_equal (hk : p.kind = .equal) (hp : checkPredicate p schema = .ok ()) :
    matchesWhere (some column) p.value row = predicateMatches p (row.getD column .null) := by
  rw [matchesWhere,Option.all_some,predicateMatches_equal hk (checkPredicate_equal hp hk).1]

/-- The row locks are on the selected rows. -/
theorem matchingRids_selected {t : Table} (he : extractPredicate e = some p)
    (hc : schemaColumn t.schema p.column = .ok column) (hp : checkPredicate p t.schema = .ok ())
    (hrows : ∀ r ∈ t.rows, RowConforms t.schema r.2) :
    matchingRids t p = .ok ((t.rows.filter fun r => selectsRow t.schema runner e r.2).map
      Prod.fst) := by
  rw [matchingRids,hc,Except.map]
  congr 2
  refine List.filter_congr fun r hr => ?_
  rw [selectsRow_eq he hc hp (hrows r hr)]
  cases hk : p.kind with
  | equal => simp [predicateMatches_equal hk (checkPredicate_equal hp hk).1]
  | isNull => simp [hk,predicateMatches]
  | isNotNull => simp [hk,predicateMatches]

end Execution
end OurSql
