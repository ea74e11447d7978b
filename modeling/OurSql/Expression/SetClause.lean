import OurSql.Expression.Arithmetic
import OurSql.Expression.Outcome

/-! `EvaluateUpdateExpression` beside `EvaluateExpression`: they agree where every operand
is an integer, and elsewhere UPDATE refuses what SELECT answers. -/
namespace OurSql
namespace Expression

open Data CompileExpr

variable {Query σ : Type} {schema : Schema} {row : Row}

/-- Columns, literals, unary minus and binary arithmetic. -/
inductive SetExpression : CompileExpr Query → Prop
  | column (tableName name : String) : SetExpression (.column tableName name)
  | literal (l : CompileLiteral) : SetExpression (.literal l)
  | negation {operand : CompileExpr Query} : SetExpression operand →
    SetExpression (.unary "-" operand)
  | arithmetic {op : String} {left right : CompileExpr Query} : isArithmetic op = true →
    SetExpression left → SetExpression right → SetExpression (.binary op left right)

/-- SELECT's answer, for an expression that only its row can decide. -/
def selectValue (schema : Schema) (row : Row) (e : CompileExpr Query) : Result EvalValue :=
  outcome schema none none row e

/-- The same value, or an error of both. -/
inductive SameOutcome : Result Value → Result EvalValue → Prop
  | value (v : Value) : SameOutcome (.ok v) (.ok (.fromValue v))
  | error (e e' : Failure) : SameOutcome (.error e) (.error e')

def OnlyInt (r : Result EvalValue) : Prop := ∀ v, r = .ok v → v.kind = .int

/-- No operand is NULL or a string, and no literal is NULL or BOOL. -/
def IntOperands (schema : Schema) (row : Row) : CompileExpr Query → Prop
  | .literal l => l.kind = .int ∨ l.kind = .string
  | .unary _ operand => IntOperands schema row operand ∧ OnlyInt (selectValue schema row operand)
  | .binary _ left right =>
    (IntOperands schema row left ∧ OnlyInt (selectValue schema row left)) ∧
      IntOperands schema row right ∧ OnlyInt (selectValue schema row right)
  | _ => True

/-- The two answers agree if `p` holds, and UPDATE fails if it does not. -/
def AgreeIf (p : Prop) (update : Result Value) (select : Result EvalValue) : Prop :=
  (p → SameOutcome update select) ∧ (¬ p → ∃ e, update = .error e)

/-! ### SELECT reads such an expression off the row -/

theorem evaluate_unit (e : CompileExpr Query) :
    evaluateExpression schema (none : Option (SubqueryRunner Query Unit)) e none row =
      .lift (selectValue schema row e) := rfl

theorem SetExpression.evaluate {e : CompileExpr Query} (h : SetExpression e)
    (runner : Option (SubqueryRunner Query σ)) (group : Option (List Row)) :
    evaluateExpression schema runner e group row = .lift (selectValue schema row e) := by
  induction h with
  | column tableName name => simp only [selectValue,outcome,evaluateExpression,Eval.lift]
  | literal l => simp only [selectValue,outcome,evaluateExpression,Eval.ok,Eval.lift]
  | negation _ ih =>
    rw [selectValue,outcome,evaluateExpression,evaluateExpression,ih,evaluate_unit]
    funext s
    cases selectValue schema row _ <;> rfl
  | arithmetic hop _ _ ihl ihr =>
    rw [selectValue,outcome,evaluateExpression,evaluateExpression,ihl,ihr,evaluate_unit,
      evaluate_unit]
    funext s
    cases selectValue schema row _ with
    | error e => rfl
    | ok l =>
      simp only [Eval.bind,Eval.lift]
      cases shortCircuit _ l with
      | some b => rfl
      | none => cases selectValue schema row _ <;> rfl

/-! ### Node by node -/

theorem sameOutcome_of_answers {update : Result Value} {select : Result EvalValue}
    {n : Option Int64} (hu : Answers Value.int update n) (hs : Answers EvalValue.int select n) :
    SameOutcome update select := by
  cases n with
  | some n =>
    have hu : update = .ok (.int n) := hu
    have hs : select = .ok (.int n) := hs
    exact hu ▸ hs ▸ .value (.int n)
  | none =>
    obtain ⟨m,rfl⟩ := hu
    obtain ⟨m',rfl⟩ := hs
    exact .error _ _

theorem AgreeIf.outcomes {p : Prop} {update : Result Value} {select : Result EvalValue}
    (h : AgreeIf p update select) :
    (p ∧ ∃ v, update = .ok v ∧ select = .ok (.fromValue v)) ∨
      (p ∧ ∃ e e', update = .error e ∧ select = .error e') ∨ (¬ p ∧ ∃ e, update = .error e) := by
  by_cases hp : p
  · cases h.1 hp with
    | value v => exact Or.inl ⟨hp,v,rfl,rfl⟩
    | error e e' => exact Or.inr (Or.inl ⟨hp,e,e',rfl,rfl⟩)
  · exact Or.inr (Or.inr ⟨hp,h.2 hp⟩)

theorem onlyInt_ok {v : EvalValue} {r : Result EvalValue} (h : r = .ok v) :
    OnlyInt r ↔ v.kind = .int := by
  subst h
  exact ⟨fun ho => ho v rfl,fun hk w hw => by cases hw; exact hk⟩

theorem onlyInt_error {e : Failure} {r : Result EvalValue} (h : r = .error e) : OnlyInt r := by
  subst h
  exact fun v hv => by cases hv

theorem column_agrees (hw : schema.length ≤ row.length) (tableName name : String) :
    SameOutcome (evaluateUpdateExpression schema row (.column tableName name : CompileExpr Query))
      (selectValue schema row (.column tableName name : CompileExpr Query)) := by
  simp only [selectValue,outcome,evaluateUpdateExpression,evaluateExpression,Eval.lift,
    evaluateColumn]
  cases hi : findColumnIndex schema name with
  | none => exact .error _ _
  | some index =>
    have hlt : index < row.length := by
      have hlt := (List.findIdx?_eq_some_iff_findIdx_eq.mp hi).1
      omega
    simp only [List.getD_eq_getElem?_getD,List.getElem?_eq_getElem hlt]
    exact .value _

theorem literal_agrees (l : CompileLiteral) :
    AgreeIf (l.kind = .int ∨ l.kind = .string)
      (evaluateUpdateExpression schema row (.literal l : CompileExpr Query))
      (selectValue schema row (.literal l : CompileExpr Query)) := by
  have hselect : selectValue schema row (.literal l : CompileExpr Query) = .ok l.value := by
    rw [selectValue,outcome,evaluateExpression]
    rfl
  rw [hselect,evaluateUpdateExpression]
  cases hk : l.kind with
  | int => exact ⟨fun _ => value_int hk ▸ .value (.int l.integer),fun h => absurd (.inl rfl) h⟩
  | string =>
    exact ⟨fun _ => value_string hk ▸ .value (.varchar l.text),fun h => absurd (.inr rfl) h⟩
  | bool => exact ⟨fun h => by simp at h,fun _ => ⟨_,rfl⟩⟩
  | null => exact ⟨fun h => by simp at h,fun _ => ⟨_,rfl⟩⟩

theorem eq_int_of_kind {v : Value} (h : (EvalValue.fromValue v).kind = .int) : ∃ n, v = .int n := by
  cases v with
  | int n => exact ⟨n,rfl⟩
  | null => exact absurd h (by decide)
  | varchar text => exact absurd h (by simp [EvalValue.fromValue,EvalValue.string])

theorem negation_agrees {operand : CompileExpr Query}
    (h : AgreeIf (IntOperands schema row operand) (evaluateUpdateExpression schema row operand)
      (selectValue schema row operand)) :
    AgreeIf (IntOperands schema row (.unary "-" operand))
      (evaluateUpdateExpression schema row (.unary "-" operand))
      (selectValue schema row (.unary "-" operand)) := by
  rcases h.outcomes with ⟨hi,v,hu,hs⟩ | ⟨hi,e,e',hu,hs⟩ | ⟨hi,e,hu⟩
  · cases v with
    | int n =>
      have hexact : NegationExact Query Unit n := negationExact n
      have hvalue : evaluateExpression schema (none : Option (SubqueryRunner Query Unit)) operand
          none row () = (.ok (.int n),()) := by
        rw [evaluate_unit,hs]
        rfl
      obtain ⟨result,hr,ha⟩ := hexact.evaluated hvalue rfl rfl
      have hresult : selectValue schema row (.unary "-" operand) = result := by
        rw [selectValue,outcome,hr]
      exact ⟨fun _ => hresult ▸ sameOutcome_of_answers (hexact.updated hu) ha,
        fun hn => absurd ⟨hi,(onlyInt_ok hs).mpr rfl⟩ hn⟩
    | null =>
      refine ⟨fun hp => absurd ((onlyInt_ok hs).mp hp.2) (by decide),fun _ => ?_⟩
      rw [evaluateUpdateExpression,hu]
      exact ⟨_,rfl⟩
    | varchar text =>
      refine ⟨fun hp => absurd ((onlyInt_ok hs).mp hp.2) (by simp [EvalValue.fromValue,
        EvalValue.string]),fun _ => ?_⟩
      rw [evaluateUpdateExpression,hu]
      exact ⟨_,rfl⟩
  · refine ⟨fun _ => ?_,fun hn => absurd ⟨hi,onlyInt_error hs⟩ hn⟩
    rw [evaluateUpdateExpression,hu,selectValue,outcome,evaluateExpression,evaluate_unit,hs]
    exact .error _ _
  · refine ⟨fun hp => absurd hp.1 hi,fun _ => ⟨e,?_⟩⟩
    rw [evaluateUpdateExpression,hu]

/-- An operand is no integer, or both evaluators have refused it. -/
theorem arithmetic_agrees {op : String} {left right : CompileExpr Query}
    (hop : isArithmetic op = true)
    (hl : AgreeIf (IntOperands schema row left) (evaluateUpdateExpression schema row left)
      (selectValue schema row left))
    (hr : AgreeIf (IntOperands schema row right) (evaluateUpdateExpression schema row right)
      (selectValue schema row right)) :
    AgreeIf (IntOperands schema row (.binary op left right))
      (evaluateUpdateExpression schema row (.binary op left right))
      (selectValue schema row (.binary op left right)) := by
  rcases hl.outcomes with ⟨hil,v,hul,hsl⟩ | ⟨hil,e,e',hul,hsl⟩ | ⟨hil,e,hul⟩
  · rcases hr.outcomes with ⟨hir,w,hur,hsr⟩ | ⟨hir,e,e',hur,hsr⟩ | ⟨hir,e,hur⟩
    · by_cases hint : ∃ n m, v = .int n ∧ w = .int m
      · obtain ⟨n,m,rfl,rfl⟩ := hint
        have hexact : BinaryExact Query Unit op n m := binaryExact hop n m
        have hlvalue : evaluateExpression schema (none : Option (SubqueryRunner Query Unit)) left
            none row () = (.ok (.int n),()) := by
          rw [evaluate_unit,hsl]
          rfl
        have hrvalue : evaluateExpression schema (none : Option (SubqueryRunner Query Unit)) right
            none row () = (.ok (.int m),()) := by
          rw [evaluate_unit,hsr]
          rfl
        obtain ⟨result,hresult,ha⟩ := hexact.evaluated hlvalue rfl rfl hrvalue rfl rfl
        have hselect : selectValue schema row (.binary op left right) = result := by
          rw [selectValue,outcome,hresult]
        exact ⟨fun _ => hselect ▸ sameOutcome_of_answers (hexact.updated hul hur) ha,
          fun hn => absurd ⟨⟨hil,(onlyInt_ok hsl).mpr rfl⟩,hir,(onlyInt_ok hsr).mpr rfl⟩ hn⟩
      · refine ⟨fun hp => absurd ?_ hint,fun _ => ?_⟩
        · obtain ⟨n,rfl⟩ := eq_int_of_kind ((onlyInt_ok hsl).mp hp.1.2)
          obtain ⟨m,rfl⟩ := eq_int_of_kind ((onlyInt_ok hsr).mp hp.2.2)
          exact ⟨n,m,rfl,rfl⟩
        · rw [evaluateUpdateExpression,hul,hur]
          cases v with
          | int n => cases w with
            | int m => exact absurd ⟨n,m,rfl,rfl⟩ hint
            | _ => exact ⟨_,rfl⟩
          | _ => exact ⟨_,rfl⟩
    · have herror : evaluateUpdateExpression schema row (.binary op left right) = .error e := by
        rw [evaluateUpdateExpression,hul,hur]
      refine ⟨fun hp => ?_,fun _ => ⟨e,herror⟩⟩
      have hshort : shortCircuit op (.fromValue v) = none :=
        shortCircuit_eq_none (Or.inr (by rw [(onlyInt_ok hsl).mp hp.1.2]; decide))
      rw [herror,selectValue,outcome,evaluateExpression,evaluate_unit,hsl,Eval.lift_ok,
        Eval.bind_ok,hshort,evaluate_unit,hsr]
      exact .error _ _
    · refine ⟨fun hp => absurd hp.2.1 hir,fun _ => ⟨e,?_⟩⟩
      rw [evaluateUpdateExpression,hul,hur]
  · have herror : evaluateUpdateExpression schema row (.binary op left right) = .error e := by
      rw [evaluateUpdateExpression,hul]
    refine ⟨fun _ => ?_,fun _ => ⟨e,herror⟩⟩
    rw [herror,selectValue,outcome,evaluateExpression,evaluate_unit,hsl]
    exact .error _ _
  · refine ⟨fun hp => absurd hp.1.1 hil,fun _ => ⟨e,?_⟩⟩
    rw [evaluateUpdateExpression,hul]

/-- UPDATE's evaluator agrees with SELECT's on an expression whose operands are integers,
in every row of the table, and fails on every other one. -/
theorem updateExpression_agrees {e : CompileExpr Query} (h : SetExpression e)
    (hw : schema.length ≤ row.length) (runner : Option (SubqueryRunner Query σ))
    (group : Option (List Row)) (s : σ) :
    AgreeIf (IntOperands schema row e) (evaluateUpdateExpression schema row e)
      (evaluateExpression schema runner e group row s).1 := by
  rw [h.evaluate]
  change AgreeIf _ _ (selectValue schema row e)
  induction h with
  | column tableName name =>
    exact ⟨fun _ => column_agrees hw tableName name,fun hn => absurd trivial hn⟩
  | literal l => exact literal_agrees l
  | negation _ ih => exact negation_agrees ih
  | arithmetic hop _ _ ihl ihr => exact arithmetic_agrees hop ihl ihr

/-- One column of integers, read by the two examples. -/
def balance : Schema := [{name := "balance",type := .int}]

def addOne : CompileExpr Unit := .binary "+" (.column "" "balance") (makeInt 1)

theorem updateExpression_agrees_int :
    evaluateUpdateExpression balance [.int 41] addOne = .ok (.int 42) ∧
      SameOutcome (evaluateUpdateExpression balance [.int 41] addOne)
        (selectValue balance [.int 41] addOne) := by
  have h : SetExpression addOne := .arithmetic (by decide) (.column _ _) (.literal _)
  have hagree : AgreeIf (IntOperands balance [.int 41] addOne)
      (evaluateUpdateExpression balance [.int 41] addOne) (selectValue balance [.int 41] addOne) :=
    updateExpression_agrees h (by decide) (none : Option (SubqueryRunner Unit Unit)) none ()
  refine ⟨by rfl,hagree.1 ⟨⟨trivial,?_⟩,Or.inl rfl,?_⟩⟩
  · exact (onlyInt_ok (v := .int 41) (by rfl)).mpr rfl
  · exact (onlyInt_ok (v := .int 1) (by rfl)).mpr rfl

/-- On a NULL column SELECT answers NULL where UPDATE fails. -/
theorem updateExpression_null : SetExpression addOne ∧
    selectValue balance [.null] addOne = .ok .null ∧
    ¬ SameOutcome (evaluateUpdateExpression balance [.null] addOne)
      (selectValue balance [.null] addOne) := by
  have hselect : selectValue balance [.null] addOne = .ok .null := by rfl
  have hupdate : evaluateUpdateExpression balance [.null] addOne =
    fail .typeMismatch "UPDATE SET 算术运算需要 INT 操作数" := by rfl
  refine ⟨.arithmetic (by decide) (.column _ _) (.literal _),hselect,?_⟩
  rw [hselect,hupdate]
  intro h
  cases h

end Expression
end OurSql
