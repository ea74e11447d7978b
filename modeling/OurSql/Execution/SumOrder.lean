import OurSql.Lib.RunningSum
import OurSql.Expression.Sound
import OurSql.Execution.GroupBy

/-! SUM and AVG over the rows of a group in every order they may come in: the running sum is
checked for overflow on every row, so that the outcome belongs to the order. -/
namespace OurSql
namespace Execution

open Data Expression RunningSum

variable {Query : Type} {schema : Schema} {context : String} {build : Option (Build Query)}
  {runner : Option (SubqueryRunner Query Unit)} {kind : CompileAggregateKind}
  {argument : CompileExpr Query} {row : Row} {rows order : List Row} {v : EvalValue}

/-! ### What the planner makes sure of -/

theorem int_of_unary {op : String} {o : CompileType} {w : EvalValue}
    (hc : checkUnary context op o = .ok .int) (h : evaluateUnary op w = .ok v) : Conforms .int v := by
  unfold checkUnary at hc
  unfold evaluateUnary at h
  by_cases ho : o = .null
  · rw [if_pos ho] at hc
    cases hc
  by_cases hn : op = "not"
  · rw [if_neg ho,if_pos hn] at hc
    split_ifs at hc
    · cases hc
    · cases hc
  by_cases hw : w.isNull = true
  · rw [if_pos hw] at h
    cases h
    exact Or.inl (by simpa [EvalValue.isNull] using hw)
  rw [if_neg hw,if_neg fun hc => hn hc.1] at h
  split_ifs at h
  · cases h
  · cases h
    exact conforms_int _
  · cases h

/-- Only arithmetic has the type INT. -/
theorem arithmetic_of_check {op : String} {l r : CompileType}
    (hc : checkBinary context op l r = .ok .int) :
    isArithmetic op = true ∧ ¬ (op = "and" ∨ op = "or") := by
  unfold checkBinary at hc
  by_cases hl : op = "and" ∨ op = "or"
  · rw [if_pos hl] at hc
    split_ifs at hc <;> cases hc
  rw [if_neg hl] at hc
  by_cases ha : isArithmetic op = true
  · exact ⟨ha,hl⟩
  rw [if_neg ha] at hc
  split_ifs at hc <;> cases hc

theorem int_of_combine {op : String} {x y : EvalValue} (ha : isArithmetic op = true)
    (hl : ¬ (op = "and" ∨ op = "or")) (h : combine op x y = .ok v) : Conforms .int v := by
  have hlike : ¬ (op = "like" ∨ op = "not like") := by
    simp only [isArithmetic,decide_eq_true_eq] at ha
    rcases ha with rfl | rfl | rfl | rfl <;> decide
  rw [combine,if_neg hl] at h
  by_cases hn : x.isNull = true ∨ y.isNull = true
  · rw [if_pos hn] at h
    cases h
    exact conforms_null _
  rw [if_neg hn,if_neg hlike,if_pos ha] at h
  have hsound : Expression.Outcome (Conforms .int)
      (RuntimeError (none : Option (SubqueryRunner Empty Unit)))
      (arithmetic op x.integer y.integer) := arithmetic_sound op x.integer y.integer
  rw [h] at hsound
  exact hsound

theorem checkSubquery_int {subquery : CompileSubqueryKind} {query : Option Query}
    {operand : Result CompileType}
    (hc : checkSubquery context build subquery query operand = .ok .int) :
    (∃ q b, query = some q ∧ build = some b) ∧ subquery ≠ .membership := by
  unfold checkSubquery at hc
  cases query with
  | none => cases hc
  | some q =>
    cases build with
    | none => cases hc
    | some b =>
      refine ⟨⟨q,b,rfl,rfl⟩,?_⟩
      rintro rfl
      dsimp only at hc
      rw [bind_eq_ok] at hc
      obtain ⟨types,-,hc⟩ := hc
      cases types with
      | none => cases hc
      | some types =>
        dsimp only at hc
        rw [if_neg (by decide),bind_eq_ok] at hc
        obtain ⟨result,-,hc⟩ := hc
        rw [if_pos rfl,bind_eq_ok] at hc
        obtain ⟨o,-,hc⟩ := hc
        unfold checkInSubquery at hc
        split_ifs at hc <;> cases hc

/-- An expression of type INT has integers for values, whatever its parts have. -/
theorem int_of_check (hrun : ContextConforms build runner) {e : CompileExpr Query}
    (hrow : RowConforms schema row) (hc : checkCompileExpr schema context build e false = .ok .int)
    (h : outcome schema runner none row e = .ok v) : Conforms .int v := by
  cases e with
  | nullptr =>
    rw [checkCompileExpr] at hc
    cases hc
  | column table name =>
    rw [checkCompileExpr] at hc
    rw [outcome,evaluateExpression] at h
    have hsound : Expression.Outcome (Conforms .int) (RuntimeError runner)
      (evaluateColumn schema name row) := column_sound hc hrow
    have h : evaluateColumn schema name row = .ok v := h
    rw [h] at hsound
    exact hsound
  | literal l =>
    rw [checkCompileExpr] at hc
    rw [outcome,evaluateExpression] at h
    cases h
    exact Except.ok.inj hc ▸ literal_sound l
  | unary op operand =>
    rw [checkCompileExpr,bind_eq_ok] at hc
    obtain ⟨o,-,hc⟩ := hc
    rw [outcome_unary,bind_eq_ok] at h
    obtain ⟨w,-,h⟩ := h
    exact int_of_unary hc h
  | isNull operand negated =>
    rw [checkCompileExpr,bind_eq_ok] at hc
    obtain ⟨o,-,hc⟩ := hc
    cases hc
  | between operand lower upper negated =>
    rw [checkCompileExpr,bind_eq_ok] at hc
    obtain ⟨o,-,hc⟩ := hc
    rw [bind_eq_ok] at hc
    obtain ⟨l,-,hc⟩ := hc
    rw [bind_eq_ok] at hc
    obtain ⟨u,-,hc⟩ := hc
    unfold checkBetween at hc
    split_ifs at hc <;> cases hc
  | inList operand options negated =>
    rw [checkCompileExpr,ite_fail_eq_ok,bind_eq_ok] at hc
    obtain ⟨-,o,-,hc⟩ := hc
    rw [bind_eq_ok] at hc
    obtain ⟨u,-,hc⟩ := hc
    cases hc
  | subquery subquery query operand negated =>
    rw [checkCompileExpr] at hc
    obtain ⟨⟨q,b,rfl,hb⟩,hk⟩ := checkSubquery_int hc
    obtain ⟨run,hr,hconf⟩ := hrun b hb
    have hsound : Eval.Yields (Conforms .int) (RuntimeError runner)
        ((run q).bind fun result => subqueryAnswer subquery negated
          (evaluateExpression schema runner operand none row) result) :=
      subquery_sound hb hr hconf (fun hm => absurd hm hk) hc
    have hsound := hsound ()
    subst hr
    rw [outcome,evaluateExpression] at h
    rw [h] at hsound
    exact hsound
  | aggregate k star a => exact absurd (check_aggregate hc).1 Bool.false_ne_true
  | binary op left right =>
    rw [checkCompileExpr,bind_eq_ok] at hc
    obtain ⟨l,-,hc⟩ := hc
    rw [bind_eq_ok] at hc
    obtain ⟨r,-,hc⟩ := hc
    obtain ⟨ha,hl⟩ := arithmetic_of_check hc
    rw [outcome_binary,bind_eq_ok] at h
    obtain ⟨x,-,h⟩ := h
    have hs : shortCircuit op x = none := by
      rw [not_or] at hl
      simp [shortCircuit,hl.1,hl.2]
    rw [hs] at h
    obtain ⟨y,-,h⟩ := bind_eq_ok.mp h
    exact int_of_combine ha hl h

/-! ### The loop -/

def overflowFailure : Failure := ⟨.invalidArgument,"聚合整数溢出"⟩

/-- The running sum of the loop. -/
def runSum (s : ℤ) (xs : List (Result ℤ)) : Result ℤ :=
  run Int64.minValue.toInt Int64.maxValue.toInt overflowFailure s xs

/-- What a row adds to the sum: nothing where the argument is NULL. -/
def amount (answer : Result EvalValue) : Result ℤ :=
  answer.map fun v => if v.isNull then 0 else v.integer.toInt

/-- The rows on which the argument has a value other than NULL. -/
def counted (answers : List (Result EvalValue)) : ℕ :=
  answers.countP fun answer => answer.toOption.any fun v => !v.isNull

/-- What SUM or AVG stores for a sum over `count` values. -/
def sumValue (kind : CompileAggregateKind) (count : ℕ) (sum : ℤ) : Value :=
  if count = 0 then .null
  else .int (if kind = .avg then Int64.ofInt sum / Int64.ofNat count else Int64.ofInt sum)

theorem inRange_iff (n : ℤ) :
    InRange Int64.minValue.toInt Int64.maxValue.toInt n ↔ Machine.Fits n := Iff.rfl

section loop

variable {value : Row → Eval Unit EvalValue} {a : EvalValue} {s : ℤ} {n : ℕ}

/-- What the rows answer one after the other. -/
def answersOf (value : Row → Eval Unit EvalValue) (rows : List Row) : List (Result EvalValue) :=
  rows.map fun row => (value row ()).1

theorem accumulate_eq (hk : kind = .sum ∨ kind = .avg) (a v : EvalValue) :
    accumulate kind a v = if Machine.Fits (a.integer.toInt + v.integer.toInt) then
      .ok { a with integer := a.integer + v.integer } else .error overflowFailure := by
  rw [accumulate,if_pos hk]
  by_cases hf : Machine.Fits (a.integer.toInt + v.integer.toInt)
  · rw [if_pos hf,addOverflows_eq_false.mpr hf]
    rfl
  · have ho : addOverflows a.integer v.integer = true :=
      Bool.eq_true_of_not_eq_false fun ho => hf (addOverflows_eq_false.mp ho)
    rw [if_neg hf,ho]
    rfl

theorem storage_end (hk : kind = .sum ∨ kind = .avg) (ha : a.kind = .int) (hn : 0 < n) :
    toStorageValue (aggregateEnd kind (Int64.ofNat n) (some a)) =
      .ok (sumValue kind n a.integer.toInt) := by
  have hpos : n ≠ 0 := Nat.pos_iff_ne_zero.mp hn
  unfold aggregateEnd sumValue
  rw [if_neg hpos,Int64.ofInt_toInt]
  rcases hk with rfl | rfl <;> simp [toStorageValue,ha]

theorem bind_fst {α β : Type} (x : Eval Unit α) (f : α → Eval Unit β) :
    (x.bind f ()).1 = (x ()).1.bind fun a => (f a ()).1 := by
  rw [Eval.bind]
  cases x () with
  | mk r u => cases r <;> rfl

theorem answersOf_cons (value : Row → Eval Unit EvalValue) (row : Row) (rows : List Row) :
    answersOf value (row::rows) = (value row ()).1::answersOf value rows := rfl

@[simp] theorem counted_error (e : Failure) (answers : List (Result EvalValue)) :
    counted (.error e::answers) = counted answers := rfl

theorem counted_ok (v : EvalValue) (answers : List (Result EvalValue)) :
    counted (.ok v::answers) = counted answers + if v.isNull then 0 else 1 := by
  cases h : v.isNull <;> simp [counted,Except.toOption,h]

theorem runSum_zero {xs : List (Result ℤ)} (hs : Machine.Fits s) :
    runSum s (.ok 0::xs) = runSum s xs := by
  have hin : Int64.minValue.toInt ≤ s + 0 ∧ s + 0 ≤ Int64.maxValue.toInt := by rwa [add_zero]
  rw [runSum,run,if_pos hin,add_zero,runSum]

/-- Once a value was found, the loop is the running sum. -/
theorem aggregateRows_found (hk : kind = .sum ∨ kind = .avg) (ha : a.kind = .int) (hn : 0 < n)
    (hint : ∀ row ∈ rows, ∀ v, (value row ()).1 = .ok v → Conforms .int v) :
    (aggregateRows kind value (some a) (Int64.ofNat n) rows ()).1.bind toStorageValue =
      (runSum a.integer.toInt ((answersOf value rows).map amount)).map
        (sumValue kind (n + counted (answersOf value rows))) := by
  induction rows generalizing a n with
  | nil => exact storage_end hk ha hn
  | cons row rows ih =>
    have hint' := fun r hr => hint r (List.mem_cons_of_mem row hr)
    have hrow := hint row List.mem_cons_self
    rw [aggregateRows,bind_fst,answersOf_cons,List.map_cons]
    cases hv : (value row ()).1 with
    | error e => rfl
    | ok v =>
      rw [hv] at hrow
      rw [counted_ok]
      by_cases hnull : v.isNull = true
      · rw [if_pos hnull,amount,Except.map,if_pos hnull,runSum_zero (Machine.fits_toInt _)]
        refine Eq.trans ?_ (ih ha hn hint')
        rw [Except.bind,if_pos hnull]
      · rw [if_neg hnull,amount,Except.map,if_neg hnull,Except.bind,if_neg hnull]
        dsimp only
        rw [bind_fst,Eval.lift,accumulate_eq hk,runSum,run]
        by_cases hf : Machine.Fits (a.integer.toInt + v.integer.toInt)
        · have hfits : Int64.minValue.toInt ≤ a.integer.toInt + v.integer.toInt ∧
            a.integer.toInt + v.integer.toInt ≤ Int64.maxValue.toInt := hf
          have hcount : Int64.ofNat n + 1 = Int64.ofNat (n + 1) := by rw [Int64.ofNat_add]; rfl
          rw [if_pos hf,if_pos hfits,Except.bind,hcount]
          refine Eq.trans
            (ih (a := { a with integer := a.integer + v.integer }) ha (Nat.succ_pos n) hint') ?_
          rw [Machine.toInt_add hf,runSum,Nat.succ_add_eq_add_succ]
        · have hfits : ¬ (Int64.minValue.toInt ≤ a.integer.toInt + v.integer.toInt ∧
            a.integer.toInt + v.integer.toInt ≤ Int64.maxValue.toInt) := hf
          rw [if_neg hf,if_neg hfits]
          rfl

theorem aggregateRows_none (hk : kind = .sum ∨ kind = .avg)
    (hint : ∀ row ∈ rows, ∀ v, (value row ()).1 = .ok v → Conforms .int v) :
    (aggregateRows kind value none 0 rows ()).1.bind toStorageValue =
      (runSum 0 ((answersOf value rows).map amount)).map
        (sumValue kind (counted (answersOf value rows))) := by
  induction rows with
  | nil => rfl
  | cons row rows ih =>
    have hint' := fun r hr => hint r (List.mem_cons_of_mem row hr)
    have hrow := hint row List.mem_cons_self
    rw [aggregateRows,bind_fst,answersOf_cons,List.map_cons]
    cases hv : (value row ()).1 with
    | error e => rfl
    | ok v =>
      rw [counted_ok]
      by_cases hnull : v.isNull = true
      · rw [if_pos hnull,amount,Except.map,if_pos hnull,runSum_zero (by decide)]
        refine Eq.trans ?_ (ih hint')
        rw [Except.bind,if_pos hnull]
      · have hkind : v.kind = .int :=
          (hrow v hv).kind (Bool.eq_false_of_not_eq_true hnull)
        have hfits : Int64.minValue.toInt ≤ 0 + v.integer.toInt ∧
            0 + v.integer.toInt ≤ Int64.maxValue.toInt := by
          rw [zero_add]
          exact Machine.fits_toInt v.integer
        rw [if_neg hnull,amount,Except.map,if_neg hnull,Except.bind,if_neg hnull]
        dsimp only
        rw [runSum,run,if_pos hfits,zero_add]
        refine (aggregateRows_found (n := 1) hk hkind Nat.one_pos hint').trans ?_
        rw [runSum,Nat.add_comm 1]

end loop

/-! ### A group -/

/-- What SUM or AVG stores in the row of a group. -/
def aggregateAnswer (schema : Schema) (runner : Option (SubqueryRunner Query Unit))
    (kind : CompileAggregateKind) (argument : CompileExpr Query) (group : List RowEntry) :
    Result Value :=
  (groupOutcome schema runner group (.aggregate kind false argument)).bind toStorageValue

/-- What the argument answers on the rows of a group. -/
def argumentAnswers (schema : Schema) (runner : Option (SubqueryRunner Query Unit))
    (argument : CompileExpr Query) (group : List RowEntry) : List (Result EvalValue) :=
  group.map fun entry => outcome schema runner none entry.2 argument

variable {group other : List RowEntry} {allow : Bool} {t : CompileType}

theorem aggregateAnswer_eq (hk : kind = .sum ∨ kind = .avg)
    (hint : ∀ entry ∈ group, ∀ v, outcome schema runner none entry.2 argument = .ok v →
      Conforms .int v) :
    aggregateAnswer schema runner kind argument group =
      (runSum 0 ((argumentAnswers schema runner argument group).map amount)).map
        (sumValue kind (counted (argumentAnswers schema runner argument group))) := by
  have hcount : kind ≠ .count := by rcases hk with rfl | rfl <;> decide
  have hmap : argumentAnswers schema runner argument group =
      answersOf (evaluateExpression schema runner argument none) (group.map Prod.snd) := by
    rw [answersOf,List.map_map]
    rfl
  unfold aggregateAnswer groupOutcome
  rw [outcome,evaluateExpression,hmap,if_neg hcount]
  refine aggregateRows_none hk fun row hrow v hv => ?_
  obtain ⟨entry,hentry,rfl⟩ := List.mem_map.mp hrow
  exact hint entry hentry v hv

theorem argument_conforms (hk : kind = .sum ∨ kind = .avg) (hrun : ContextConforms build runner)
    (hc : checkCompileExpr schema context build (.aggregate kind false argument) allow = .ok t)
    (hrow : RowConforms schema row) (h : outcome schema runner none row argument = .ok v) :
    Conforms .int v := by
  obtain ⟨type,htype,hagg⟩ := (check_aggregate hc).2.2 Bool.false_ne_true
  have hint : type = .int := by
    have hcount : kind ≠ .count := by rcases hk with rfl | rfl <;> decide
    by_contra hne
    rw [checkAggregate,if_neg hcount,if_pos hk,if_pos hne] at hagg
    cases hagg
  subst hint
  exact int_of_check hrun hrow htype h

/-! ### The rows that answer -/

theorem answers_ok {answers : List (Result EvalValue)} (h : failures (answers.map amount) = []) :
    ∃ vs : List EvalValue, answers = vs.map .ok := by
  induction answers with
  | nil => exact ⟨[],rfl⟩
  | cons answer answers ih =>
    cases answer with
    | error e => cases h
    | ok v =>
      obtain ⟨vs,hvs⟩ := ih h
      exact ⟨v::vs,by rw [hvs,List.map_cons]⟩

theorem failures_values (vs : List EvalValue) :
    failures ((vs.map Except.ok).map amount) = [] := by
  induction vs with
  | nil => rfl
  | cons v vs ih => exact ih

theorem total_take (vs : List EvalValue) (k : ℕ) :
    ((amounts ((vs.map Except.ok).map amount)).take k).sum = total (nonNull (vs.take k)) := by
  induction vs generalizing k with
  | nil => simp [total,nonNull]
  | cons v vs ih =>
    cases k with
    | zero => simp [total,nonNull]
    | succ k =>
      have hcons : amounts (((v::vs).map Except.ok).map amount) =
          (if v.isNull then 0 else v.integer.toInt)::amounts ((vs.map Except.ok).map amount) := rfl
      rw [hcons,List.take_succ_cons,List.sum_cons,ih,List.take_succ_cons,nonNull_cons]
      by_cases hn : v.isNull = true
      · rw [if_pos hn,if_pos hn,zero_add]
      · rw [if_neg hn,if_neg hn,total_cons]

theorem total_values (vs : List EvalValue) :
    (amounts ((vs.map Except.ok).map amount)).sum = total (nonNull vs) := by
  have h := total_take vs (max vs.length (amounts ((vs.map Except.ok).map amount)).length)
  rwa [List.take_of_length_le (le_max_right _ _),List.take_of_length_le (le_max_left _ _)] at h

theorem counted_values (vs : List EvalValue) :
    counted (vs.map Except.ok) = (nonNull vs).length := by
  induction vs with
  | nil => rfl
  | cons v vs ih =>
    rw [List.map_cons,counted_ok,ih,nonNull_cons]
    cases v.isNull <;> rfl

/-- Every amount is a 64-bit integer. -/
theorem amount_fits {answers : List (Result EvalValue)} {n : ℤ}
    (h : n ∈ amounts (answers.map amount)) : Machine.Fits n := by
  obtain ⟨x,hx,hn⟩ := List.mem_filterMap.mp h
  obtain ⟨answer,-,rfl⟩ := List.mem_map.mp hx
  cases answer with
  | error e => cases hn
  | ok v =>
    have hn : (if v.isNull then 0 else v.integer.toInt) = n := Option.some.inj hn
    rw [← hn]
    split_ifs
    · decide
    · exact Machine.fits_toInt _

theorem forall₂_answers {vs : List EvalValue} :
    List.Forall₂ (fun entry w => outcome schema runner none entry.2 argument = .ok w) group vs ↔
      argumentAnswers schema runner argument group = vs.map .ok := by
  rw [argumentAnswers,← List.forall₂_eq_eq_eq,List.forall₂_map_left_iff,List.forall₂_map_right_iff]

/-- In one order: SUM and AVG answer when the argument does on every row and every running sum
fits, and then they answer for the exact sum. -/
theorem aggregateAnswer_ok {x : Value} (hk : kind = .sum ∨ kind = .avg)
    (hint : ∀ entry ∈ group, ∀ v, outcome schema runner none entry.2 argument = .ok v →
      Conforms .int v) :
    aggregateAnswer schema runner kind argument group = .ok x ↔ ∃ vs,
      List.Forall₂ (fun entry w => outcome schema runner none entry.2 argument = .ok w) group vs ∧
        (∀ k, Machine.Fits (total (nonNull (vs.take k)))) ∧
        x = sumValue kind (nonNull vs).length (total (nonNull vs)) := by
  have h0 : InRange Int64.minValue.toInt Int64.maxValue.toInt 0 :=
    (inRange_iff 0).mpr (by decide)
  rw [aggregateAnswer_eq hk hint]
  constructor
  · intro h
    cases hr : runSum 0 ((argumentAnswers schema runner argument group).map amount) with
    | error e =>
      rw [hr] at h
      cases h
    | ok s =>
      rw [hr] at h
      obtain ⟨hf,hs,hfits⟩ := (run_eq_ok h0).mp hr
      obtain ⟨vs,hvs⟩ := answers_ok hf
      rw [hvs] at hfits hs h
      simp only [zero_add,total_take,total_values] at hfits hs
      refine ⟨vs,forall₂_answers.mpr hvs,hfits,?_⟩
      rw [counted_values,hs] at h
      exact (Except.ok.inj h).symm
  · rintro ⟨vs,hvs,hfits,rfl⟩
    rw [forall₂_answers.mp hvs,counted_values]
    have hr : runSum 0 ((vs.map Except.ok).map amount) = .ok (total (nonNull vs)) := by
      refine (run_eq_ok h0).mpr ⟨failures_values vs,?_,fun k => ?_⟩
      · rw [total_values,zero_add]
      · rw [total_take,zero_add]
        exact hfits k
    rw [hr]
    rfl

theorem argumentAnswers_perm (h : other.Perm group) :
    (argumentAnswers schema runner argument other).Perm
      (argumentAnswers schema runner argument group) := h.map _

/-- Two orders store the same exactly when their running sums end the same way. -/
theorem answer_eq_iff (hk : kind = .sum ∨ kind = .avg)
    (hint : ∀ entry ∈ group, ∀ v, outcome schema runner none entry.2 argument = .ok v →
      Conforms .int v) {left right : List RowEntry} (hl : left.Perm group) (hr : right.Perm group) :
    aggregateAnswer schema runner kind argument left =
        aggregateAnswer schema runner kind argument right ↔
      runSum 0 ((argumentAnswers schema runner argument left).map amount) =
        runSum 0 ((argumentAnswers schema runner argument right).map amount) := by
  have hperm : (argumentAnswers schema runner argument left).Perm
      (argumentAnswers schema runner argument right) := argumentAnswers_perm (hl.trans hr.symm)
  have hcount : counted (argumentAnswers schema runner argument left) =
      counted (argumentAnswers schema runner argument right) := hperm.countP_eq _
  rw [aggregateAnswer_eq hk fun entry hentry => hint entry (hl.mem_iff.mp hentry),
    aggregateAnswer_eq hk fun entry hentry => hint entry (hr.mem_iff.mp hentry),hcount]
  constructor
  · intro h
    cases hsl : runSum 0 ((argumentAnswers schema runner argument left).map amount) with
    | error e =>
      cases hsr : runSum 0 ((argumentAnswers schema runner argument right).map amount) with
      | error e' =>
        rw [hsl,hsr] at h
        exact congrArg Except.error (Except.error.inj h)
      | ok s' =>
        rw [hsl,hsr] at h
        cases h
    | ok s =>
      cases hsr : runSum 0 ((argumentAnswers schema runner argument right).map amount) with
      | error e' =>
        rw [hsl,hsr] at h
        cases h
      | ok s' =>
        -- two sums that are reached are the exact one
        have hs := (run_ok hsl).2
        have hs' := (run_ok hsr).2
        rw [(amounts_perm (hperm.map amount)).sum_eq] at hs
        rw [hs,hs']
  · intro h
    rw [h]

theorem aggregateAnswer_orders (hk : kind = .sum ∨ kind = .avg)
    (hint : ∀ entry ∈ group, ∀ v, outcome schema runner none entry.2 argument = .ok v →
      Conforms .int v) :
    (∀ left right : List RowEntry, left.Perm group → right.Perm group →
      aggregateAnswer schema runner kind argument left =
        aggregateAnswer schema runner kind argument right) ↔
      OrderFree Int64.minValue.toInt Int64.maxValue.toInt overflowFailure
        ((argumentAnswers schema runner argument group).map amount) := by
  have h0 : InRange Int64.minValue.toInt Int64.maxValue.toInt 0 :=
    (inRange_iff 0).mpr (by decide)
  rw [← orderFree_iff h0 fun n hn => (inRange_iff n).mpr (amount_fits hn)]
  constructor
  · -- an order of the amounts is one of the rows
    intro h ys zs hys hzs
    have hlift : ∀ xs : List (Result ℤ),
        xs.Perm ((argumentAnswers schema runner argument group).map amount) →
        ∃ left : List RowEntry, left.Perm group ∧
          (argumentAnswers schema runner argument left).map amount = xs := by
      intro xs hxs
      rw [argumentAnswers,List.map_map] at hxs
      obtain ⟨left,rfl,hl⟩ := Eq.mpr (congrFun₂ (List.eq_map_comp_perm _) xs group) hxs
      exact ⟨left,hl,by rw [argumentAnswers,List.map_map]⟩
    obtain ⟨left,hl,rfl⟩ := hlift ys hys
    obtain ⟨right,hr,rfl⟩ := hlift zs hzs
    exact (answer_eq_iff hk hint hl hr).mp (h left right hl hr)
  · intro h left right hl hr
    exact (answer_eq_iff hk hint hl hr).mpr
      (h _ _ ((argumentAnswers_perm hl).map amount) ((argumentAnswers_perm hr).map amount))

/-- In one order SUM and AVG answer with the exact sum and its quotient when every running sum
fits, and the order is of no matter exactly when all failures are one and either no order can
leave 64 bits or all of them end in the overflow. -/
theorem sum_orders (hk : kind = .sum ∨ kind = .avg) (hrun : ContextConforms build runner)
    (hc : checkCompileExpr schema context build (.aggregate kind false argument) allow = .ok t)
    (hrows : ∀ entry ∈ group, RowConforms schema entry.2) :
    (∀ (order : List RowEntry) (x : Value), order.Perm group →
      (aggregateAnswer schema runner kind argument order = .ok x ↔ ∃ vs,
        List.Forall₂ (fun entry w => outcome schema runner none entry.2 argument = .ok w) order vs ∧
          (∀ k, Machine.Fits (total (nonNull (vs.take k)))) ∧
          x = sumValue kind (nonNull vs).length (total (nonNull vs)))) ∧
    ((∀ left right : List RowEntry, left.Perm group → right.Perm group →
        aggregateAnswer schema runner kind argument left =
          aggregateAnswer schema runner kind argument right) ↔
      OrderFree Int64.minValue.toInt Int64.maxValue.toInt overflowFailure
        ((argumentAnswers schema runner argument group).map amount)) := by
  have hint : ∀ entry ∈ group, ∀ v, outcome schema runner none entry.2 argument = .ok v →
      Conforms .int v := fun entry hentry v hv =>
    argument_conforms hk hrun hc (hrows entry hentry) hv
  refine ⟨fun order x hperm => ?_,aggregateAnswer_orders hk hint⟩
  exact aggregateAnswer_ok hk fun entry hentry => hint entry (hperm.mem_iff.mp hentry)

/-- One INT column. -/
def amountSchema : Schema := [⟨"a",.int,none,true⟩]

def amountColumn : CompileExpr Empty := .column "" "a"

/-- The largest integer, 1 and -1 add up to the largest integer, but not from left to right. -/
theorem sum_depends_on_order :
    aggregateAnswer amountSchema none .sum amountColumn
        [(⟨0,0⟩,[.int Int64.maxValue]),(⟨0,1⟩,[.int 1]),(⟨0,2⟩,[.int (-1)])] =
      .error overflowFailure ∧
    aggregateAnswer amountSchema none .sum amountColumn
        [(⟨0,1⟩,[.int 1]),(⟨0,2⟩,[.int (-1)]),(⟨0,0⟩,[.int Int64.maxValue])] =
      .ok (.int Int64.maxValue) := by
  decide

theorem sum_orders_three :
    (∀ left right : List RowEntry,
        left.Perm [(⟨0,0⟩,[.int 5]),(⟨0,1⟩,[.null]),(⟨0,2⟩,[.int (-7)])] →
        right.Perm [(⟨0,0⟩,[.int 5]),(⟨0,1⟩,[.null]),(⟨0,2⟩,[.int (-7)])] →
        aggregateAnswer amountSchema none .sum amountColumn left =
          aggregateAnswer amountSchema none .sum amountColumn right) ↔
      OrderFree Int64.minValue.toInt Int64.maxValue.toInt overflowFailure
        [.ok 5,.ok 0,.ok (-7)] := by
  have hrun : ContextConforms (none : Option (Build Empty))
      (none : Option (SubqueryRunner Empty Unit)) := fun b hb => by cases hb
  have hc : checkCompileExpr amountSchema "SELECT" (none : Option (Build Empty))
      (.aggregate .sum false amountColumn) true = .ok .int := by decide
  refine (sum_orders (Or.inl rfl) hrun hc ?_).2
  intro entry hentry
  have hall : ∀ e ∈ ([(⟨0,0⟩,[.int 5]),(⟨0,1⟩,[.null]),(⟨0,2⟩,[.int (-7)])] : List RowEntry),
      ∃ x : Value, e.2 = [x] ∧ (x = .null ∨ x.type = .int) := by
    simp [Value.type]
  obtain ⟨x,hx,hconf⟩ := hall entry hentry
  rw [hx]
  exact .cons hconf .nil

end Execution
end OurSql
