import OurSql.Expression.Check

/-! Type soundness: what the checker promises about the evaluator. An expression in
which no `and` or `or` mixes a NULL type with BOOL never meets a type mismatch. -/
namespace OurSql
namespace Expression

open Data

/-- A result with `P` or an error with `E`. -/
def Outcome {α : Type} (P : α → Prop) (E : Failure → Prop) : Result α → Prop
  | .ok a => P a
  | .error e => E e

namespace Eval

variable {σ α β : Type} {P : α → Prop} {Q : β → Prop} {E : Failure → Prop}

/-- Every run from every state ends in a value with `P` or an error with `E`. -/
def Yields (P : α → Prop) (E : Failure → Prop) (x : Eval σ α) : Prop := ∀ s, Outcome P E (x s).1

theorem yields_lift {r : Result α} (h : Outcome P E r) : Yields P E (lift r : Eval σ α) :=
  fun _ => h

theorem yields_ok {a : α} (h : P a) : Yields P E (ok a : Eval σ α) := fun _ => h

theorem Yields.bind {x : Eval σ α} {f : α → Eval σ β} (hx : Yields P E x)
    (hf : ∀ a, P a → Yields Q E (f a)) : Yields Q E (x.bind f) := by
  intro s
  have hs := hx s
  unfold Eval.bind
  cases h : x s with
  | mk r s' =>
    rw [h] at hs
    cases r with
    | error e => exact hs
    | ok a => exact hf a hs s'

theorem Yields.attempt {x : Eval σ α} {f : Result α → Eval σ β} (hx : Yields P E x)
    (hf : ∀ r, Outcome P E r → Yields Q E (f r)) : Yields Q E (x.attempt f) :=
  fun s => hf (x s).1 (hx s) (x s).2

end Eval

def CompileType.kind : CompileType → Kind
  | .int => .int
  | .varchar => .string
  | .bool => .bool
  | .null => .null

/-- A value of the type, or NULL. -/
def Conforms (t : CompileType) (v : EvalValue) : Prop := v.kind = .null ∨ v.kind = t.kind

/-- A value of a column, or NULL. -/
def ColumnConforms (c : Column) (v : Value) : Prop := v = .null ∨ v.type = c.type

def RowConforms (schema : Schema) (row : Row) : Prop := List.Forall₂ ColumnConforms schema row

variable {Query σ : Type}

/-- The errors an evaluation may end in: arithmetic, and those of a subquery. -/
inductive RuntimeError (runner : Option (SubqueryRunner Query σ)) : Failure → Prop
  | overflow : RuntimeError runner ⟨.invalidArgument,"整数运算溢出"⟩
  | divisionByZero : RuntimeError runner ⟨.invalidArgument,"除数不能为零"⟩
  | aggregateOverflow : RuntimeError runner ⟨.invalidArgument,"聚合整数溢出"⟩
  | manyRows : RuntimeError runner ⟨.invalidArgument,"标量子查询返回了多行"⟩
  | subquery {run : SubqueryRunner Query σ} {q : Query} {s : σ} {e : Failure} :
    runner = some run → (run q s).1 = .error e → RuntimeError runner e

def PlanConforms (t : PlanValueType) (v : Value) : Prop :=
  match t with
  | .int => v = .null ∨ v.type = .int
  | .varchar => v = .null ∨ v.type = .varchar
  | .null => v = .null
  | .bool => False

/-- The runner returns rows of the types the planner announces, if it returns any. -/
def RunnerConforms (build : Build Query) (run : SubqueryRunner Query σ) : Prop :=
  ∀ q s types result, build q = .ok (some types) → (run q s).1 = .ok result →
    result.columnNames.length = types.length ∧
      ∀ row ∈ result.rows, List.Forall₂ PlanConforms types row

theorem bind_eq_ok {α β : Type} {r : Result α} {f : α → Result β} {b : β} :
    r.bind f = .ok b ↔ ∃ a, r = .ok a ∧ f a = .ok b := by
  cases r <;> simp [Except.bind]

theorem conforms_null (t : CompileType) : Conforms t .null := Or.inl rfl

theorem conforms_bool (b : Bool) : Conforms .bool (.bool b) := Or.inr rfl

theorem conforms_int (n : Int64) : Conforms .int (.int n) := Or.inr rfl

theorem Conforms.isNull {v : EvalValue} (h : Conforms .null v) : v.isNull = true := by
  rcases h with h | h <;> simp [EvalValue.isNull,h,CompileType.kind]

theorem Conforms.kind {t : CompileType} {v : EvalValue} (h : Conforms t v) (hn : v.isNull = false) :
    v.kind = t.kind := by
  rcases h with h | h
  · simp [EvalValue.isNull,h] at hn
  · exact h

/-- Two values of one type compare. -/
theorem Conforms.compare {t : CompileType} {v w : EvalValue} (hv : Conforms t v)
    (hw : Conforms t w) (hnv : v.isNull = false) (hnw : w.isNull = false) :
    ∃ c, compareEval v w = .ok c := by
  have h : v.kind = w.kind := (hv.kind hnv).trans (hw.kind hnw).symm
  have hcond : ¬ (v.kind ≠ w.kind ∨ v.isNull = true) := by simp [h,hnv]
  rw [compareEval,if_neg hcond]
  cases v.kind <;> exact ⟨_,rfl⟩

section

variable {runner : Option (SubqueryRunner Query σ)}

theorem arithmetic_sound (op : String) (lhs rhs : Int64) :
    Outcome (Conforms .int) (RuntimeError runner) (arithmetic op lhs rhs) := by
  unfold arithmetic
  split_ifs
  · exact RuntimeError.overflow
  · exact conforms_int _
  · exact RuntimeError.overflow
  · exact conforms_int _
  · exact conforms_int 0
  · exact conforms_int _
  · exact RuntimeError.overflow
  · exact conforms_int _
  · exact RuntimeError.divisionByZero
  · exact RuntimeError.overflow

theorem unary_sound {context op : String} {operand t : CompileType} {v : EvalValue}
    (hc : checkUnary context op operand = .ok t) (hv : Conforms operand v) :
    Outcome (Conforms t) (RuntimeError runner) (evaluateUnary op v) := by
  unfold evaluateUnary
  by_cases hn : v.isNull = true
  · rw [if_pos hn]
    exact Or.inl (by simpa [EvalValue.isNull] using hn)
  rw [if_neg hn]
  have hk := hv.kind (by simpa using hn)
  unfold checkUnary at hc
  by_cases h0 : operand = .null
  · rw [h0] at hv
    exact absurd hv.isNull hn
  rw [if_neg h0] at hc
  by_cases ho : op = "not"
  · rw [if_pos ho,ite_fail_eq_ok,not_not] at hc
    obtain ⟨rfl,ht⟩ := hc
    cases ht
    rw [if_pos ⟨ho,hk⟩]
    exact conforms_bool _
  rw [if_neg ho] at hc
  by_cases hm : op = "-"
  · rw [if_pos hm,ite_fail_eq_ok,not_not] at hc
    obtain ⟨rfl,ht⟩ := hc
    cases ht
    rw [if_neg (fun h => ho h.1),if_pos ⟨hm,hk⟩]
    split_ifs
    · exact RuntimeError.overflow
    · exact conforms_int _
  · rw [if_neg hm] at hc
    cases hc

theorem between_sound {context : String} {operand lower upper t : CompileType}
    {v l u : EvalValue} {negated : Bool} (hc : checkBetween context operand lower upper = .ok t)
    (hv : Conforms operand v) (hl : Conforms lower l) (hu : Conforms upper u) :
    Outcome (Conforms t) (RuntimeError runner) (betweenHolds negated v l u) := by
  rw [checkBetween,ite_fail_eq_ok] at hc
  obtain ⟨hsame,ht⟩ := hc
  cases ht
  unfold betweenHolds
  by_cases hn : v.isNull = true ∨ l.isNull = true ∨ u.isNull = true
  · rw [if_pos hn]
    exact conforms_null _
  · rw [if_neg hn]
    simp only [not_or,Bool.not_eq_true] at hn
    obtain ⟨hnv,hnl,hnu⟩ := hn
    have never : ∀ {t : CompileType} {w : EvalValue}, Conforms t w → w.isNull = false → t ≠ .null := by
      intro t w hw hnw ht
      rw [ht] at hw
      rw [hw.isNull] at hnw
      cases hnw
    obtain ⟨rfl,rfl⟩ : operand = lower ∧ operand = upper := by
      have h := hsame
      simp only [never hv hnv,never hl hnl,never hu hnu,ne_eq,not_false_iff,true_and,not_or,
        not_not] at h
      exact h
    obtain ⟨low,hlow⟩ := hv.compare hl hnv hnl
    obtain ⟨high,hhigh⟩ := hv.compare hu hnv hnu
    rw [hlow,hhigh]
    exact conforms_bool _

/-- One candidate of `IN`: a BOOL answer, or the loop goes on. -/
theorem inStep_sound {operand option : CompileType} {v w : EvalValue} {negated sawNull : Bool}
    (hsame : option = .null ∨ option = operand) (hv : Conforms operand v) (hw : Conforms option w)
    (hn : v.isNull = false) :
    Outcome (fun decision => ∀ answer, decision = Sum.inl answer → Conforms .bool answer)
      (RuntimeError runner) (inStep negated sawNull v w) := by
  unfold inStep
  by_cases hnw : w.isNull = true
  · rw [if_pos hnw]
    intro answer h
    cases h
  · rw [if_neg hnw]
    have hnw : w.isNull = false := by simpa using hnw
    rcases hsame with rfl | rfl
    · rw [hw.isNull] at hnw
      cases hnw
    · obtain ⟨c,hc⟩ := hv.compare hw hn hnw
      rw [hc]
      show Outcome _ _ (if c = 0 then _ else _)
      split_ifs
      · intro answer h
        cases h
        exact conforms_bool _
      · intro answer h
        cases h

theorem inEnd_sound (negated sawNull : Bool) : Conforms .bool (inEnd negated sawNull) := by
  cases sawNull with
  | false => exact conforms_bool _
  | true => exact conforms_null _

/-- What the checker lets through, one case for each kind of operator. -/
inductive Checked (op : String) (left right : CompileType) : CompileType → Prop
  | logic : op = "and" ∨ op = "or" → left = .bool → right = .bool → Checked op left right .bool
  | logicNull : op = "and" ∨ op = "or" → left = .null ∨ right = .null → Checked op left right .null
  | arithmetic : isArithmetic op = true → left = .int → right = .int → Checked op left right .int
  | like : op = "like" ∨ op = "not like" → left = .varchar → right = .varchar →
    Checked op left right .bool
  | null : ¬ (op = "and" ∨ op = "or") → left = .null ∨ right = .null → Checked op left right .null
  | comparison : isComparison op = true → left = .null ∨ right = .null ∨ left = right →
    Checked op left right .bool

theorem checked_of_checkBinary {context op : String} {left right t : CompileType}
    (h : checkBinary context op left right = .ok t) : Checked op left right t := by
  unfold checkBinary at h
  by_cases hl : op = "and" ∨ op = "or"
  · rw [if_pos hl] at h
    by_cases hn : left = .null ∨ right = .null
    · rw [if_pos hn] at h
      cases h
      exact .logicNull hl hn
    · rw [if_neg hn,ite_fail_eq_ok,not_or,not_not,not_not] at h
      obtain ⟨⟨hb,hb'⟩,ht⟩ := h
      cases ht
      exact .logic hl hb hb'
  rw [if_neg hl] at h
  by_cases ha : isArithmetic op = true
  · rw [if_pos ha] at h
    by_cases hn : left = .null ∨ right = .null
    · rw [if_pos hn] at h
      cases h
      exact .null hl hn
    · rw [if_neg hn,ite_fail_eq_ok,not_or,not_not,not_not] at h
      obtain ⟨⟨hi,hi'⟩,ht⟩ := h
      cases ht
      exact .arithmetic ha hi hi'
  rw [if_neg ha] at h
  by_cases hk : op = "like" ∨ op = "not like"
  · rw [if_pos hk] at h
    by_cases hn : left = .null ∨ right = .null
    · rw [if_pos hn] at h
      cases h
      exact .null hl hn
    · rw [if_neg hn,ite_fail_eq_ok,not_or,not_not,not_not] at h
      obtain ⟨⟨hv,hv'⟩,ht⟩ := h
      cases ht
      exact .like hk hv hv'
  rw [if_neg hk] at h
  by_cases hc : isComparison op = true
  · rw [if_pos hc,ite_fail_eq_ok] at h
    obtain ⟨-,h⟩ := h
    by_cases hn : left = .null ∨ right = .null
    · rw [if_pos hn] at h
      cases h
      exact .comparison hc (hn.imp_right Or.inl)
    · rw [if_neg hn,ite_fail_eq_ok,not_not] at h
      obtain ⟨hs,ht⟩ := h
      cases ht
      exact .comparison hc (Or.inr (Or.inr hs))
  · rw [if_neg hc] at h
    cases h

theorem isNull_of_conforms {t : CompileType} {v : EvalValue} (ht : t = .null) (h : Conforms t v) :
    v.isNull = true := by
  rw [ht] at h
  exact h.isNull

/-- Only a BOOL decides `and` or `or` alone. -/
theorem shortCircuit_isBool {op : String} {v : EvalValue} {b : Bool}
    (h : shortCircuit op v = some b) : (op = "and" ∨ op = "or") ∧ v.kind = .bool := by
  unfold shortCircuit at h
  split_ifs at h with ha ho
  · exact ⟨Or.inl ha.1,ha.2.1⟩
  · exact ⟨Or.inr ho.1,ho.2.1⟩

theorem Conforms.type_of_bool {t : CompileType} {v : EvalValue} (h : Conforms t v)
    (hk : v.kind = .bool) : t = .bool := by
  rcases h with h | h
  · rw [h] at hk
    cases hk
  · rw [h] at hk
    cases t <;> first | rfl | cases hk

/-- Without a NULL beside it, an operand that decides `and` or `or` gives a BOOL. -/
theorem shortCircuit_sound {op : String} {left right t : CompileType} {v : EvalValue} {b : Bool}
    (hc : Checked op left right t) (hclear : nullLogic op (.ok left) (.ok right) = false)
    (hv : Conforms left v ∨ Conforms right v) (h : shortCircuit op v = some b) :
    Conforms t (.bool b) := by
  obtain ⟨hop,hk⟩ := shortCircuit_isBool h
  cases hc with
  | logic => exact conforms_bool b
  | like => exact conforms_bool b
  | comparison => exact conforms_bool b
  | null hnl => exact absurd hop hnl
  | arithmetic ha =>
    rcases hop with rfl | rfl <;> simp [isArithmetic] at ha
  | logicNull _ hn =>
    -- the other operand would be NULL beside this BOOL
    rcases hv with hv | hv
    · have ht := hv.type_of_bool hk
      rcases hn with hn | hn
      · rw [ht] at hn
        cases hn
      · simp [nullLogic,hop,ht,hn] at hclear
    · have ht := hv.type_of_bool hk
      rcases hn with hn | hn
      · simp [nullLogic,hop,ht,hn] at hclear
      · rw [ht] at hn
        cases hn

theorem combine_sound {op : String} {left right t : CompileType} {l r : EvalValue}
    (hc : Checked op left right t) (hclear : nullLogic op (.ok left) (.ok right) = false)
    (hl : Conforms left l) (hr : Conforms right r) :
    Outcome (Conforms t) (RuntimeError runner) (combine op l r) := by
  unfold combine
  by_cases hop : op = "and" ∨ op = "or"
  · rw [if_pos hop]
    cases hs : shortCircuit op r with
    | some b => exact shortCircuit_sound hc hclear (Or.inr hr) hs
    | none =>
      by_cases hn : l.isNull = true ∨ r.isNull = true
      · rw [if_pos hn]
        exact conforms_null _
      rw [if_neg hn]
      cases hc with
      | logic _ hbl hbr =>
        have hkl := hl.kind (by simpa using (not_or.mp hn).1)
        have hkr := hr.kind (by simpa using (not_or.mp hn).2)
        rw [hbl] at hkl
        rw [hbr] at hkr
        rw [if_neg (by simp [hkl,hkr,CompileType.kind])]
        exact conforms_bool _
      | logicNull _ ht =>
        exact absurd (ht.imp (isNull_of_conforms · hl) (isNull_of_conforms · hr)) hn
      | null hnl => exact absurd hop hnl
      | arithmetic ha => rcases hop with rfl | rfl <;> simp [isArithmetic] at ha
      | like hk => rcases hop with rfl | rfl <;> simp at hk
      | comparison hk => rcases hop with rfl | rfl <;> simp [isComparison] at hk
  rw [if_neg hop]
  by_cases hn : l.isNull = true ∨ r.isNull = true
  · rw [if_pos hn]
    exact conforms_null _
  rw [if_neg hn]
  cases hc with
  | logic h => exact absurd h hop
  | logicNull h => exact absurd h hop
  | null _ ht => exact absurd (ht.imp (isNull_of_conforms · hl) (isNull_of_conforms · hr)) hn
  | arithmetic ha =>
    rw [if_neg (by rintro (rfl | rfl) <;> simp [isArithmetic] at ha),if_pos ha]
    exact arithmetic_sound op l.integer r.integer
  | like hk =>
    rw [if_pos hk]
    exact conforms_bool _
  | comparison hk hs =>
    rw [if_neg (by rintro (rfl | rfl) <;> simp [isComparison] at hk),
      if_neg (by
        intro ha
        simp only [isArithmetic,decide_eq_true_eq] at ha
        rcases ha with rfl | rfl | rfl | rfl <;> simp [isComparison] at hk)]
    have hnl : l.isNull = false := by simpa using (not_or.mp hn).1
    have hnr : r.isNull = false := by simpa using (not_or.mp hn).2
    rcases hs with h | h | h
    · exact absurd (Or.inl (isNull_of_conforms h hl)) hn
    · exact absurd (Or.inr (isNull_of_conforms h hr)) hn
    · rw [h] at hl
      obtain ⟨c,hcmp⟩ := hl.compare hr hnl hnr
      rw [hcmp]
      exact conforms_bool _

theorem column_sound {schema : Schema} {context name : String} {t : CompileType} {row : Row}
    (hc : checkColumn schema context name = .ok t) (hrow : RowConforms schema row) :
    Outcome (Conforms t) (RuntimeError runner) (evaluateColumn schema name row) := by
  have found : ∃ i c v, findColumnIndex schema name = some i ∧ row[i]? = some v ∧
      ColumnConforms c v ∧ t = if c.type = .int then .int else .varchar := by
    unfold checkColumn at hc
    unfold findColumnIndex
    induction hrow with
    | nil => cases hc
    | @cons c v cs vs hcv _ ih =>
      by_cases hn : c.name = name
      · simp only [List.find?_cons_of_pos,hn,decide_true] at hc
        cases hc
        exact ⟨0,c,v,by simp [List.findIdx?_cons,hn],rfl,hcv,rfl⟩
      · rw [List.find?_cons_of_neg (by simpa using hn)] at hc
        obtain ⟨i,c',v',hi,hv,hcv',ht⟩ := ih hc
        exact ⟨i + 1,c',v',by simp [List.findIdx?_cons,hn,hi],by simpa using hv,hcv',ht⟩
  obtain ⟨i,c,v,hi,hv,hcv,rfl⟩ := found
  unfold evaluateColumn
  rw [hi]
  simp only [hv]
  rcases hcv with rfl | hcv
  · exact conforms_null _
  · cases v with
    | null => exact conforms_null _
    | int n => exact Or.inr (by simp [← hcv,Value.type,EvalValue.fromValue,EvalValue.int,CompileType.kind])
    | varchar text =>
      exact Or.inr (by simp [← hcv,Value.type,EvalValue.fromValue,EvalValue.string,CompileType.kind])

theorem literal_sound (l : CompileLiteral) : Conforms l.type l.value := by
  cases h : l.kind <;> exact Or.inr (by simp [CompileLiteral.type,CompileLiteral.value,h,
    EvalValue.int,EvalValue.string,EvalValue.bool,EvalValue.null,CompileType.kind])

theorem count_sound {value : Row → Eval σ EvalValue} {t : CompileType} :
    ∀ {rows : List Row} (count : Int64),
      (∀ row ∈ rows, Eval.Yields (Conforms t) (RuntimeError runner) (value row)) →
      Eval.Yields (Conforms .int) (RuntimeError runner) (countRows value count rows) := by
  intro rows
  induction rows with
  | nil => exact fun count _ => Eval.yields_ok (conforms_int count)
  | cons row rows ih =>
    intro count h
    rw [countRows]
    exact (h row (by simp)).bind fun v _ => ih _ fun r hr => h r (by simp [hr])

/-- What `MIN`, `MAX`, `SUM` and `AVG` accumulate stays a value of the argument's type. -/
theorem accumulate_sound {kind : CompileAggregateKind} {t : CompileType} {a v : EvalValue}
    (ha : Conforms t a) (hna : a.isNull = false) (hv : Conforms t v) (hnv : v.isNull = false) :
    Outcome (fun next => Conforms t next ∧ next.isNull = false) (RuntimeError runner)
      (accumulate kind a v) := by
  unfold accumulate
  by_cases hk : kind = .sum ∨ kind = .avg
  · rw [if_pos hk]
    split_ifs
    · exact RuntimeError.aggregateOverflow
    · exact ⟨ha,hna⟩
  · obtain ⟨c,hc⟩ := hv.compare ha hnv hna
    rw [if_neg hk,hc]
    show Outcome _ _ (if _ then _ else _)
    split_ifs
    · exact ⟨hv,hnv⟩
    · exact ⟨ha,hna⟩

theorem aggregate_sound {kind : CompileAggregateKind} {value : Row → Eval σ EvalValue}
    {t : CompileType} :
    ∀ {rows : List Row} (found : Option EvalValue) (count : Int64),
      (∀ a, found = some a → Conforms t a ∧ a.isNull = false) →
      (∀ row ∈ rows, Eval.Yields (Conforms t) (RuntimeError runner) (value row)) →
      Eval.Yields (Conforms t) (RuntimeError runner)
        (aggregateRows kind value found count rows) := by
  intro rows
  induction rows with
  | nil =>
    intro found count hf _
    apply Eval.yields_ok
    cases found with
    | none => exact conforms_null t
    | some a =>
      have ha := (hf a rfl).1
      unfold aggregateEnd
      by_cases hk : kind = .avg
      · simp only [hk,if_true]
        exact ha
      · simp only [hk,if_false]
        exact ha
  | cons row rows ih =>
    intro found count hf h
    have hrest : ∀ r ∈ rows, Eval.Yields (Conforms t) (RuntimeError runner) (value r) :=
      fun r hr => h r (by simp [hr])
    rw [aggregateRows]
    apply (h row (by simp)).bind
    intro v hv
    by_cases hn : v.isNull = true
    · rw [if_pos hn]
      exact ih found count hf hrest
    · rw [if_neg hn]
      have hn : v.isNull = false := by simpa using hn
      cases found with
      | none =>
        apply ih (some v) (count + 1) _ hrest
        intro a ha
        cases ha
        exact ⟨hv,hn⟩
      | some a =>
        have ha := hf a rfl
        apply (Eval.yields_lift (accumulate_sound ha.1 ha.2 hv hn)).bind
        intro next hnext
        apply ih (some next) (count + 1) _ hrest
        intro b hb
        cases hb
        exact hnext

/-- The type `CheckCompileExpr` gives the only column of a subquery. -/
theorem checkSubqueryType_eq_ok {context : String} {types : List PlanValueType} {t : CompileType}
    (h : checkSubqueryType context types = .ok t) :
    ∃ type, types = [type] ∧ ∀ v, PlanConforms type v → Conforms t (.fromValue v) := by
  match types with
  | [] => cases h
  | [type] =>
    refine ⟨type,rfl,?_⟩
    intro v hv
    rw [checkSubqueryType,ite_fail_eq_ok] at h
    obtain ⟨hb,ht⟩ := h
    cases type with
    | bool => exact absurd rfl hb
    | null =>
      cases hv
      exact conforms_null t
    | int =>
      cases ht
      rcases hv with rfl | hv
      · exact conforms_null _
      · cases v <;> first | exact conforms_int _ | cases hv
    | varchar =>
      cases ht
      rcases hv with rfl | hv
      · exact conforms_null _
      · cases v <;> first | exact Or.inr rfl | cases hv
  | _::_::_ => cases h

theorem inRows_sound {operand option : CompileType} {v : EvalValue} {type : PlanValueType}
    {negated : Bool} (hsame : option = .null ∨ option = operand) (hv : Conforms operand v)
    (hn : v.isNull = false) (ho : ∀ w, PlanConforms type w → Conforms option (.fromValue w)) :
    ∀ {rows : List Row} (sawNull : Bool), (∀ row ∈ rows, List.Forall₂ PlanConforms [type] row) →
      Outcome (Conforms .bool) (RuntimeError runner) (inRows negated v sawNull rows) := by
  intro rows
  induction rows with
  | nil => exact fun sawNull _ => inEnd_sound negated sawNull
  | cons row rows ih =>
    intro sawNull h
    have hrow := h row (by simp)
    cases hrow with
    | @cons _ w _ ws hw hnil =>
      cases hnil
      have hstep : Outcome (fun decision => ∀ answer, decision = Sum.inl answer →
          Conforms .bool answer) (RuntimeError runner)
          (inStep negated sawNull v (.fromValue w)) := inStep_sound hsame hv (ho w hw) hn
      rw [inRows]
      cases hi : inStep negated sawNull v (.fromValue w) with
      | error e =>
        rw [hi] at hstep
        exact hstep
      | ok decision =>
        rw [hi] at hstep
        cases decision with
        | inl answer => exact hstep answer rfl
        | inr sawNull' => exact ih sawNull' fun r hr => h r (by simp [hr])

end

/-- A group given where aggregates are allowed, all of its rows of the schema. -/
def GroupConforms (schema : Schema) (allow : Bool) (group : Option (List Row)) : Prop :=
  (allow = true → group.isSome) ∧ ∀ rows, group = some rows → ∀ row ∈ rows, RowConforms schema row

/-- Where the checker has a catalog, the evaluator has a runner that agrees with it. -/
def ContextConforms (build : Option (Build Query)) (runner : Option (SubqueryRunner Query σ)) :
    Prop :=
  ∀ b, build = some b → ∃ run, runner = some run ∧ RunnerConforms b run

theorem subquery_sound {context : String} {build : Option (Build Query)}
    {runner : Option (SubqueryRunner Query σ)} {kind : CompileSubqueryKind} {q : Query}
    {b : Build Query} {run : SubqueryRunner Query σ} {negated : Bool} {operandType : Result CompileType}
    {operand : Eval σ EvalValue} {t : CompileType} (hb : build = some b) (hr : runner = some run)
    (hrun : RunnerConforms b run)
    (hoperand : kind = .membership → ∀ o, operandType = .ok o →
      Eval.Yields (Conforms o) (RuntimeError runner) operand)
    (hc : checkSubquery context build kind (some q) operandType = .ok t) :
    Eval.Yields (Conforms t) (RuntimeError runner)
      ((run q).bind fun result => subqueryAnswer kind negated operand result) := by
  rw [hb,checkSubquery,bind_eq_ok] at hc
  obtain ⟨types,hbuild,hc⟩ := hc
  cases types with
  | none => cases hc
  | some types =>
    have hresult : Eval.Yields (fun result : ExecutionResult =>
        result.columnNames.length = types.length ∧
          ∀ row ∈ result.rows, List.Forall₂ PlanConforms types row) (RuntimeError runner)
        (run q) := by
      intro s
      cases h : (run q s).1 with
      | error e => exact RuntimeError.subquery hr h
      | ok result => exact hrun q s types result hbuild h
    apply hresult.bind
    intro result hres
    unfold subqueryAnswer
    by_cases he : kind = .existence
    · rw [if_pos he]
      simp only [he,if_true] at hc
      cases hc
      exact Eval.yields_ok (conforms_bool _)
    simp only [he,if_false] at hc
    rw [if_neg he]
    rw [bind_eq_ok] at hc
    obtain ⟨column,hcolumn,hc⟩ := hc
    obtain ⟨type,rfl,hconf⟩ := checkSubqueryType_eq_ok hcolumn
    rw [if_neg (by rw [hres.1]; simp)]
    by_cases hm : kind = .membership
    · rw [if_neg (by rw [hm]; decide)]
      rw [if_pos hm,bind_eq_ok] at hc
      obtain ⟨o,ho,hc⟩ := hc
      rw [checkInSubquery,ite_fail_eq_ok] at hc
      obtain ⟨hsame,ht⟩ := hc
      cases ht
      apply (hoperand hm o ho).bind
      intro v hv
      by_cases hn : v.isNull = true
      · rw [if_pos hn]
        exact Eval.yields_ok (conforms_null _)
      · rw [if_neg hn]
        have hno : o ≠ .null := fun h => hn (isNull_of_conforms h hv)
        have hs : column = .null ∨ column = o := by
          by_contra h
          obtain ⟨h,h'⟩ := not_or.mp h
          exact hsame ⟨hno,h,fun heq => h' heq.symm⟩
        exact Eval.yields_lift (inRows_sound hs hv (by simpa using hn) hconf false hres.2)
    · rw [if_neg hm] at hc
      cases hc
      have hk : kind = .scalar := by
        cases kind with
        | scalar => rfl
        | existence => exact absurd rfl he
        | membership => exact absurd rfl hm
      rw [if_pos hk]
      match hrows : result.rows with
      | [] => exact Eval.yields_ok (conforms_null _)
      | [row] =>
        have hrow := hres.2 row (by simp [hrows])
        cases hrow with
        | cons hw _ => exact Eval.yields_ok (hconf _ hw)
      | _::_::_ => exact fun _ => RuntimeError.manyRows

variable {schema : Schema} {context : String} {build : Option (Build Query)}
  {runner : Option (SubqueryRunner Query σ)}

theorem check_aggregate {kind : CompileAggregateKind} {star allow : Bool}
    {argument : CompileExpr Query} {t : CompileType}
    (h : checkCompileExpr schema context build (.aggregate kind star argument) allow = .ok t) :
    allow = true ∧ (star = true → kind = .count ∧ t = .int) ∧
      (¬ star = true → ∃ a, checkCompileExpr schema context build argument false = .ok a ∧
        checkAggregate context kind a = .ok t) := by
  have hcheck : allow = true ∧ (if star = true then
      (if kind ≠ .count then fail .invalidArgument (context ++ ": 只有 COUNT 支持 '*'") else .ok .int)
      else (checkCompileExpr schema context build argument false).bind
        (checkAggregate context kind)) = .ok t := by
    cases argument with
    | nullptr =>
      rw [checkCompileExpr,ite_fail_eq_ok] at h
      refine ⟨by simpa using h.1,?_⟩
      by_cases hs : star = true
      · rw [if_pos hs] at h ⊢
        exact h.2
      · rw [if_neg hs] at h
        cases h.2
    | _ =>
      rw [checkCompileExpr,ite_fail_eq_ok] at h
      · exact ⟨by simpa using h.1,h.2⟩
      · exact fun heq => nomatch heq
  refine ⟨hcheck.1,?_,?_⟩
  · intro hs
    have hk := hcheck.2
    rw [if_pos hs,ite_fail_eq_ok,not_not] at hk
    exact ⟨hk.1,(Except.ok.inj hk.2).symm⟩
  · intro hs
    have hk := hcheck.2
    rw [if_neg hs] at hk
    exact bind_eq_ok.mp hk

mutual

/-- By recursion on the expression, one case for each of its forms. -/
theorem evaluate_sound (hrun : ContextConforms build runner) :
    ∀ (e : CompileExpr Query) (allow : Bool) {t : CompileType} {group : Option (List Row)}
      {row : Row}, checkCompileExpr schema context build e allow = .ok t →
      unmixed schema context build e allow = true → GroupConforms schema allow group →
      RowConforms schema row →
      Eval.Yields (Conforms t) (RuntimeError runner) (evaluateExpression schema runner e group row)
  | .nullptr, _, _, _, _, hc, _, _, _ => by
    rw [checkCompileExpr] at hc
    cases hc
  | .column _ name, _, _, _, _, hc, _, _, hrow => by
    rw [checkCompileExpr] at hc
    rw [evaluateExpression]
    exact Eval.yields_lift (column_sound hc hrow)
  | .literal l, _, _, _, _, hc, _, _, _ => by
    rw [checkCompileExpr] at hc
    cases hc
    rw [evaluateExpression]
    exact Eval.yields_ok (literal_sound l)
  | .unary op operand, allow, _, _, _, hc, hm, hg, hrow => by
    rw [checkCompileExpr,bind_eq_ok] at hc
    obtain ⟨o,ho,hc⟩ := hc
    rw [unmixed] at hm
    rw [evaluateExpression]
    exact (evaluate_sound hrun operand allow ho hm hg hrow).bind fun v hv =>
      Eval.yields_lift (unary_sound hc hv)
  | .isNull operand _, allow, _, _, _, hc, hm, hg, hrow => by
    rw [checkCompileExpr,bind_eq_ok] at hc
    obtain ⟨o,ho,hc⟩ := hc
    cases hc
    rw [unmixed] at hm
    rw [evaluateExpression]
    exact (evaluate_sound hrun operand allow ho hm hg hrow).bind fun v _ =>
      Eval.yields_ok (conforms_bool _)
  | .between operand lower upper _, allow, _, _, _, hc, hm, hg, hrow => by
    rw [checkCompileExpr,bind_eq_ok] at hc
    obtain ⟨o,ho,hc⟩ := hc
    rw [bind_eq_ok] at hc
    obtain ⟨l,hl,hc⟩ := hc
    rw [bind_eq_ok] at hc
    obtain ⟨u,hu,hc⟩ := hc
    rw [unmixed,Bool.and_eq_true,Bool.and_eq_true] at hm
    obtain ⟨⟨hmo,hml⟩,hmu⟩ := hm
    rw [evaluateExpression]
    apply (evaluate_sound hrun operand allow ho hmo hg hrow).attempt
    intro v hv
    apply (evaluate_sound hrun lower allow hl hml hg hrow).attempt
    intro w hw
    apply (evaluate_sound hrun upper allow hu hmu hg hrow).attempt
    intro x hx
    cases v with
    | error e => exact Eval.yields_lift hv
    | ok v =>
      cases w with
      | error e => exact Eval.yields_lift hw
      | ok w =>
        cases x with
        | error e => exact Eval.yields_lift hx
        | ok x => exact Eval.yields_lift (between_sound hc hv hw hx)
  | .inList operand options negated, allow, _, group, row, hc, hm, hg, hrow => by
    rw [checkCompileExpr,ite_fail_eq_ok,bind_eq_ok] at hc
    obtain ⟨-,o,ho,hc⟩ := hc
    rw [bind_eq_ok] at hc
    obtain ⟨u,hoptions,hc⟩ := hc
    cases hc
    rw [unmixed,Bool.and_eq_true] at hm
    rw [evaluateExpression]
    apply (evaluate_sound hrun operand allow ho hm.1 hg hrow).bind
    intro v hv
    by_cases hn : v.isNull = true
    · rw [if_pos hn]
      exact Eval.yields_ok (conforms_null _)
    · rw [if_neg hn]
      exact options_sound hrun options allow negated false hoptions hm.2 hg hrow hv
        (by simpa using hn)
  | .subquery kind query operand negated, allow, _, group, row, hc, hm, hg, hrow => by
    rw [checkCompileExpr] at hc
    cases query with
    | none => cases hc
    | some q =>
      cases hb : build with
      | none =>
        rw [hb] at hc
        cases hc
      | some b =>
        obtain ⟨run,hr,hconf⟩ := hrun b hb
        have he : evaluateExpression schema runner (.subquery kind (some q) operand negated) group
            row = (run q).bind fun result => subqueryAnswer kind negated
              (evaluateExpression schema runner operand group row) result := by
          subst hr
          rw [evaluateExpression]
        rw [he]
        apply subquery_sound hb hr hconf _ hc
        intro hk o ho
        rw [unmixed,hk] at hm
        exact evaluate_sound hrun operand allow ho (by simpa using hm) hg hrow
  | .aggregate kind star argument, allow, t, group, _, hc, hm, hg, _ => by
    obtain ⟨hallow,hc⟩ := check_aggregate hc
    obtain ⟨rows,rfl⟩ := Option.isSome_iff_exists.mp (hg.1 hallow)
    rw [evaluateExpression]
    by_cases hstar : star = true
    · obtain ⟨hk,rfl⟩ := hc.1 hstar
      rw [if_pos hk,if_pos hstar]
      exact Eval.yields_ok (conforms_int _)
    obtain ⟨a,ha,hk⟩ := hc.2 hstar
    rw [unmixed,Bool.or_eq_true] at hm
    have hm := hm.resolve_left hstar
    have hrows : ∀ r ∈ rows, Eval.Yields (Conforms a) (RuntimeError runner)
        (evaluateExpression schema runner argument none r) := by
      intro r hr
      apply evaluate_sound hrun argument false ha hm _ (hg.2 rows rfl r hr)
      exact ⟨by simp,by simp⟩
    by_cases hcount : kind = .count
    · rw [checkAggregate,if_pos hcount] at hk
      cases hk
      rw [if_pos hcount,if_neg hstar]
      exact count_sound 0 hrows
    rw [checkAggregate,if_neg hcount] at hk
    rw [if_neg hcount]
    by_cases hsum : kind = .sum ∨ kind = .avg
    · rw [if_pos hsum,ite_fail_eq_ok,not_not] at hk
      obtain ⟨rfl,ht⟩ := hk
      cases ht
      exact aggregate_sound none 0 (by simp) hrows
    · rw [if_neg hsum,ite_fail_eq_ok] at hk
      cases hk.2
      exact aggregate_sound none 0 (by simp) hrows
  | .binary op left right, allow, _, _, _, hc, hm, hg, hrow => by
    rw [checkCompileExpr,bind_eq_ok] at hc
    obtain ⟨l,hl,hc⟩ := hc
    rw [bind_eq_ok] at hc
    obtain ⟨r,hr,hc⟩ := hc
    have hc := checked_of_checkBinary hc
    rw [unmixed,Bool.and_eq_true,Bool.and_eq_true,hl,hr] at hm
    obtain ⟨⟨hml,hmr⟩,hmix⟩ := hm
    have hmix : nullLogic op (.ok l) (.ok r) = false := by simpa using hmix
    rw [evaluateExpression]
    apply (evaluate_sound hrun left allow hl hml hg hrow).bind
    intro v hv
    cases hs : shortCircuit op v with
    | some b => exact Eval.yields_ok (shortCircuit_sound hc hmix (Or.inl hv) hs)
    | none =>
      apply (evaluate_sound hrun right allow hr hmr hg hrow).bind
      intro w hw
      exact Eval.yields_lift (combine_sound hc hmix hv hw)

theorem options_sound (hrun : ContextConforms build runner) :
    ∀ (options : List (CompileExpr Query)) (allow negated sawNull : Bool) {operand : CompileType}
      {group : Option (List Row)} {row : Row} {v : EvalValue},
      checkOptions schema context build options allow operand = .ok () →
      unmixedOptions schema context build options allow = true →
      GroupConforms schema allow group → RowConforms schema row → Conforms operand v →
      v.isNull = false → Eval.Yields (Conforms .bool) (RuntimeError runner)
        (evaluateOptions schema runner options group row negated v sawNull)
  | [], _, negated, sawNull, _, _, _, _, _, _, _, _, _, _ => by
    rw [evaluateOptions]
    exact Eval.yields_ok (inEnd_sound negated sawNull)
  | option::options, allow, negated, sawNull, operand, _, _, v, hc, hm, hg, hrow, hv, hn => by
    rw [checkOptions,bind_eq_ok] at hc
    obtain ⟨o,ho,hc⟩ := hc
    rw [bind_eq_ok] at hc
    obtain ⟨u,hoption,hrest⟩ := hc
    rw [checkOption,ite_fail_eq_ok] at hoption
    have hno : operand ≠ .null := by
      intro h
      rw [isNull_of_conforms h hv] at hn
      cases hn
    have hsame : o = .null ∨ o = operand := by
      by_contra h
      obtain ⟨h,h'⟩ := not_or.mp h
      exact hoption.1 ⟨h,hno,h'⟩
    rw [unmixedOptions,Bool.and_eq_true] at hm
    rw [evaluateOptions]
    apply (evaluate_sound hrun option allow ho hm.1 hg hrow).bind
    intro w hw
    apply (Eval.yields_lift (inStep_sound hsame hv hw hn)).bind
    intro decision hdecision
    cases decision with
    | inl answer => exact Eval.yields_ok (hdecision answer rfl)
    | inr sawNull' =>
      exact options_sound hrun options allow negated sawNull' hrest hm.2 hg hrow hv hn

end

def nullLiteral : CompileExpr Query := .literal {kind := .null}

def boolLiteral (b : Bool) : CompileExpr Query :=
  .literal {kind := .bool,text := if b then trueText else falseText}

/-- A mixed `and` or `or` of two constants is typed NULL and evaluates to BOOL. -/
theorem mixed_literals (context op : String) (runner : Option (SubqueryRunner Query σ)) (s : σ)
    {left right : CompileType} (h : nullLogic op (.ok left) (.ok right) = true) :
    ∃ l r : CompileExpr Query, checkCompileExpr schema context build l false = .ok left ∧
      checkCompileExpr schema context build r false = .ok right ∧
      checkCompileExpr schema context build (.binary op l r) false = .ok .null ∧
      ∀ group row, ¬ Outcome (Conforms .null) (RuntimeError runner)
        (evaluateExpression schema runner (.binary op l r) group row s).1 := by
  have hbool : ∀ b, ¬ Conforms .null (.bool b) := by
    intro b h
    rcases h with h | h <;> cases h
  have hop : op = "and" ∨ op = "or" := by
    simp only [nullLogic,decide_eq_true_eq] at h
    exact h.1
  have htypes : (left = .null ∧ right = .bool) ∨ (left = .bool ∧ right = .null) := by
    simpa [nullLogic,hop] using h
  obtain ⟨b,hb⟩ : ∃ b, shortCircuit op (.bool b) = some b := by
    rcases hop with rfl | rfl
    · exact ⟨false,rfl⟩
    · exact ⟨true,rfl⟩
  have hvalue : (CompileLiteral.value {kind := .bool,text := if b then trueText else falseText}) =
      .bool b := by
    cases b <;> rfl
  rcases htypes with ⟨rfl,rfl⟩ | ⟨rfl,rfl⟩
  · refine ⟨nullLiteral,boolLiteral b,?_,?_,?_,?_⟩
    · rw [nullLiteral,checkCompileExpr]
      rfl
    · rw [boolLiteral,checkCompileExpr]
      rfl
    · rw [checkCompileExpr,nullLiteral,checkCompileExpr,boolLiteral,checkCompileExpr]
      show checkBinary context op .null .bool = _
      rw [checkBinary,if_pos hop,if_pos (Or.inl rfl)]
    · intro group row hout
      have hnull : shortCircuit op .null = none := by
        rcases hop with rfl | rfl <;> rfl
      rw [evaluateExpression,nullLiteral,evaluateExpression,boolLiteral,evaluateExpression,
        Eval.bind_ok,hvalue] at hout
      have hl : (CompileLiteral.value {kind := .null}) = .null := rfl
      rw [hl,hnull] at hout
      simp only [Eval.bind_ok] at hout
      have hcombine : combine op .null (.bool b) = .ok (.bool b) := by
        rw [combine,if_pos hop,hb]
      rw [hcombine] at hout
      exact hbool b hout
  · refine ⟨boolLiteral b,nullLiteral,?_,?_,?_,?_⟩
    · rw [boolLiteral,checkCompileExpr]
      rfl
    · rw [nullLiteral,checkCompileExpr]
      rfl
    · rw [checkCompileExpr,nullLiteral,checkCompileExpr,boolLiteral,checkCompileExpr]
      show checkBinary context op .bool .null = _
      rw [checkBinary,if_pos hop,if_pos (Or.inr rfl)]
    · intro group row hout
      rw [evaluateExpression,boolLiteral,evaluateExpression,Eval.bind_ok,hvalue,hb] at hout
      exact hbool b hout

end Expression
end OurSql
