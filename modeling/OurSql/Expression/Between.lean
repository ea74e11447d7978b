import OurSql.Expression.Outcome

/-! `BETWEEN` beside `x >= lo AND x <= hi`: the truth values differ exactly where one bound
decides and the node looks at the other one too. -/
namespace OurSql
namespace Expression

open Data CompileExpr

variable {Query : Type}

/-- `x >= lo AND x <= hi`, or its negation. -/
def expansion (x lower upper : CompileExpr Query) (negated : Bool) : CompileExpr Query :=
  let both := .binary "and" (.binary ">=" x lower) (.binary "<=" x upper)
  if negated then .unary "not" both else both

def betweenOutcome (x l h : Result EvalValue) (negated : Bool) : Result EvalValue :=
  x.bind fun x => l.bind fun l => h.bind (betweenHolds negated x l)

/-- A comparison of two outcomes, the right one not looked at after an error. -/
def compareOutcome (op : String) (x y : Result EvalValue) : Result EvalValue :=
  x.bind fun x => y.bind (combine op x)

def andOutcome (a b : Result EvalValue) : Result EvalValue :=
  a.bind fun a =>
    match shortCircuit "and" a with
    | some decided => .ok (.bool decided)
    | none => b.bind (combine "and" a)

def notOutcome (negated : Bool) (r : Result EvalValue) : Result EvalValue :=
  if negated then r.bind (evaluateUnary "not") else r

def expansionOutcome (x l h : Result EvalValue) (negated : Bool) : Result EvalValue :=
  notOutcome negated (andOutcome (compareOutcome ">=" x l) (compareOutcome "<=" x h))

/-- One bound decides the expansion, and `BETWEEN` loses it to the other one. -/
inductive BoundLost : Result EvalValue → Result EvalValue → Result EvalValue → Prop
  /-- `x` is below `lo`, and `hi` fails, is NULL or does not compare. -/
  | below {x l : EvalValue} {h : Result EvalValue} {c : ℤ} : compareEval x l = .ok c → c < 0 →
    (∀ u d, h = .ok u → compareEval x u ≠ .ok d) → BoundLost (.ok x) (.ok l) h
  /-- `lo` is NULL, and `x` is above `hi` or does not compare with it. -/
  | above {x l u : EvalValue} : x.isNull = false → l.isNull = true → u.isNull = false →
    (∀ d, compareEval x u = .ok d → 0 < d) → BoundLost (.ok x) (.ok l) (.ok u)
  /-- `x` does not compare with `lo`, and `hi` is NULL. -/
  | unequal {x l u : EvalValue} : x.isNull = false → l.isNull = false → u.isNull = true →
    (∀ c, compareEval x l ≠ .ok c) → BoundLost (.ok x) (.ok l) (.ok u)

/-! ### The evaluator on the two nodes -/

variable {schema : Schema} {runner : Option (SubqueryRunner Query Unit)}
  {group : Option (List Row)} {row : Row}

theorem outcome_between (x lower upper : CompileExpr Query) (negated : Bool) :
    outcome schema runner group row (.between x lower upper negated) =
      betweenOutcome (outcome schema runner group row x) (outcome schema runner group row lower)
        (outcome schema runner group row upper) negated := by
  rw [outcome,evaluateExpression]
  simp only [evaluate_pure]
  cases outcome schema runner group row x with
  | error e => rfl
  | ok x =>
    cases outcome schema runner group row lower with
    | error e => rfl
    | ok l => cases outcome schema runner group row upper <;> rfl

theorem outcome_comparison {op : String} (hop : op = ">=" ∨ op = "<=")
    (left right : CompileExpr Query) :
    outcome schema runner group row (.binary op left right) =
      compareOutcome op (outcome schema runner group row left)
        (outcome schema runner group row right) := by
  have hnone (v : EvalValue) : shortCircuit op v = none :=
    shortCircuit_eq_none (Or.inl (by rcases hop with rfl | rfl <;> decide))
  rw [outcome_binary,compareOutcome]
  simp only [hnone]

theorem outcome_expansion (x lower upper : CompileExpr Query) (negated : Bool) :
    outcome schema runner group row (expansion x lower upper negated) =
      expansionOutcome (outcome schema runner group row x)
        (outcome schema runner group row lower) (outcome schema runner group row upper)
        negated := by
  have hand : outcome schema runner group row
      (.binary "and" (.binary ">=" x lower) (.binary "<=" x upper)) =
      expansionOutcome (outcome schema runner group row x)
        (outcome schema runner group row lower) (outcome schema runner group row upper) false := by
    rw [outcome_binary,outcome_comparison (Or.inl rfl),outcome_comparison (Or.inr rfl)]
    rfl
  cases negated with
  | false => exact hand
  | true =>
    rw [expansion,if_pos rfl,outcome_unary,hand]
    rfl

/-! ### Truth values -/

theorem combine_ge (x y : EvalValue) : combine ">=" x y =
    if x.isNull ∨ y.isNull then .ok .null
    else (compareEval x y).map fun c => .bool (decide (0 ≤ c)) :=
  combine_comparison (by decide) (by decide) (by decide) x y

theorem combine_le (x y : EvalValue) : combine "<=" x y =
    if x.isNull ∨ y.isNull then .ok .null
    else (compareEval x y).map fun c => .bool (decide (c ≤ 0)) :=
  combine_comparison (by decide) (by decide) (by decide) x y

/-- A comparison with NULL is an error of `CompareEval`. -/
theorem compareEval_null {x y : EvalValue} (h : x.isNull = true ∨ y.isNull = true) :
    ∃ e, compareEval x y = .error e := by
  rw [compareEval]
  by_cases hk : x.kind = y.kind
  · have hx : x.isNull = true := by
      rcases h with h | h
      · exact h
      · rwa [EvalValue.isNull,hk]
    rw [if_pos (Or.inr hx)]
    exact ⟨_,rfl⟩
  · rw [if_pos (Or.inl hk)]
    exact ⟨_,rfl⟩

theorem boundLost_values {x l u : EvalValue} : BoundLost (.ok x) (.ok l) (.ok u) ↔
    (∃ c, compareEval x l = .ok c ∧ c < 0 ∧ ∀ d, compareEval x u ≠ .ok d) ∨
      (x.isNull = false ∧ l.isNull = true ∧ u.isNull = false ∧
        ∀ d, compareEval x u = .ok d → 0 < d) ∨
      (x.isNull = false ∧ l.isNull = false ∧ u.isNull = true ∧ ∀ c, compareEval x l ≠ .ok c) := by
  constructor
  · intro h
    cases h with
    | below hc hneg hu => exact Or.inl ⟨_,hc,hneg,fun d => hu u d rfl⟩
    | above hx hl hu hd => exact Or.inr (Or.inl ⟨hx,hl,hu,hd⟩)
    | unequal hx hl hu hc => exact Or.inr (Or.inr ⟨hx,hl,hu,hc⟩)
  · rintro (⟨c,hc,hneg,hu⟩ | ⟨hx,hl,hu,hd⟩ | ⟨hx,hl,hu,hc⟩)
    · exact .below hc hneg fun v d hv => Except.ok.inj hv ▸ hu d
    · exact .above hx hl hu hd
    · exact .unequal hx hl hu hc

@[simp] theorem and_false (b : Result EvalValue) :
    andOutcome (.ok (.bool false)) b = .ok (.bool false) := rfl

@[simp] theorem and_error (e : Failure) (b : Result EvalValue) :
    andOutcome (.error e) b = .error e := rfl

@[simp] theorem null_and (b : Result EvalValue) :
    andOutcome (.ok .null) b = b.bind (combine "and" .null) := rfl

@[simp] theorem true_and_bool (b : Result EvalValue) :
    andOutcome (.ok (.bool true)) b = b.bind (combine "and" (.bool true)) := rfl

@[simp] theorem combine_and_null (b : Bool) :
    combine "and" .null (.bool b) = .ok (if b then .null else .bool false) := by
  cases b <;> rfl

@[simp] theorem combine_and_true (b : Bool) :
    combine "and" (.bool true) (.bool b) = .ok (.bool b) := by
  cases b <;> rfl

/-- Without negation, when the three operands have values. -/
theorem between_values {x l u : EvalValue} :
    (betweenHolds false x l u).toOption =
        (andOutcome (combine ">=" x l) (combine "<=" x u)).toOption ↔
      ¬ BoundLost (.ok x) (.ok l) (.ok u) := by
  have hnull : combine "and" .null .null = .ok .null := rfl
  have htrue : combine "and" (.bool true) .null = .ok .null := rfl
  have hdiffer : EvalValue.null ≠ .bool false := by decide
  rw [boundLost_values,combine_ge,combine_le,betweenHolds]
  by_cases hx : x.isNull
  · obtain ⟨e,he⟩ := compareEval_null (y := l) (Or.inl hx)
    simp [hx,he,Except.bind,hnull]
  by_cases hl : l.isNull
  · obtain ⟨e,he⟩ := compareEval_null (x := x) (Or.inr hl)
    by_cases hu : u.isNull
    · simp [hx,hl,hu,he,Except.bind,hnull]
    cases compareEval x u with
    | error e' => simp [hx,hl,hu,he,Except.bind,Except.map,Except.toOption]
    | ok d =>
      by_cases hd : d ≤ 0
      · simp [hx,hl,hu,he,hd,Except.bind,Except.map]
      · have hlt : 0 < d := by omega
        simp [hx,hl,hu,he,hd,hlt,hdiffer,Except.bind,Except.map,Except.toOption]
  cases compareEval x l with
  | error e =>
    by_cases hu : u.isNull
    · simp [hx,hl,hu,Except.map,Except.toOption]
    · simp [hx,hl,hu,Except.map,Except.toOption]
  | ok c =>
    by_cases hu : u.isNull
    · obtain ⟨e,he⟩ := compareEval_null (x := x) (Or.inr hu)
      by_cases hc : c < 0
      · have hlt : ¬ 0 ≤ c := by omega
        simp [hx,hl,hu,he,hc,hlt,hdiffer,Except.map,Except.toOption]
      · have hle : 0 ≤ c := by omega
        simp [hx,hl,hu,he,hle,htrue,Except.bind,Except.map]
    cases compareEval x u with
    | error e =>
      by_cases hc : c < 0
      · have hlt : ¬ 0 ≤ c := by omega
        simp [hx,hl,hu,hc,hlt,Except.map,Except.toOption]
      · have hle : 0 ≤ c := by omega
        simp [hx,hl,hu,hle,Except.bind,Except.map,Except.toOption]
    | ok d =>
      by_cases hc : c < 0
      · have hlt : ¬ 0 ≤ c := by omega
        simp [hx,hl,hu,hlt,Except.map]
      · have hle : 0 ≤ c := by omega
        simp [hx,hl,hu,hle,Except.bind,Except.map]

/-- Without negation, whatever the operands answer. -/
theorem between_outcomes {x l h : Result EvalValue} :
    (betweenOutcome x l h false).toOption = (expansionOutcome x l h false).toOption ↔
      ¬ BoundLost x l h := by
  cases x with
  | error e => exact ⟨fun _ hlost => (by cases hlost),fun _ => rfl⟩
  | ok x =>
    cases l with
    | error e => exact ⟨fun _ hlost => (by cases hlost),fun _ => rfl⟩
    | ok l =>
      cases h with
      | ok u => exact between_values
      | error e =>
        have hbetween : betweenOutcome (.ok x) (.ok l) (.error e) false = .error e := rfl
        have hexpansion : expansionOutcome (.ok x) (.ok l) (.error e) false =
          andOutcome (combine ">=" x l) (.error e) := rfl
        have hlost : BoundLost (.ok x) (.ok l) (.error e) ↔ ∃ c, compareEval x l = .ok c ∧ c < 0 :=
          ⟨fun h => by cases h with | below hc hneg _ => exact ⟨_,hc,hneg⟩,
            fun ⟨c,hc,hneg⟩ => .below hc hneg fun u d hu => (by cases hu)⟩
        rw [hbetween,hexpansion,hlost,combine_ge]
        by_cases hn : x.isNull = true ∨ l.isNull = true
        · obtain ⟨e',he⟩ := compareEval_null hn
          simp [hn,he,Except.bind]
        · cases compareEval x l with
          | error e' => simp [hn,Except.map,Except.toOption]
          | ok c =>
            by_cases hc : c < 0
            · have hlt : ¬ 0 ≤ c := by omega
              simp [hn,hc,hlt,Except.map,Except.toOption]
            · have hle : 0 ≤ c := by omega
              simp [hn,hle,Except.bind,Except.map]

/-! ### Negation -/

def TruthValued (r : Result EvalValue) : Prop := ∀ v, r = .ok v → v = .null ∨ ∃ b, v = .bool b

theorem not_toOption {r s : Result EvalValue} (hr : TruthValued r) (hs : TruthValued s) :
    (notOutcome true r).toOption = (notOutcome true s).toOption ↔ r.toOption = s.toOption := by
  have hbool (b : Bool) : notOutcome true (.ok (.bool b)) = .ok (.bool (!b)) := rfl
  have hnull : notOutcome true (.ok .null) = .ok .null := rfl
  have herror (e : Failure) : notOutcome true (.error e) = .error e := rfl
  have hne (b : Bool) : EvalValue.null ≠ .bool b := by simp [EvalValue.null,EvalValue.bool]
  have hinj (b c : Bool) : EvalValue.bool b = .bool c ↔ b = c := by simp [EvalValue.bool]
  cases r with
  | error e =>
    cases s with
    | error e' => simp [herror,Except.toOption]
    | ok w => rcases hs w rfl with rfl | ⟨c,rfl⟩ <;> simp [herror,hbool,hnull,Except.toOption]
  | ok v =>
    cases s with
    | error e' => rcases hr v rfl with rfl | ⟨b,rfl⟩ <;> simp [herror,hbool,hnull,Except.toOption]
    | ok w =>
      rcases hr v rfl with rfl | ⟨b,rfl⟩ <;> rcases hs w rfl with rfl | ⟨c,rfl⟩ <;>
        simp [hbool,hnull,hne,(hne _).symm,hinj,Except.toOption]

theorem truthValued_null : TruthValued (.ok .null) := fun _ h => Or.inl (Except.ok.inj h).symm

theorem truthValued_bool (b : Bool) : TruthValued (.ok (.bool b)) :=
  fun _ h => Or.inr ⟨b,(Except.ok.inj h).symm⟩

theorem truthValued_error (e : Failure) : TruthValued (.error e) := fun v h => by cases h

theorem truthValued_between (x l h : Result EvalValue) :
    TruthValued (betweenOutcome x l h false) := by
  cases x with
  | error e => exact truthValued_error e
  | ok x =>
    cases l with
    | error e => exact truthValued_error e
    | ok l =>
      cases h with
      | error e => exact truthValued_error e
      | ok u =>
        change TruthValued (betweenHolds false x l u)
        rw [betweenHolds]
        by_cases hn : x.isNull = true ∨ l.isNull = true ∨ u.isNull = true
        · rw [if_pos hn]
          exact truthValued_null
        rw [if_neg hn]
        cases compareEval x l with
        | error e => exact truthValued_error e
        | ok c =>
          cases compareEval x u with
          | error e => exact truthValued_error e
          | ok d => exact truthValued_bool _

theorem truthValued_and (a b : EvalValue) : TruthValued (combine "and" a b) := by
  rw [combine,if_pos (Or.inl rfl)]
  cases shortCircuit "and" b with
  | some decided => exact truthValued_bool _
  | none =>
    by_cases hn : a.isNull = true ∨ b.isNull = true
    · simp only [hn,if_true]
      exact truthValued_null
    by_cases hk : a.kind ≠ .bool ∨ b.kind ≠ .bool
    · simp only [hn,hk,if_true,if_false]
      exact truthValued_error _
    · simp only [hn,hk,if_false]
      exact truthValued_bool _

theorem truthValued_expansion (x l h : Result EvalValue) :
    TruthValued (expansionOutcome x l h false) := by
  change TruthValued (andOutcome (compareOutcome ">=" x l) (compareOutcome "<=" x h))
  cases compareOutcome ">=" x l with
  | error e => exact truthValued_error e
  | ok a =>
    rw [andOutcome,Except.bind]
    cases shortCircuit "and" a with
    | some decided => exact truthValued_bool _
    | none =>
      cases compareOutcome "<=" x h with
      | error e => exact truthValued_error e
      | ok b => exact truthValued_and a b

theorem betweenOutcome_true (x l h : Result EvalValue) :
    betweenOutcome x l h true = notOutcome true (betweenOutcome x l h false) := by
  cases x with
  | error e => rfl
  | ok x =>
    cases l with
    | error e => rfl
    | ok l =>
      cases h with
      | error e => rfl
      | ok u =>
        change betweenHolds true x l u = notOutcome true (betweenHolds false x l u)
        rw [betweenHolds,betweenHolds]
        by_cases hn : x.isNull = true ∨ l.isNull = true ∨ u.isNull = true
        · rw [if_pos hn,if_pos hn]
          rfl
        rw [if_neg hn,if_neg hn]
        cases compareEval x l with
        | error e => rfl
        | ok c => cases compareEval x u <;> rfl

/-- `BETWEEN` and `NOT BETWEEN` have the truth value of the expansion exactly where no bound
that decides the expansion is lost. -/
theorem between_iff_expansion (schema : Schema) (runner : Option (SubqueryRunner Query Unit))
    (group : Option (List Row)) (row : Row) (x lower upper : CompileExpr Query)
    (negated : Bool) :
    (outcome schema runner group row (.between x lower upper negated)).toOption =
        (outcome schema runner group row (expansion x lower upper negated)).toOption ↔
      ¬ BoundLost (outcome schema runner group row x) (outcome schema runner group row lower)
        (outcome schema runner group row upper) := by
  rw [outcome_between,outcome_expansion]
  cases negated with
  | false => exact between_outcomes
  | true =>
    rw [betweenOutcome_true,← between_outcomes]
    exact not_toOption (truthValued_between _ _ _) (truthValued_expansion _ _ _)

/-- `5 BETWEEN 10 AND NULL` is NULL and its negation too, where the expansions are FALSE
and TRUE. -/
theorem between_loses_bound :
    let five : CompileExpr Unit := makeInt 5
    let ten : CompileExpr Unit := makeInt 10
    let missing : CompileExpr Unit := .literal {kind := .null}
    outcome [] none none [] (.between five ten missing false) = .ok .null ∧
      outcome [] none none [] (expansion five ten missing false) = .ok (.bool false) ∧
      outcome [] none none [] (.between five ten missing true) = .ok .null ∧
      outcome [] none none [] (expansion five ten missing true) = .ok (.bool true) :=
  ⟨rfl,rfl,rfl,rfl⟩

end Expression
end OurSql
