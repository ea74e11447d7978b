import OurSql.Expression.Evaluate

/-! `FoldCompileExpr`: constant folding of compiled expressions, and that it keeps the
value, the error and the subquery runs of every evaluation. -/
namespace OurSql
namespace Expression

open Data

variable {Query σ : Type}

namespace CompileExpr

def makeInt (value : Int64) : CompileExpr Query := .literal {kind := .int,integer := value}

def makeBool (value : Bool) : CompileExpr Query :=
  .literal {kind := .bool,text := if value then trueText else falseText}

def literal? : CompileExpr Query → Option CompileLiteral
  | .literal l => some l
  | _ => none

def hasKind (kind : CompileLiteralKind) (e : CompileExpr Query) : Bool :=
  e.literal?.any (·.kind = kind)

def isInt (e : CompileExpr Query) : Bool := e.hasKind .int
def isString (e : CompileExpr Query) : Bool := e.hasKind .string
def isBool (e : CompileExpr Query) : Bool := e.hasKind .bool

/-- `Literal`, asked for only after `IsInt`, `IsString` or `IsBool`. -/
def getLiteral (e : CompileExpr Query) : CompileLiteral := e.literal?.getD {kind := .null}

def boolValue (e : CompileExpr Query) : Bool := isTrueText e.getLiteral.text

def sameLiteralKind (left right : CompileExpr Query) : Bool :=
  (left.isInt && right.isInt) || (left.isString && right.isString) ||
    (left.isBool && right.isBool)

def isNullptr : CompileExpr Query → Bool
  | .nullptr => true
  | _ => false

end CompileExpr

open CompileExpr

def safeAdd (lhs rhs : Int64) : Option Int64 :=
  if (0 < rhs ∧ Int64.maxValue - rhs < lhs) ∨ (rhs < 0 ∧ lhs < Int64.minValue - rhs) then none
  else some (lhs + rhs)

def safeSub (lhs rhs : Int64) : Option Int64 :=
  if (0 < rhs ∧ lhs < Int64.minValue + rhs) ∨ (rhs < 0 ∧ Int64.maxValue + rhs < lhs) then none
  else some (lhs - rhs)

def safeMul (lhs rhs : Int64) : Option Int64 :=
  if lhs = 0 ∨ rhs = 0 then some 0
  else if lhs = -1 ∧ rhs = Int64.minValue then none
  else if rhs = -1 ∧ lhs = Int64.minValue then none
  else if 0 < lhs ∧ 0 < rhs ∧ Int64.maxValue / rhs < lhs then none
  else if 0 < lhs ∧ rhs < 0 ∧ rhs < Int64.minValue / lhs then none
  else if lhs < 0 ∧ 0 < rhs ∧ lhs < Int64.minValue / rhs then none
  else if lhs < 0 ∧ rhs < 0 ∧ lhs < Int64.maxValue / rhs then none
  else some (lhs * rhs)

def compareLiterals (left right : CompileExpr Query) : ℤ :=
  if left.isInt && right.isInt then
    compareInt left.getLiteral.integer right.getLiteral.integer
  else if left.isString && right.isString then
    compareText left.getLiteral.text right.getLiteral.text
  else compareBool left.boolValue right.boolValue

/-- The result of `+`, `-`, `*` or `/` on two integer constants, when it is safe. -/
def foldArithmetic (op : String) (lhs rhs : Int64) : Option Int64 :=
  if op = "+" then safeAdd lhs rhs
  else if op = "-" then safeSub lhs rhs
  else if op = "*" then safeMul lhs rhs
  else if op = "/" ∧ rhs ≠ 0 ∧ ¬ (lhs = Int64.minValue ∧ rhs = -1) then some (lhs / rhs)
  else none

def foldComparison (op : String) (compare : ℤ) : Option Bool :=
  if op = "=" then some (compare = 0)
  else if op = "!=" ∨ op = "<>" then some (compare ≠ 0)
  else if op = ">" then some (0 < compare)
  else if op = ">=" then some (0 ≤ compare)
  else if op = "<" then some (compare < 0)
  else if op = "<=" then some (compare ≤ 0)
  else none

/-- The binary case once the operands are folded. -/
def foldBinary (op : String) (left right : CompileExpr Query) : CompileExpr Query :=
  let arithmetic := if left.isInt && right.isInt then
    foldArithmetic op left.getLiteral.integer right.getLiteral.integer else none
  match arithmetic with
  | some n => makeInt n
  | none =>
    if (left.isBool && right.isBool) && (op = "and" ∨ op = "or") then
      makeBool (if op = "and" then left.boolValue && right.boolValue
        else left.boolValue || right.boolValue)
    else
      let comparison := if sameLiteralKind left right then
        foldComparison op (compareLiterals left right) else none
      match comparison with
      | some b => makeBool b
      | none => .binary op left right

def foldUnary (op : String) (operand : CompileExpr Query) : CompileExpr Query :=
  if op = "-" ∧ operand.isInt ∧ operand.getLiteral.integer ≠ Int64.minValue then
    makeInt (-operand.getLiteral.integer)
  else if op = "not" ∧ operand.isBool then makeBool (!operand.boolValue)
  else .unary op operand

def foldIsNull (operand : CompileExpr Query) (negated : Bool) : CompileExpr Query :=
  match operand.literal? with
  | some l => makeBool (if negated then !decide (l.kind = .null) else decide (l.kind = .null))
  | none => .isNull operand negated

def foldBetween (operand lower upper : CompileExpr Query) (negated : Bool) : CompileExpr Query :=
  if sameLiteralKind operand lower && sameLiteralKind operand upper then
    let inRange := decide (0 ≤ compareLiterals operand lower ∧ compareLiterals operand upper ≤ 0)
    makeBool (if negated then !inRange else inRange)
  else .between operand lower upper negated

def foldIn (operand : CompileExpr Query) (options : List (CompileExpr Query)) (negated : Bool) :
    CompileExpr Query :=
  if options.all (sameLiteralKind operand) && !options.isEmpty then
    let matched := options.any fun option => compareLiterals operand option = 0
    makeBool (if negated then !matched else matched)
  else .inList operand options negated

mutual

def foldCompileExpr : CompileExpr Query → CompileExpr Query
  | .binary op left right => foldBinary op (foldCompileExpr left) (foldCompileExpr right)
  | .unary op operand => foldUnary op (foldCompileExpr operand)
  | .isNull operand negated => foldIsNull (foldCompileExpr operand) negated
  | .between operand lower upper negated =>
    foldBetween (foldCompileExpr operand) (foldCompileExpr lower) (foldCompileExpr upper) negated
  | .inList operand options negated =>
    foldIn (foldCompileExpr operand) (foldOptions options) negated
  | .aggregate kind star argument =>
    if star || argument.isNullptr then .aggregate kind star argument
    else .aggregate kind false (foldCompileExpr argument)
  | .nullptr => .nullptr
  | .column tableName name => .column tableName name
  | .literal l => .literal l
  | .subquery kind query operand negated => .subquery kind query operand negated

def foldOptions : List (CompileExpr Query) → List (CompileExpr Query)
  | [] => []
  | option::options => foldCompileExpr option::foldOptions options

end

theorem hasKind_iff {kind : CompileLiteralKind} {e : CompileExpr Query} :
    e.hasKind kind = true ↔ ∃ l, e = .literal l ∧ l.kind = kind := by
  cases e <;> simp [hasKind,literal?]

@[simp] theorem getLiteral_literal (l : CompileLiteral) :
    getLiteral (.literal l : CompileExpr Query) = l := rfl

@[simp] theorem hasKind_literal (kind : CompileLiteralKind) (l : CompileLiteral) :
    hasKind kind (.literal l : CompileExpr Query) = decide (l.kind = kind) := rfl

theorem value_int {l : CompileLiteral} (h : l.kind = .int) : l.value = .int l.integer := by
  rw [CompileLiteral.value,h]

theorem value_string {l : CompileLiteral} (h : l.kind = .string) : l.value = .string l.text := by
  rw [CompileLiteral.value,h]

theorem value_bool {l : CompileLiteral} (h : l.kind = .bool) :
    l.value = .bool (isTrueText l.text) := by
  rw [CompileLiteral.value,h]

/-- Two constants of one kind, as `SameLiteralKind` finds them. -/
inductive SameKind : CompileLiteral → CompileLiteral → Prop
  | int {l r : CompileLiteral} : l.kind = .int → r.kind = .int → SameKind l r
  | string {l r : CompileLiteral} : l.kind = .string → r.kind = .string → SameKind l r
  | bool {l r : CompileLiteral} : l.kind = .bool → r.kind = .bool → SameKind l r

theorem sameLiteralKind_iff {left right : CompileExpr Query} :
    sameLiteralKind left right = true ↔
      ∃ l r, left = .literal l ∧ right = .literal r ∧ SameKind l r := by
  simp only [sameLiteralKind,isInt,isString,isBool,Bool.or_eq_true,Bool.and_eq_true,hasKind_iff]
  constructor
  · rintro ((⟨⟨l,rfl,hl⟩,r,rfl,hr⟩ | ⟨⟨l,rfl,hl⟩,r,rfl,hr⟩) | ⟨⟨l,rfl,hl⟩,r,rfl,hr⟩)
    · exact ⟨l,r,rfl,rfl,.int hl hr⟩
    · exact ⟨l,r,rfl,rfl,.string hl hr⟩
    · exact ⟨l,r,rfl,rfl,.bool hl hr⟩
  · rintro ⟨l,r,rfl,rfl,h⟩
    cases h with
    | int hl hr => exact Or.inl (Or.inl ⟨⟨l,rfl,hl⟩,r,rfl,hr⟩)
    | string hl hr => exact Or.inl (Or.inr ⟨⟨l,rfl,hl⟩,r,rfl,hr⟩)
    | bool hl hr => exact Or.inr ⟨⟨l,rfl,hl⟩,r,rfl,hr⟩

/-- Constants compare as their values do. -/
theorem compareEval_value {l r : CompileLiteral} (h : SameKind l r) :
    compareEval l.value r.value =
      .ok (compareLiterals (.literal l : CompileExpr Query) (.literal r)) := by
  cases h with
  | int hl hr =>
    rw [value_int hl,value_int hr]
    simp [compareEval,compareLiterals,isInt,hl,hr,EvalValue.int,EvalValue.isNull]
  | string hl hr =>
    rw [value_string hl,value_string hr]
    simp [compareEval,compareLiterals,isInt,isString,hl,hr,EvalValue.string,EvalValue.isNull]
  | bool hl hr =>
    rw [value_bool hl,value_bool hr]
    simp [compareEval,compareLiterals,isInt,isString,hl,hr,EvalValue.bool,EvalValue.isNull,
      boolValue]

theorem SameKind.not_null {l r : CompileLiteral} (h : SameKind l r) :
    l.value.isNull = false ∧ r.value.isNull = false := by
  cases h with
  | int hl hr => rw [value_int hl,value_int hr]; exact ⟨rfl,rfl⟩
  | string hl hr => rw [value_string hl,value_string hr]; exact ⟨rfl,rfl⟩
  | bool hl hr => rw [value_bool hl,value_bool hr]; exact ⟨rfl,rfl⟩

theorem makeBool_value (b : Bool) :
    (CompileLiteral.mk .bool 0 (if b then trueText else falseText)).value = .bool b := by
  cases b <;> rfl

/-- A product that passes the optimizer's checks passes the evaluator's. -/
theorem mulValid_of_safeMul {lhs rhs n : Int64} (hl : lhs ≠ 0) (hr : rhs ≠ 0)
    (h : safeMul lhs rhs = some n) : mulValid lhs rhs = true ∧ lhs * rhs = n := by
  have le : ∀ {a b : Int64}, ¬ b < a → a ≤ b := fun h => Int64.not_lt.mp h
  rw [safeMul,if_neg (by simp [hl,hr])] at h
  split_ifs at h with h1 h2 h3 h4 h5 h6
  refine ⟨?_,Option.some.inj h⟩
  unfold mulValid
  rw [if_neg (not_or.mpr ⟨h1,h2⟩)]
  split_ifs with p1 p2 p3 p4
  · exact decide_eq_true (le fun hlt => h3 ⟨p1.1,p1.2,hlt⟩)
  · exact decide_eq_true (le fun hlt => h4 ⟨p2.1,p2.2,hlt⟩)
  · exact decide_eq_true (le fun hlt => h5 ⟨p3.1,p3.2,hlt⟩)
  · exact decide_eq_true (le fun hlt => h6 ⟨p4.1,p4.2,hlt⟩)
  · rfl

/-- Folded arithmetic is the arithmetic of the evaluator. -/
theorem arithmetic_of_fold {op : String} {lhs rhs n : Int64}
    (h : foldArithmetic op lhs rhs = some n) :
    isArithmetic op = true ∧ arithmetic op lhs rhs = .ok (.int n) := by
  unfold foldArithmetic at h
  by_cases h1 : op = "+"
  · subst h1
    rw [if_pos rfl,safeAdd] at h
    by_cases ho : addOverflows lhs rhs = true
    · rw [if_pos (by simpa [addOverflows] using ho)] at h
      cases h
    · rw [if_neg (by simpa [addOverflows] using ho)] at h
      cases h
      simp [isArithmetic,arithmetic,ho]
  rw [if_neg h1] at h
  by_cases h2 : op = "-"
  · subst h2
    rw [if_pos rfl,safeSub] at h
    by_cases ho : subOverflows lhs rhs = true
    · rw [if_pos (by simpa [subOverflows] using ho)] at h
      cases h
    · rw [if_neg (by simpa [subOverflows] using ho)] at h
      cases h
      simp [isArithmetic,arithmetic,ho]
  rw [if_neg h2] at h
  by_cases h3 : op = "*"
  · subst h3
    rw [if_pos rfl] at h
    by_cases hz : lhs = 0 ∨ rhs = 0
    · rw [safeMul,if_pos hz] at h
      cases h
      simp [isArithmetic,arithmetic,hz]
    · obtain ⟨hl,hr⟩ := not_or.mp hz
      obtain ⟨hv,rfl⟩ := mulValid_of_safeMul hl hr h
      simp [isArithmetic,arithmetic,hl,hr,hv]
  rw [if_neg h3] at h
  by_cases h4 : op = "/" ∧ rhs ≠ 0 ∧ ¬ (lhs = Int64.minValue ∧ rhs = -1)
  · rw [if_pos h4] at h
    cases h
    obtain ⟨rfl,hv⟩ := h4
    have hv : divValid lhs rhs = true := decide_eq_true hv
    simp [isArithmetic,arithmetic,hv]
  · rw [if_neg h4] at h
    cases h

theorem comparison_of_fold {op : String} {compare : ℤ} {b : Bool}
    (h : foldComparison op compare = some b) :
    (op ≠ "and" ∧ op ≠ "or") ∧ (op ≠ "like" ∧ op ≠ "not like") ∧ isArithmetic op = false ∧
      comparisonHolds op compare = b := by
  unfold foldComparison at h
  unfold comparisonHolds
  split_ifs at h with h1 h2 h3 h4 h5 h6
  · subst h1; cases h; simp [isArithmetic]
  · rcases h2 with rfl | rfl <;> cases h <;> simp [isArithmetic]
  · subst h3; cases h; simp [isArithmetic]
  · subst h4; cases h; simp [isArithmetic]
  · subst h5; cases h; simp [isArithmetic]
  · subst h6; cases h; simp [isArithmetic]

section

variable (schema : Schema) (runner : Option (SubqueryRunner Query σ)) (group : Option (List Row))
  (row : Row)

@[simp] theorem evaluate_literal (l : CompileLiteral) :
    evaluateExpression schema runner (.literal l) group row = .ok l.value := by
  rw [evaluateExpression]

@[simp] theorem evaluate_makeInt (n : Int64) :
    evaluateExpression schema runner (makeInt n) group row = .ok (.int n) := by
  rw [makeInt,evaluate_literal]
  rfl

@[simp] theorem evaluate_makeBool (b : Bool) :
    evaluateExpression schema runner (makeBool b) group row = .ok (.bool b) := by
  rw [makeBool,evaluate_literal,makeBool_value]

theorem shortCircuit_eq_none {op : String} {v : EvalValue}
    (h : (op ≠ "and" ∧ op ≠ "or") ∨ v.kind ≠ .bool) : shortCircuit op v = none := by
  rcases h with h | h
  · simp [shortCircuit,h.1,h.2]
  · simp [shortCircuit,h]

theorem evaluate_binary_literals {op : String} {l r : CompileLiteral}
    (h : shortCircuit op l.value = none) :
    evaluateExpression schema runner (.binary op (.literal l) (.literal r)) group row =
      .lift (combine op l.value r.value) := by
  rw [evaluateExpression,evaluate_literal,Eval.bind_ok,h]
  simp only [evaluate_literal,Eval.bind_ok]

theorem logic_of_bools {op : String} (h : op = "and" ∨ op = "or") (x y : Bool) :
    (shortCircuit op (.bool x) = some (if op = "and" then x && y else x || y)) ∨
      (shortCircuit op (.bool x) = none ∧ combine op (.bool x) (.bool y) =
        .ok (.bool (if op = "and" then x && y else x || y))) := by
  rcases h with rfl | rfl <;> cases x <;> cases y <;>
    simp [shortCircuit,combine,EvalValue.bool,EvalValue.isNull]

theorem evaluate_foldBinary (op : String) (left right : CompileExpr Query) :
    evaluateExpression schema runner (foldBinary op left right) group row =
      evaluateExpression schema runner (.binary op left right) group row := by
  cases ha : (if left.isInt && right.isInt then
      foldArithmetic op left.getLiteral.integer right.getLiteral.integer else none) with
  | some n =>
    have hf : foldBinary op left right = makeInt n := by simp only [foldBinary,ha]
    split_ifs at ha with hi
    rw [Bool.and_eq_true,isInt,isInt,hasKind_iff,hasKind_iff] at hi
    obtain ⟨⟨l,rfl,hl⟩,r,rfl,hr⟩ := hi
    obtain ⟨hop,hn⟩ := arithmetic_of_fold ha
    have hlogic : op ≠ "and" ∧ op ≠ "or" := by
      constructor <;> rintro rfl <;> simp [isArithmetic] at hop
    have hlike : op ≠ "like" ∧ op ≠ "not like" := by
      constructor <;> rintro rfl <;> simp [isArithmetic] at hop
    rw [hf,evaluate_makeInt,evaluate_binary_literals _ _ _ _ (shortCircuit_eq_none (Or.inl hlogic)),
      value_int hl,value_int hr]
    rw [getLiteral_literal,getLiteral_literal] at hn
    simp [combine,hlogic,hlike,hop,EvalValue.int,EvalValue.isNull,hn]
  | none =>
    by_cases hb : ((left.isBool && right.isBool) && decide (op = "and" ∨ op = "or")) = true
    · have hf : foldBinary op left right = makeBool (if op = "and" then
          left.boolValue && right.boolValue else left.boolValue || right.boolValue) := by
        simp only [foldBinary,ha,hb,if_true]
      rw [Bool.and_eq_true,Bool.and_eq_true,isBool,isBool,hasKind_iff,hasKind_iff,
        decide_eq_true_eq] at hb
      obtain ⟨⟨⟨l,rfl,hl⟩,r,rfl,hr⟩,hop⟩ := hb
      rw [hf,evaluate_makeBool]
      simp only [boolValue,getLiteral_literal]
      rcases logic_of_bools hop (isTrueText l.text) (isTrueText r.text) with h | ⟨h,hc⟩
      · rw [evaluateExpression,evaluate_literal,Eval.bind_ok,value_bool hl,h]
      · rw [evaluate_binary_literals _ _ _ _ (by rw [value_bool hl,h]),value_bool hl,value_bool hr,hc]
        rfl
    · cases hc : (if sameLiteralKind left right then
          foldComparison op (compareLiterals left right) else none) with
      | some b =>
        have hf : foldBinary op left right = makeBool b := by
          simp only [foldBinary,ha,hb,hc,if_false,Bool.false_eq_true]
        split_ifs at hc with hk
        obtain ⟨l,r,rfl,rfl,hsame⟩ := sameLiteralKind_iff.mp hk
        obtain ⟨hlogic,hlike,hop,hb⟩ := comparison_of_fold hc
        have hnull := hsame.not_null
        rw [hf,evaluate_makeBool,
          evaluate_binary_literals _ _ _ _ (shortCircuit_eq_none (Or.inl hlogic))]
        simp [combine,hlogic,hlike,hop,hnull,@compareEval_value Query _ _ hsame,hb]
      | none =>
        have hf : foldBinary op left right = .binary op left right := by
          simp only [foldBinary,ha,hb,hc,if_false,Bool.false_eq_true]
        rw [hf]

theorem evaluate_foldUnary (op : String) (operand : CompileExpr Query) :
    evaluateExpression schema runner (foldUnary op operand) group row =
      evaluateExpression schema runner (.unary op operand) group row := by
  unfold foldUnary
  split_ifs with hn hb
  · obtain ⟨rfl,hi,hm⟩ := hn
    rw [isInt,hasKind_iff] at hi
    obtain ⟨l,rfl,hl⟩ := hi
    rw [getLiteral_literal] at hm
    rw [evaluate_makeInt,evaluateExpression,evaluate_literal,Eval.bind_ok,value_int hl]
    simp [evaluateUnary,EvalValue.int,EvalValue.isNull,hm]
  · obtain ⟨rfl,hb⟩ := hb
    rw [isBool,hasKind_iff] at hb
    obtain ⟨l,rfl,hl⟩ := hb
    rw [evaluate_makeBool,evaluateExpression,evaluate_literal,Eval.bind_ok,value_bool hl]
    simp [evaluateUnary,EvalValue.bool,EvalValue.isNull,boolValue]
  · rfl

theorem value_isNull (l : CompileLiteral) : l.value.isNull = decide (l.kind = .null) := by
  cases h : l.kind <;> simp [CompileLiteral.value,h,EvalValue.isNull,EvalValue.int,
    EvalValue.string,EvalValue.bool,EvalValue.null]

theorem evaluate_foldIsNull (operand : CompileExpr Query) (negated : Bool) :
    evaluateExpression schema runner (foldIsNull operand negated) group row =
      evaluateExpression schema runner (.isNull operand negated) group row := by
  cases operand with
  | literal l =>
    have hf : foldIsNull (.literal l : CompileExpr Query) negated =
        makeBool (if negated then !decide (l.kind = .null) else decide (l.kind = .null)) := rfl
    rw [hf,evaluate_makeBool,evaluateExpression,evaluate_literal,Eval.bind_ok,value_isNull]
  | _ => rfl

theorem evaluate_foldBetween (operand lower upper : CompileExpr Query) (negated : Bool) :
    evaluateExpression schema runner (foldBetween operand lower upper negated) group row =
      evaluateExpression schema runner (.between operand lower upper negated) group row := by
  unfold foldBetween
  by_cases h : (sameLiteralKind operand lower && sameLiteralKind operand upper) = true
  · rw [if_pos h]
    rw [Bool.and_eq_true,sameLiteralKind_iff,sameLiteralKind_iff] at h
    obtain ⟨⟨v,l,rfl,rfl,hl⟩,v',u,hv,rfl,hu⟩ := h
    obtain rfl : v = v' := by injection hv
    have hcl := @compareEval_value Query _ _ hl
    have hcu := @compareEval_value Query _ _ hu
    rw [evaluate_makeBool,evaluateExpression]
    simp only [evaluate_literal,Eval.attempt_ok]
    simp only [betweenHolds,hl.not_null,hu.not_null,hcl,hcu,Bool.false_eq_true,or_self,if_false,
      Eval.lift_ok]
  · rw [if_neg h]

/-- The loop over constant candidates finds what `FoldCompileExpr` finds. -/
theorem evaluateOptions_constants (negated : Bool) (l : CompileLiteral) :
    ∀ options : List (CompileExpr Query), options.all (sameLiteralKind (.literal l)) = true →
      evaluateOptions schema runner options group row negated l.value false =
        .ok (.bool (if options.any (fun option => compareLiterals (.literal l) option = 0) then
          !negated else negated))
  | [], _ => by rw [evaluateOptions]; rfl
  | option::options, h => by
    rw [List.all_cons,Bool.and_eq_true] at h
    obtain ⟨l',r,hl,rfl,hsame⟩ := sameLiteralKind_iff.mp h.1
    obtain rfl : l = l' := by injection hl
    have hc := @compareEval_value Query _ _ hsame
    rw [evaluateOptions,evaluate_literal,Eval.bind_ok]
    by_cases hz : compareLiterals (.literal l : CompileExpr Query) (.literal r) = 0
    · have hi : inStep negated false l.value r.value = .ok (.inl (.bool (!negated))) := by
        simp [inStep,hsame.not_null,hc,hz]
      rw [hi,Eval.lift_ok,Eval.bind_ok,inNext]
      simp [hz]
    · have hi : inStep negated false l.value r.value = .ok (.inr false) := by
        simp [inStep,hsame.not_null,hc,hz]
      rw [hi,Eval.lift_ok,Eval.bind_ok,inNext]
      rw [evaluateOptions_constants negated l options h.2]
      simp [hz]

theorem evaluate_foldIn (operand : CompileExpr Query) (options : List (CompileExpr Query))
    (negated : Bool) :
    evaluateExpression schema runner (foldIn operand options negated) group row =
      evaluateExpression schema runner (.inList operand options negated) group row := by
  unfold foldIn
  by_cases h : (options.all (sameLiteralKind operand) && !options.isEmpty) = true
  · rw [if_pos h]
    rw [Bool.and_eq_true] at h
    cases options with
    | nil => simp at h
    | cons option options =>
      have hall := h.1
      rw [List.all_cons,Bool.and_eq_true] at hall
      obtain ⟨l,r,rfl,rfl,hsame⟩ := sameLiteralKind_iff.mp hall.1
      rw [evaluate_makeBool,evaluateExpression,evaluate_literal,Eval.bind_ok]
      simp only [hsame.not_null.1,Bool.false_eq_true,if_false]
      rw [evaluateOptions_constants schema runner group row negated l _ h.1]
      generalize (List.any _ _) = matched
      cases negated <;> cases matched <;> rfl
  · rw [if_neg h]

end

/-- Two expressions that no row, group or subquery runner tells apart. -/
def SameMeaning (schema : Schema) (runner : Option (SubqueryRunner Query σ))
    (e e' : CompileExpr Query) : Prop :=
  ∀ group row, evaluateExpression schema runner e group row =
    evaluateExpression schema runner e' group row

mutual

theorem fold_sameMeaning (schema : Schema) (runner : Option (SubqueryRunner Query σ)) :
    ∀ e : CompileExpr Query, SameMeaning schema runner (foldCompileExpr e) e
  | .nullptr, _, _ => by rw [foldCompileExpr]
  | .column _ _, _, _ => by rw [foldCompileExpr]
  | .literal _, _, _ => by rw [foldCompileExpr]
  | .subquery _ _ _ _, _, _ => by rw [foldCompileExpr]
  | .binary op left right, group, row => by
    rw [foldCompileExpr,evaluate_foldBinary,evaluateExpression,evaluateExpression,
      fold_sameMeaning schema runner left group row,fold_sameMeaning schema runner right group row]
  | .unary op operand, group, row => by
    rw [foldCompileExpr,evaluate_foldUnary,evaluateExpression,evaluateExpression,
      fold_sameMeaning schema runner operand group row]
  | .isNull operand negated, group, row => by
    rw [foldCompileExpr,evaluate_foldIsNull,evaluateExpression,evaluateExpression,
      fold_sameMeaning schema runner operand group row]
  | .between operand lower upper negated, group, row => by
    rw [foldCompileExpr,evaluate_foldBetween,evaluateExpression,evaluateExpression,
      fold_sameMeaning schema runner operand group row,
      fold_sameMeaning schema runner lower group row,
      fold_sameMeaning schema runner upper group row]
  | .inList operand options negated, group, row => by
    rw [foldCompileExpr,evaluate_foldIn,evaluateExpression,evaluateExpression,
      fold_sameMeaning schema runner operand group row]
    simp only [foldOptions_sameMeaning schema runner options]
  | .aggregate kind star argument, group, row => by
    have ih := fold_sameMeaning schema runner argument
    rw [foldCompileExpr]
    by_cases h : (star || argument.isNullptr) = true
    · rw [if_pos h]
    · rw [if_neg h]
      have hs : star = false := by
        cases star with
        | false => rfl
        | true => exact absurd rfl h
      have hrow : evaluateExpression schema runner (foldCompileExpr argument) none =
          evaluateExpression schema runner argument none := funext (ih none)
      cases group with
      | none => rw [evaluateExpression,evaluateExpression]
      | some rows => rw [evaluateExpression,evaluateExpression,hrow,hs]

theorem foldOptions_sameMeaning (schema : Schema) (runner : Option (SubqueryRunner Query σ)) :
    ∀ (options : List (CompileExpr Query)) (group : Option (List Row)) (row : Row)
      (negated : Bool) (operand : EvalValue) (sawNull : Bool),
      evaluateOptions schema runner (foldOptions options) group row negated operand sawNull =
        evaluateOptions schema runner options group row negated operand sawNull
  | [], _, _, _, _, _ => by rw [foldOptions]
  | option::options, group, row, negated, operand, sawNull => by
    rw [foldOptions,evaluateOptions,evaluateOptions,fold_sameMeaning schema runner option group row]
    simp only [foldOptions_sameMeaning schema runner options]

end

/-- Folding keeps every evaluation: the value or the error, and what the subquery runner
is asked and leaves behind. -/
theorem fold_preserves (schema : Schema) (runner : Option (SubqueryRunner Query σ))
    (e : CompileExpr Query) (group : Option (List Row)) (row : Row) (s : σ) :
    evaluateExpression schema runner (foldCompileExpr e) group row s =
      evaluateExpression schema runner e group row s :=
  congrFun (fold_sameMeaning schema runner e group row) s

end Expression
end OurSql
