import OurSql.Lib.Machine
import OurSql.Expression.Fold
import OurSql.Expression.Update

/-! The three copies of integer arithmetic (folding, SELECT, UPDATE) are exact: each gives
the mathematical result when it fits and fails otherwise, and no guard overflows itself. -/
namespace OurSql
namespace Expression

open Data CompileExpr
open Machine (Fits represent)

/-! ### The copies, operation by operation -/

namespace Stepped

open Machine

def addOverflows (lhs rhs : Int64) : Option Bool :=
  orElse (andThen (0 < rhs) ((sub Int64.maxValue rhs).map fun n => n < lhs))
    (andThen (rhs < 0) ((sub Int64.minValue rhs).map fun n => lhs < n))

def subOverflows (lhs rhs : Int64) : Option Bool :=
  orElse (andThen (0 < rhs) ((add Int64.minValue rhs).map fun n => lhs < n))
    (andThen (rhs < 0) ((add Int64.maxValue rhs).map fun n => n < lhs))

def mulValid (lhs rhs : Int64) : Option Bool :=
  if (lhs = -1 ∧ rhs = Int64.minValue) ∨ (rhs = -1 ∧ lhs = Int64.minValue) then some false
  else if 0 < lhs ∧ 0 < rhs then (div Int64.maxValue rhs).map fun n => lhs ≤ n
  else if 0 < lhs ∧ rhs < 0 then (div Int64.minValue lhs).map fun n => n ≤ rhs
  else if lhs < 0 ∧ 0 < rhs then (div Int64.minValue rhs).map fun n => n ≤ lhs
  else if lhs < 0 ∧ rhs < 0 then (div Int64.maxValue rhs).map fun n => n ≤ lhs
  else some true

def safeAdd (lhs rhs : Int64) : Option (Option Int64) :=
  (addOverflows lhs rhs).bind fun o => if o then some none else (add lhs rhs).map some

def safeSub (lhs rhs : Int64) : Option (Option Int64) :=
  (subOverflows lhs rhs).bind fun o => if o then some none else (sub lhs rhs).map some

def safeMul (lhs rhs : Int64) : Option (Option Int64) :=
  if lhs = 0 ∨ rhs = 0 then some (some 0)
  else if lhs = -1 ∧ rhs = Int64.minValue then some none
  else if rhs = -1 ∧ lhs = Int64.minValue then some none
  else
    (andThen (0 < lhs ∧ 0 < rhs) ((div Int64.maxValue rhs).map fun n => n < lhs)).bind fun o =>
    if o then some none else
    (andThen (0 < lhs ∧ rhs < 0) ((div Int64.minValue lhs).map fun n => rhs < n)).bind fun o =>
    if o then some none else
    (andThen (lhs < 0 ∧ 0 < rhs) ((div Int64.minValue rhs).map fun n => lhs < n)).bind fun o =>
    if o then some none else
    (andThen (lhs < 0 ∧ rhs < 0) ((div Int64.maxValue rhs).map fun n => lhs < n)).bind fun o =>
    if o then some none else (mul lhs rhs).map some

def foldArithmetic (op : String) (lhs rhs : Int64) : Option (Option Int64) :=
  if op = "+" then safeAdd lhs rhs
  else if op = "-" then safeSub lhs rhs
  else if op = "*" then safeMul lhs rhs
  else if op = "/" ∧ rhs ≠ 0 ∧ ¬ (lhs = Int64.minValue ∧ rhs = -1) then
    (div lhs rhs).map some
  else some none

def arithmetic (op : String) (lhs rhs : Int64) : Option (Result EvalValue) :=
  if op = "+" then (addOverflows lhs rhs).bind fun o =>
    if o then some (fail .invalidArgument "整数运算溢出")
    else (add lhs rhs).map fun n => .ok (.int n)
  else if op = "-" then (subOverflows lhs rhs).bind fun o =>
    if o then some (fail .invalidArgument "整数运算溢出")
    else (sub lhs rhs).map fun n => .ok (.int n)
  else if op = "*" then
    if lhs = 0 ∨ rhs = 0 then some (.ok (.int 0))
    else (mulValid lhs rhs).bind fun valid =>
      if valid then (mul lhs rhs).map fun n => .ok (.int n)
      else some (fail .invalidArgument "整数运算溢出")
  else if divValid lhs rhs then (div lhs rhs).map fun n => .ok (.int n)
  else some (fail .invalidArgument (if rhs = 0 then "除数不能为零" else "整数运算溢出"))

def updateArithmetic (op : String) (lhs rhs : Int64) : Option (Result Value) :=
  let overflow : Result Value := fail .invalidArgument "UPDATE SET 整数运算溢出"
  if op = "+" then (addOverflows lhs rhs).bind fun o =>
    if o then some overflow else (add lhs rhs).map fun n => .ok (.int n)
  else if op = "-" then (subOverflows lhs rhs).bind fun o =>
    if o then some overflow else (sub lhs rhs).map fun n => .ok (.int n)
  else if op = "*" then
    if lhs = 0 ∨ rhs = 0 then some (.ok (.int 0))
    else (mulValid lhs rhs).bind fun valid =>
      if valid then (mul lhs rhs).map fun n => .ok (.int n) else some overflow
  else if op = "/" then
    if divValid lhs rhs then (div lhs rhs).map fun n => .ok (.int n)
    else if rhs = 0 then some (fail .invalidArgument "UPDATE SET 除数不能为零")
    else some overflow
  else some (fail .invalidArgument ("UPDATE SET 不支持的二元运算符: " ++ op))

/-- The negation of the three copies, each guarded by the same comparison. -/
def negate (n : Int64) : Option (Option Int64) :=
  if n = Int64.minValue then some none else (neg n).map some

end Stepped

/-! ### What the guards decide -/

variable {lhs rhs n : Int64}

theorem pos_iff : 0 < n ↔ 0 < n.toInt := Int64.lt_iff_toInt_lt

theorem neg_iff : n < 0 ↔ n.toInt < 0 := Int64.lt_iff_toInt_lt

theorem eq_min_iff : n = Int64.minValue ↔ n.toInt = -9223372036854775808 := by
  rw [← Int64.toInt_inj,Machine.toInt_min]

theorem eq_minus_one_iff : n = -1 ↔ n.toInt = -1 := by
  rw [← Int64.toInt_inj]
  rfl

/-- A limit and an operand that pulls it inwards. -/
theorem fits_limit_of_pos (h : 0 < rhs.toInt) :
    Fits (Int64.maxValue.toInt - rhs.toInt) ∧ Fits (Int64.minValue.toInt + rhs.toInt) := by
  have hb := Machine.fits_toInt rhs
  simp only [Fits,Machine.toInt_min,Machine.toInt_max] at hb ⊢
  omega

theorem fits_limit_of_neg (h : rhs.toInt < 0) :
    Fits (Int64.minValue.toInt - rhs.toInt) ∧ Fits (Int64.maxValue.toInt + rhs.toInt) := by
  have hb := Machine.fits_toInt rhs
  simp only [Fits,Machine.toInt_min,Machine.toInt_max] at hb ⊢
  omega

theorem addOverflows_eq_false : addOverflows lhs rhs = false ↔ Fits (lhs.toInt + rhs.toInt) := by
  have hl := Machine.fits_toInt lhs
  simp only [addOverflows,decide_eq_false_iff_not,not_or,not_and,pos_iff,neg_iff]
  rcases lt_trichotomy rhs.toInt 0 with hr | hr | hr
  · have hlim := Machine.toInt_sub (fits_limit_of_neg hr).1
    simp only [Int64.lt_iff_toInt_lt,hlim,Fits,Machine.toInt_min] at hl ⊢
    omega
  · rw [hr,add_zero]
    simp only [Int.lt_irrefl,false_implies,true_and,hl]
  · have hlim := Machine.toInt_sub (fits_limit_of_pos hr).1
    simp only [Int64.lt_iff_toInt_lt,hlim,Fits,Machine.toInt_max] at hl ⊢
    omega

theorem subOverflows_eq_false : subOverflows lhs rhs = false ↔ Fits (lhs.toInt - rhs.toInt) := by
  have hl := Machine.fits_toInt lhs
  simp only [subOverflows,decide_eq_false_iff_not,not_or,not_and,pos_iff,neg_iff]
  rcases lt_trichotomy rhs.toInt 0 with hr | hr | hr
  · have hlim := Machine.toInt_add (fits_limit_of_neg hr).2
    simp only [Int64.lt_iff_toInt_lt,hlim,Fits,Machine.toInt_max] at hl ⊢
    omega
  · rw [hr,sub_zero]
    simp only [Int.lt_irrefl,false_implies,true_and,hl]
  · have hlim := Machine.toInt_add (fits_limit_of_pos hr).2
    simp only [Int64.lt_iff_toInt_lt,hlim,Fits,Machine.toInt_min] at hl ⊢
    omega

/-- A limit divided by an operand is the quotient. -/
theorem toInt_max_div (h : rhs ≠ 0) :
    Machine.div Int64.maxValue rhs = some (Int64.maxValue / rhs) ∧
      (Int64.maxValue / rhs).toInt = (9223372036854775807 : ℤ).tdiv rhs.toInt := by
  have hne : Int64.maxValue ≠ Int64.minValue := by decide
  exact ⟨Machine.div_eq h fun hm => hne hm.1,Int64.toInt_div_of_ne_left _ _ hne⟩

theorem toInt_min_div (h : 0 < rhs.toInt) :
    Machine.div Int64.minValue rhs = some (Int64.minValue / rhs) ∧
      (Int64.minValue / rhs).toInt = (-9223372036854775808 : ℤ).tdiv rhs.toInt := by
  have hone : rhs ≠ -1 := by
    rw [Ne,eq_minus_one_iff]
    omega
  have hzero : rhs ≠ 0 := by
    rw [Ne,← Machine.toInt_eq_zero]
    omega
  exact ⟨Machine.div_eq hzero fun hm => hone hm.2,Int64.toInt_div_of_ne_right _ _ hone⟩

theorem mulValid_eq_true (hl : lhs ≠ 0) (hr : rhs ≠ 0) :
    mulValid lhs rhs = true ↔ Fits (lhs.toInt * rhs.toInt) := by
  have hl' : lhs.toInt ≠ 0 := Machine.toInt_eq_zero.not.mpr hl
  have hr' : rhs.toInt ≠ 0 := Machine.toInt_eq_zero.not.mpr hr
  unfold mulValid
  split_ifs with h1 h2 h3 h4 h5
  · simp only [false_iff,Fits,not_and,not_le]
    simp only [eq_min_iff,eq_minus_one_iff] at h1
    rcases h1 with ⟨h1,h2⟩ | ⟨h1,h2⟩
    · rw [h1,h2]
      omega
    · rw [h1,h2]
      omega
  · simp only [pos_iff] at h2
    have hprod := Int.mul_pos h2.1 h2.2
    rw [decide_eq_true_iff,Int64.le_iff_toInt_le,(toInt_max_div hr).2,
      Machine.le_tdiv_iff (by decide) h2.2,Fits]
    omega
  · simp only [pos_iff,neg_iff] at h3
    have hprod := Int.mul_neg_of_pos_of_neg h3.1 h3.2
    rw [decide_eq_true_iff,Int64.le_iff_toInt_le,(toInt_min_div h3.1).2,
      Machine.tdiv_le_iff (by decide) h3.1,Fits,mul_comm]
    omega
  · simp only [pos_iff,neg_iff] at h4
    have hprod := Int.mul_neg_of_neg_of_pos h4.1 h4.2
    rw [decide_eq_true_iff,Int64.le_iff_toInt_le,(toInt_min_div h4.2).2,
      Machine.tdiv_le_iff (by decide) h4.2,Fits]
    omega
  · simp only [neg_iff] at h5
    have hprod := Int.mul_pos_of_neg_of_neg h5.1 h5.2
    rw [decide_eq_true_iff,Int64.le_iff_toInt_le,(toInt_max_div hr).2,
      Machine.tdiv_neg_le_iff (by decide) h5.2,Fits]
    omega
  · simp only [pos_iff,neg_iff] at h2 h3 h4 h5
    omega

/-! ### No step of the guards, and none after them, leaves the range -/

theorem stepped_addOverflows : Stepped.addOverflows lhs rhs = some (addOverflows lhs rhs) := by
  have hpos (h : decide (0 < rhs) = true) :
      Machine.sub Int64.maxValue rhs = some (Int64.maxValue - rhs) :=
    Machine.sub_eq (fits_limit_of_pos (pos_iff.mp (of_decide_eq_true h))).1
  have hneg (h : decide (rhs < 0) = true) :
      Machine.sub Int64.minValue rhs = some (Int64.minValue - rhs) :=
    Machine.sub_eq (fits_limit_of_neg (neg_iff.mp (of_decide_eq_true h))).1
  rw [Stepped.addOverflows,Machine.andThen_map hpos,Machine.andThen_map hneg,
    Machine.orElse_some,addOverflows]
  simp only [Bool.decide_or,Bool.decide_and]

theorem stepped_subOverflows : Stepped.subOverflows lhs rhs = some (subOverflows lhs rhs) := by
  have hpos (h : decide (0 < rhs) = true) :
      Machine.add Int64.minValue rhs = some (Int64.minValue + rhs) :=
    Machine.add_eq (fits_limit_of_pos (pos_iff.mp (of_decide_eq_true h))).2
  have hneg (h : decide (rhs < 0) = true) :
      Machine.add Int64.maxValue rhs = some (Int64.maxValue + rhs) :=
    Machine.add_eq (fits_limit_of_neg (neg_iff.mp (of_decide_eq_true h))).2
  rw [Stepped.subOverflows,Machine.andThen_map hpos,Machine.andThen_map hneg,
    Machine.orElse_some,subOverflows]
  simp only [Bool.decide_or,Bool.decide_and]

theorem stepped_mulValid (hr : rhs ≠ 0) : Stepped.mulValid lhs rhs = some (mulValid lhs rhs) := by
  unfold Stepped.mulValid mulValid
  split_ifs with h1 h2 h3 h4 h5
  · rfl
  · rw [(toInt_max_div hr).1,Option.map_some]
  · rw [(toInt_min_div (pos_iff.mp h3.1)).1,Option.map_some]
  · rw [(toInt_min_div (pos_iff.mp h4.2)).1,Option.map_some]
  · rw [(toInt_max_div hr).1,Option.map_some]
  · rfl

/-- The folding's chain of exits and the evaluators' check decide alike. -/
theorem safeMul_eq (hl : lhs ≠ 0) (hr : rhs ≠ 0) :
    safeMul lhs rhs = if mulValid lhs rhs then some (lhs * rhs) else none := by
  rw [safeMul,if_neg (not_or.mpr ⟨hl,hr⟩)]
  by_cases h1 : lhs = -1 ∧ rhs = Int64.minValue
  · simp only [mulValid,if_pos h1,if_pos (Or.inl h1),Bool.false_eq_true,if_false]
  by_cases h2 : rhs = -1 ∧ lhs = Int64.minValue
  · simp only [mulValid,if_neg h1,if_pos h2,if_pos (Or.inr h2),Bool.false_eq_true,if_false]
  -- the sign of each factor picks one of the four limits
  rcases lt_or_gt_of_ne (Machine.toInt_eq_zero.not.mpr hl) with hl0 | hl0 <;>
    rcases lt_or_gt_of_ne (Machine.toInt_eq_zero.not.mpr hr) with hr0 | hr0 <;>
      simp only [mulValid,if_neg h1,if_neg h2,if_neg (not_or.mpr ⟨h1,h2⟩),pos_iff,neg_iff,hl0,hr0,
        hl0.not_gt,hr0.not_gt,and_true,true_and,false_and,if_false,if_true,← Int64.not_lt,
        decide_not,Bool.not_eq_true',decide_eq_false_iff_not,ite_not]

theorem stepped_safeMul : Stepped.safeMul lhs rhs = some (safeMul lhs rhs) := by
  by_cases hz : lhs = 0 ∨ rhs = 0
  · rw [Stepped.safeMul,if_pos hz,safeMul,if_pos hz]
  obtain ⟨hl,hr⟩ := not_or.mp hz
  have hvalid := safeMul_eq hl hr
  have hpp (h : decide (0 < lhs ∧ 0 < rhs) = true) := (toInt_max_div hr).1
  have hpn (h : decide (0 < lhs ∧ rhs < 0) = true) :=
    (toInt_min_div (pos_iff.mp (of_decide_eq_true h).1)).1
  have hnp (h : decide (lhs < 0 ∧ 0 < rhs) = true) :=
    (toInt_min_div (pos_iff.mp (of_decide_eq_true h).2)).1
  have hnn (h : decide (lhs < 0 ∧ rhs < 0) = true) := (toInt_max_div hr).1
  rw [Stepped.safeMul,if_neg hz,Machine.andThen_map hpp,Machine.andThen_map hpn,
    Machine.andThen_map hnp,Machine.andThen_map hnn]
  simp only [safeMul,if_neg hz,Option.bind_some,Bool.and_eq_true,decide_eq_true_eq,
    and_assoc] at hvalid ⊢
  split_ifs with h1 h2 h3 h4 h5 h6
  · rfl
  · rfl
  · rfl
  · rfl
  · rfl
  · rfl
  · rw [if_neg h1,if_neg h2,if_neg h3,if_neg h4,if_neg h5,if_neg h6] at hvalid
    have hv : mulValid lhs rhs = true := by
      by_contra hv
      rw [if_neg hv] at hvalid
      cases hvalid
    rw [Machine.mul_eq ((mulValid_eq_true hl hr).mp hv),Option.map_some]

theorem stepped_add (h : addOverflows lhs rhs = false) : Machine.add lhs rhs = some (lhs + rhs) :=
  Machine.add_eq (addOverflows_eq_false.mp h)

theorem stepped_sub (h : subOverflows lhs rhs = false) : Machine.sub lhs rhs = some (lhs - rhs) :=
  Machine.sub_eq (subOverflows_eq_false.mp h)

theorem safeAdd_eq : safeAdd lhs rhs = if addOverflows lhs rhs then none else some (lhs + rhs) := by
  simp only [safeAdd,addOverflows,decide_eq_true_eq]

theorem safeSub_eq : safeSub lhs rhs = if subOverflows lhs rhs then none else some (lhs - rhs) := by
  simp only [safeSub,subOverflows,decide_eq_true_eq]

theorem stepped_foldArithmetic {op : String} :
    Stepped.foldArithmetic op lhs rhs = some (foldArithmetic op lhs rhs) := by
  have hadd : Stepped.safeAdd lhs rhs = some (safeAdd lhs rhs) := by
    rw [Stepped.safeAdd,stepped_addOverflows,Option.bind_some,safeAdd_eq]
    split_ifs with ho
    · rfl
    · rw [stepped_add (Bool.eq_false_of_not_eq_true ho),Option.map_some]
  have hsub : Stepped.safeSub lhs rhs = some (safeSub lhs rhs) := by
    rw [Stepped.safeSub,stepped_subOverflows,Option.bind_some,safeSub_eq]
    split_ifs with ho
    · rfl
    · rw [stepped_sub (Bool.eq_false_of_not_eq_true ho),Option.map_some]
  rw [Stepped.foldArithmetic,foldArithmetic,hadd,hsub,stepped_safeMul]
  split_ifs with h1 h2 h3 h4
  · rfl
  · rfl
  · rfl
  · rw [Machine.div_eq h4.2.1 h4.2.2,Option.map_some]
  · rfl

theorem divValid_iff : divValid lhs rhs = true ↔
    rhs ≠ 0 ∧ ¬ (lhs = Int64.minValue ∧ rhs = -1) := by
  rw [divValid,decide_eq_true_iff]

theorem stepped_arithmetic {op : String} :
    Stepped.arithmetic op lhs rhs = some (arithmetic op lhs rhs) := by
  rw [Stepped.arithmetic,arithmetic,stepped_addOverflows,stepped_subOverflows]
  simp only [Option.bind_some]
  split_ifs with h1 ho h2 ho h3 hz h4
  · rfl
  · rw [stepped_add (Bool.eq_false_of_not_eq_true ho),Option.map_some]
  · rfl
  · rw [stepped_sub (Bool.eq_false_of_not_eq_true ho),Option.map_some]
  · rfl
  · obtain ⟨hl,hr⟩ := not_or.mp hz
    rw [stepped_mulValid hr,Option.bind_some,if_pos h4,
      Machine.mul_eq ((mulValid_eq_true hl hr).mp h4),Option.map_some]
  · rw [stepped_mulValid (not_or.mp hz).2,Option.bind_some,if_neg h4]
  · obtain ⟨hr,hm⟩ := divValid_iff.mp ‹_›
    rw [Machine.div_eq hr hm,Option.map_some]
  · rfl
  · rfl

theorem stepped_updateArithmetic {op : String} :
    Stepped.updateArithmetic op lhs rhs = some (updateArithmetic op lhs rhs) := by
  rw [Stepped.updateArithmetic,updateArithmetic,stepped_addOverflows,stepped_subOverflows]
  simp only [Option.bind_some]
  split_ifs with h1 ho h2 ho h3 hz h4 h5 h6
  · rfl
  · rw [stepped_add (Bool.eq_false_of_not_eq_true ho),Option.map_some]
  · rfl
  · rw [stepped_sub (Bool.eq_false_of_not_eq_true ho),Option.map_some]
  · rfl
  · obtain ⟨hl,hr⟩ := not_or.mp hz
    rw [stepped_mulValid hr,Option.bind_some,if_pos h4,
      Machine.mul_eq ((mulValid_eq_true hl hr).mp h4),Option.map_some]
  · rw [stepped_mulValid (not_or.mp hz).2,Option.bind_some,if_neg h4]
  · obtain ⟨hr,hm⟩ := divValid_iff.mp ‹_›
    rw [Machine.div_eq hr hm,Option.map_some]
  · rfl
  · rfl
  · rfl

/-! ### The mathematical result -/

/-- There is none for a division by zero. -/
def mathematical (op : String) (lhs rhs : ℤ) : Option ℤ :=
  if op = "+" then some (lhs + rhs)
  else if op = "-" then some (lhs - rhs)
  else if op = "*" then some (lhs * rhs)
  else if op = "/" ∧ rhs ≠ 0 then some (lhs.tdiv rhs)
  else none

/-- The mathematical result where it is a 64-bit integer. -/
def exactResult (op : String) (lhs rhs : Int64) : Option Int64 :=
  (mathematical op lhs.toInt rhs.toInt).bind represent

theorem exactResult_add :
    exactResult "+" lhs rhs = if addOverflows lhs rhs then none else some (lhs + rhs) := by
  change Machine.add lhs rhs = _
  split_ifs with ho
  · exact Machine.represent_of_not_fits fun hf =>
      Bool.false_ne_true ((addOverflows_eq_false.mpr hf).symm.trans ho)
  · exact stepped_add (Bool.eq_false_of_not_eq_true ho)

theorem exactResult_sub :
    exactResult "-" lhs rhs = if subOverflows lhs rhs then none else some (lhs - rhs) := by
  change Machine.sub lhs rhs = _
  split_ifs with ho
  · exact Machine.represent_of_not_fits fun hf =>
      Bool.false_ne_true ((subOverflows_eq_false.mpr hf).symm.trans ho)
  · exact stepped_sub (Bool.eq_false_of_not_eq_true ho)

theorem exactResult_mul : exactResult "*" lhs rhs =
    if lhs = 0 ∨ rhs = 0 then some 0 else if mulValid lhs rhs then some (lhs * rhs) else none := by
  change Machine.mul lhs rhs = _
  split_ifs with hz hv
  · rcases hz with rfl | rfl
    · rw [Machine.mul,Int64.toInt_zero,zero_mul]
      rfl
    · rw [Machine.mul,Int64.toInt_zero,mul_zero]
      rfl
  · obtain ⟨hl,hr⟩ := not_or.mp hz
    exact Machine.mul_eq ((mulValid_eq_true hl hr).mp hv)
  · obtain ⟨hl,hr⟩ := not_or.mp hz
    exact Machine.represent_of_not_fits fun hf => hv ((mulValid_eq_true hl hr).mpr hf)

theorem exactResult_div :
    exactResult "/" lhs rhs = if divValid lhs rhs then some (lhs / rhs) else none := by
  have hop : ¬ ("/" = "+") ∧ ¬ ("/" = "-") ∧ ¬ ("/" = "*") := by decide
  rw [exactResult,mathematical,if_neg hop.1,if_neg hop.2.1,if_neg hop.2.2]
  by_cases hr : rhs = 0
  · rw [if_neg (by simp [hr]),if_neg (by simp [divValid,hr]),Option.bind_none]
  rw [if_pos ⟨rfl,Machine.toInt_eq_zero.not.mpr hr⟩,Option.bind_some]
  by_cases hm : lhs = Int64.minValue ∧ rhs = -1
  · obtain ⟨rfl,rfl⟩ := hm
    rw [Machine.represent_of_not_fits Machine.not_fits_min_div,if_neg (by decide)]
  · have hdiv := Machine.div_eq hr hm
    rw [Machine.div,if_neg hr] at hdiv
    rw [hdiv,if_pos (divValid_iff.mpr ⟨hr,hm⟩)]

/-- The number asked for, or an error where there is none. -/
def Answers {α : Type} (wrap : Int64 → α) (result : Result α) : Option Int64 → Prop
  | some n => result = .ok (wrap n)
  | none => ∃ message, result = fail .invalidArgument message

theorem isArithmetic_iff {op : String} :
    isArithmetic op = true ↔ op = "+" ∨ op = "-" ∨ op = "*" ∨ op = "/" := by
  rw [isArithmetic,decide_eq_true_iff]

theorem foldArithmetic_exact {op : String} (h : isArithmetic op = true) :
    foldArithmetic op lhs rhs = exactResult op lhs rhs := by
  rcases isArithmetic_iff.mp h with rfl | rfl | rfl | rfl
  · rw [exactResult_add,← safeAdd_eq]
    rfl
  · rw [exactResult_sub,← safeSub_eq]
    rfl
  · rw [exactResult_mul]
    change safeMul lhs rhs = _
    split_ifs with hz hv
    · rw [safeMul,if_pos hz]
    · rw [safeMul_eq (not_or.mp hz).1 (not_or.mp hz).2,if_pos hv]
    · rw [safeMul_eq (not_or.mp hz).1 (not_or.mp hz).2,if_neg hv]
  · rw [exactResult_div,foldArithmetic,if_neg (by decide),if_neg (by decide),if_neg (by decide)]
    simp only [true_and,divValid,decide_eq_true_eq]

theorem arithmetic_exact {op : String} (h : isArithmetic op = true) :
    Answers EvalValue.int (arithmetic op lhs rhs) (exactResult op lhs rhs) := by
  rcases isArithmetic_iff.mp h with rfl | rfl | rfl | rfl
  · rw [exactResult_add,arithmetic,if_pos rfl]
    split_ifs
    · exact ⟨_,rfl⟩
    · exact rfl
  · rw [exactResult_sub,arithmetic,if_neg (by decide),if_pos rfl]
    split_ifs
    · exact ⟨_,rfl⟩
    · exact rfl
  · rw [exactResult_mul,arithmetic,if_neg (by decide),if_neg (by decide),if_pos rfl]
    split_ifs
    · exact rfl
    · exact rfl
    · exact ⟨_,rfl⟩
  · rw [exactResult_div,arithmetic,if_neg (by decide),if_neg (by decide),if_neg (by decide)]
    split_ifs <;> first | exact rfl | exact ⟨_,rfl⟩

theorem updateArithmetic_exact {op : String} (h : isArithmetic op = true) :
    Answers Value.int (updateArithmetic op lhs rhs) (exactResult op lhs rhs) := by
  rcases isArithmetic_iff.mp h with rfl | rfl | rfl | rfl
  · rw [exactResult_add,updateArithmetic,if_pos rfl]
    split_ifs
    · exact ⟨_,rfl⟩
    · exact rfl
  · rw [exactResult_sub,updateArithmetic,if_neg (by decide),if_pos rfl]
    split_ifs
    · exact ⟨_,rfl⟩
    · exact rfl
  · rw [exactResult_mul,updateArithmetic,if_neg (by decide),if_neg (by decide),if_pos rfl]
    split_ifs
    · exact rfl
    · exact rfl
    · exact ⟨_,rfl⟩
  · rw [exactResult_div,updateArithmetic,if_neg (by decide),if_neg (by decide),
      if_neg (by decide),if_pos rfl]
    split_ifs <;> first | exact rfl | exact ⟨_,rfl⟩

/-! ### The three implementations at the nodes of an expression -/

variable {Query σ : Type}

/-- An arithmetic node over two integers, in each implementation. -/
structure BinaryExact (Query σ : Type) (op : String) (lhs rhs : Int64) : Prop where
  folded : ∀ {left right : CompileExpr Query} {l r : CompileLiteral},
    foldCompileExpr left = .literal l → l.kind = .int → l.integer = lhs →
    foldCompileExpr right = .literal r → r.kind = .int → r.integer = rhs →
    foldCompileExpr (.binary op left right) =
      (exactResult op lhs rhs).elim (.binary op (.literal l) (.literal r)) makeInt
  evaluated : ∀ {schema : Schema} {runner : Option (SubqueryRunner Query σ)}
    {left right : CompileExpr Query} {group : Option (List Row)} {row : Row} {l r : EvalValue}
    {s₁ s₂ s₃ : σ},
    evaluateExpression schema runner left group row s₁ = (.ok l,s₂) → l.kind = .int →
    l.integer = lhs →
    evaluateExpression schema runner right group row s₂ = (.ok r,s₃) → r.kind = .int →
    r.integer = rhs →
    ∃ result, evaluateExpression schema runner (.binary op left right) group row s₁ = (result,s₃) ∧
      Answers EvalValue.int result (exactResult op lhs rhs)
  updated : ∀ {schema : Schema} {row : Row} {left right : CompileExpr Query},
    evaluateUpdateExpression schema row left = .ok (.int lhs) →
    evaluateUpdateExpression schema row right = .ok (.int rhs) →
    Answers Value.int (evaluateUpdateExpression schema row (.binary op left right))
      (exactResult op lhs rhs)
  /-- With every operation of the source left without a value where it overflows. -/
  foldSteps : Stepped.foldArithmetic op lhs rhs = some (foldArithmetic op lhs rhs)
  evaluationSteps : Stepped.arithmetic op lhs rhs = some (arithmetic op lhs rhs)
  updateSteps : Stepped.updateArithmetic op lhs rhs = some (updateArithmetic op lhs rhs)

/-- Unary minus of an integer, in each implementation. -/
structure NegationExact (Query σ : Type) (n : Int64) : Prop where
  folded : ∀ {operand : CompileExpr Query} {l : CompileLiteral},
    foldCompileExpr operand = .literal l → l.kind = .int → l.integer = n →
    foldCompileExpr (.unary "-" operand) =
      (represent (-n.toInt)).elim (.unary "-" (.literal l)) makeInt
  evaluated : ∀ {schema : Schema} {runner : Option (SubqueryRunner Query σ)}
    {operand : CompileExpr Query} {group : Option (List Row)} {row : Row} {v : EvalValue}
    {s₁ s₂ : σ},
    evaluateExpression schema runner operand group row s₁ = (.ok v,s₂) → v.kind = .int →
    v.integer = n →
    ∃ result, evaluateExpression schema runner (.unary "-" operand) group row s₁ = (result,s₂) ∧
      Answers EvalValue.int result (represent (-n.toInt))
  updated : ∀ {schema : Schema} {row : Row} {operand : CompileExpr Query},
    evaluateUpdateExpression schema row operand = .ok (.int n) →
    Answers Value.int (evaluateUpdateExpression schema row (.unary "-" operand))
      (represent (-n.toInt))
  steps : Stepped.negate n = some (represent (-n.toInt))

theorem represent_neg :
    represent (-n.toInt) = if n = Int64.minValue then none else some (-n) := by
  have hle := n.le_toInt
  have hlt := n.toInt_lt
  split_ifs with h
  · rw [eq_min_iff] at h
    exact Machine.represent_of_not_fits (by rw [h]; decide)
  · rw [eq_min_iff] at h
    exact Machine.neg_eq ⟨by omega,by omega⟩

theorem foldBinary_ints {op : String} {l r : CompileLiteral} (h : isArithmetic op = true)
    (hl : l.kind = .int) (hr : r.kind = .int) :
    foldBinary op (.literal l) (.literal r : CompileExpr Query) =
      (foldArithmetic op l.integer r.integer).elim (.binary op (.literal l) (.literal r))
        makeInt := by
  have hnone : ∀ compare, foldComparison op compare = none := by
    intro compare
    rcases isArithmetic_iff.mp h with rfl | rfl | rfl | rfl <;> rfl
  cases hf : foldArithmetic op l.integer r.integer with
  | some n => simp [foldBinary,isInt,hl,hr,hf]
  | none => simp [foldBinary,isInt,isBool,hl,hr,hf,hnone]

theorem combine_ints {op : String} {l r : EvalValue} (h : isArithmetic op = true)
    (hl : l.kind = .int) (hr : r.kind = .int) :
    combine op l r = arithmetic op l.integer r.integer := by
  have hop : ¬ (op = "and" ∨ op = "or") ∧ ¬ (op = "like" ∨ op = "not like") := by
    rcases isArithmetic_iff.mp h with rfl | rfl | rfl | rfl <;> decide
  simp [combine,hop,EvalValue.isNull,hl,hr,h]

theorem binaryExact {op : String} (h : isArithmetic op = true) (lhs rhs : Int64) :
    BinaryExact Query σ op lhs rhs where
  folded := by
    intro left right l r hl hlk hln hr hrk hrn
    rw [foldCompileExpr,hl,hr,foldBinary_ints h hlk hrk,hln,hrn,foldArithmetic_exact h]
  evaluated := by
    intro schema runner left right group row l r s₁ s₂ s₃ hl hlk hln hr hrk hrn
    have hshort : shortCircuit op l = none := shortCircuit_eq_none (Or.inr (by simp [hlk]))
    refine ⟨arithmetic op lhs rhs,?_,arithmetic_exact h⟩
    simp only [evaluateExpression,Eval.bind,hl,hshort,hr,Eval.lift,combine_ints h hlk hrk,hln,hrn]
  updated := by
    intro schema row left right hl hr
    rw [evaluateUpdateExpression,hl,hr]
    exact updateArithmetic_exact h
  foldSteps := stepped_foldArithmetic
  evaluationSteps := stepped_arithmetic
  updateSteps := stepped_updateArithmetic

theorem negationExact (n : Int64) : NegationExact Query σ n where
  folded := by
    intro operand l hl hlk hln
    rw [foldCompileExpr,hl,represent_neg]
    subst hln
    split_ifs with hm
    · simp [foldUnary,hm]
    · simp [foldUnary,isInt,hlk,hm]
  evaluated := by
    intro schema runner operand group row v s₁ s₂ hv hk hn
    subst hn
    refine ⟨evaluateUnary "-" v,by simp only [evaluateExpression,Eval.bind,hv,Eval.lift],?_⟩
    rw [represent_neg,evaluateUnary,if_neg (by simp [EvalValue.isNull,hk]),
      if_neg (by simp),if_pos ⟨rfl,hk⟩]
    split_ifs
    · exact ⟨_,rfl⟩
    · exact rfl
  updated := by
    intro schema row operand h
    rw [evaluateUpdateExpression,h,represent_neg]
    simp only [ne_eq,not_true_eq_false,if_false]
    split_ifs
    · exact ⟨_,rfl⟩
    · exact rfl
  steps := by
    have hneg := represent_neg (n := n)
    rw [Stepped.negate,hneg]
    split_ifs with hm
    · rfl
    · rw [if_neg hm] at hneg
      rw [Machine.neg,hneg,Option.map_some]

/-- At every pair of operands the folding, SELECT and UPDATE compute the mathematical result
where it is a 64-bit integer and refuse elsewhere, and so does unary minus. -/
theorem checkedArithmetic_exact {op : String} (h : isArithmetic op = true) (lhs rhs : Int64) :
    BinaryExact Query σ op lhs rhs ∧ NegationExact Query σ lhs :=
  ⟨binaryExact h lhs rhs,negationExact lhs⟩

/-- The least integer by minus one: the node stays, and both evaluators refuse it. -/
theorem checkedArithmetic_exact_min :
    foldCompileExpr (.binary "/" (makeInt Int64.minValue) (makeInt (-1)) : CompileExpr Unit) =
        .binary "/" (makeInt Int64.minValue) (makeInt (-1)) ∧
      foldCompileExpr (.unary "-" (makeInt Int64.minValue) : CompileExpr Unit) =
        .unary "-" (makeInt Int64.minValue) := by
  have hexact : BinaryExact Unit Unit "/" Int64.minValue (-1) ∧
      NegationExact Unit Unit Int64.minValue :=
    checkedArithmetic_exact (by decide) Int64.minValue (-1)
  exact ⟨hexact.1.folded rfl rfl rfl rfl rfl rfl,hexact.2.folded rfl rfl rfl⟩

end Expression
end OurSql
