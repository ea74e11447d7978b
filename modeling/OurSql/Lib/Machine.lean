import Mathlib.Algebra.Order.Group.Int
import Mathlib.Tactic.Linarith

/-! 64-bit arithmetic without wrapping: an operation whose exact result does not fit has no
value, and neither has a division by zero. -/
namespace Machine

variable {a b : Int64} {m n : ℤ}

def Fits (n : ℤ) : Prop := -9223372036854775808 ≤ n ∧ n ≤ 9223372036854775807

instance (n : ℤ) : Decidable (Fits n) := inferInstanceAs (Decidable (_ ∧ _))

def represent (n : ℤ) : Option Int64 := if Fits n then some (.ofInt n) else none

def add (a b : Int64) : Option Int64 := represent (a.toInt + b.toInt)
def sub (a b : Int64) : Option Int64 := represent (a.toInt - b.toInt)
def mul (a b : Int64) : Option Int64 := represent (a.toInt * b.toInt)
def neg (a : Int64) : Option Int64 := represent (-a.toInt)
def div (a b : Int64) : Option Int64 := if b = 0 then none else represent (a.toInt.tdiv b.toInt)

@[simp] theorem toInt_min : Int64.minValue.toInt = -9223372036854775808 := rfl
@[simp] theorem toInt_max : Int64.maxValue.toInt = 9223372036854775807 := rfl

theorem fits_toInt (a : Int64) : Fits a.toInt := by
  have hlt := a.toInt_lt
  have hle := a.le_toInt
  exact ⟨hle,by omega⟩

theorem toInt_eq_zero : a.toInt = 0 ↔ a = 0 := by
  rw [← Int64.toInt_inj]
  rfl

theorem represent_toInt (a : Int64) : represent a.toInt = some a := by
  rw [represent,if_pos (fits_toInt a),Int64.ofInt_toInt]

theorem represent_of_not_fits (h : ¬ Fits n) : represent n = none := if_neg h

theorem bmod_eq (h : Fits n) : n.bmod (2^64) = n := by
  obtain ⟨hl,hu⟩ := h
  exact Int.bmod_eq_of_le (by omega) (by omega)

/-! ### Where the exact result fits, the wrapping operation is exact -/

theorem toInt_add (h : Fits (a.toInt + b.toInt)) : (a + b).toInt = a.toInt + b.toInt := by
  rw [Int64.toInt_add,bmod_eq h]

theorem toInt_sub (h : Fits (a.toInt - b.toInt)) : (a - b).toInt = a.toInt - b.toInt := by
  rw [Int64.toInt_sub,bmod_eq h]

theorem toInt_mul (h : Fits (a.toInt * b.toInt)) : (a * b).toInt = a.toInt * b.toInt := by
  rw [Int64.toInt_mul,bmod_eq h]

theorem toInt_neg (h : Fits (-a.toInt)) : (-a).toInt = -a.toInt := by
  rw [Int64.toInt_neg,bmod_eq h]

theorem add_eq (h : Fits (a.toInt + b.toInt)) : add a b = some (a + b) := by
  rw [add,← toInt_add h,represent_toInt]

theorem sub_eq (h : Fits (a.toInt - b.toInt)) : sub a b = some (a - b) := by
  rw [sub,← toInt_sub h,represent_toInt]

theorem mul_eq (h : Fits (a.toInt * b.toInt)) : mul a b = some (a * b) := by
  rw [mul,← toInt_mul h,represent_toInt]

theorem neg_eq (h : Fits (-a.toInt)) : neg a = some (-a) := by
  rw [neg,← toInt_neg h,represent_toInt]

/-- Only the least integer by minus one has a quotient that does not fit. -/
theorem fits_tdiv (h : ¬ (a = Int64.minValue ∧ b = -1)) : Fits (a.toInt.tdiv b.toInt) := by
  have hdiv : (a / b).toInt = a.toInt.tdiv b.toInt := by
    by_cases ha : a = Int64.minValue
    · exact Int64.toInt_div_of_ne_right a b fun hb => h ⟨ha,hb⟩
    · exact Int64.toInt_div_of_ne_left a b ha
  exact hdiv ▸ fits_toInt (a / b)

theorem div_eq (hb : b ≠ 0) (h : ¬ (a = Int64.minValue ∧ b = -1)) : div a b = some (a / b) := by
  have hdiv : (a / b).toInt = a.toInt.tdiv b.toInt := by
    rw [Int64.toInt_div,bmod_eq (fits_tdiv h)]
  rw [div,if_neg hb,← hdiv,represent_toInt]

theorem not_fits_min_div : ¬ Fits (Int64.minValue.toInt.tdiv (-1 : Int64).toInt) := by
  decide

/-! ### Limits divided by an operand -/

theorem le_tdiv_iff (hn : 0 ≤ n) (hb : 0 < m) (x : ℤ) : x ≤ n.tdiv m ↔ x * m ≤ n := by
  rw [Int.tdiv_eq_ediv_of_nonneg hn,Int.le_ediv_iff_mul_le hb]

theorem tdiv_le_iff (hn : n ≤ 0) (hb : 0 < m) (x : ℤ) : n.tdiv m ≤ x ↔ n ≤ x * m := by
  have hneg : n.tdiv m = -(-n).tdiv m := by rw [Int.neg_tdiv,neg_neg]
  rw [hneg,neg_le,le_tdiv_iff (by omega) hb]
  constructor <;> intro h <;> nlinarith

theorem tdiv_neg_le_iff (hn : 0 ≤ n) (hb : m < 0) (x : ℤ) : n.tdiv m ≤ x ↔ x * m ≤ n := by
  have hneg : n.tdiv m = -n.tdiv (-m) := by rw [Int.tdiv_neg,neg_neg]
  rw [hneg,neg_le,le_tdiv_iff hn (by omega)]
  constructor <;> intro h <;> nlinarith

/-! ### Conditions whose operands may have no value -/

/-- `&&`, whose second operand may have no value. -/
def andThen (p : Bool) (q : Option Bool) : Option Bool := if p then q else some false

/-- `||`. -/
def orElse (p q : Option Bool) : Option Bool := p.bind fun b => if b then some true else q

theorem andThen_map {p : Bool} {x : Option Int64} {f : Int64 → Bool} (h : p = true → x = some a) :
    andThen p (x.map f) = some (p && f a) := by
  cases p with
  | true => simp [andThen,h rfl]
  | false => rfl

@[simp] theorem orElse_some (p q : Bool) : orElse (some p) (some q) = some (p || q) := by
  cases p <;> rfl

end Machine
