import Mathlib.Algebra.Group.Nat.Units
import Mathlib.Data.Nat.Init

/-! Little-endian numbers in lists of bytes, read back at an offset. -/
namespace Bytes

/-- `value` in `n` bytes, the lowest first. -/
def storeLE : ℕ → ℕ → List UInt8
  | 0, _ => []
  | n+1, value => UInt8.ofNat value :: storeLE n (value / 256)

def loadLE : List UInt8 → ℕ
  | [] => 0
  | b::bytes => b.toNat + 256 * loadLE bytes

/-- The `n` bytes at an offset as a number. -/
def loadAt (n : ℕ) (bytes : List UInt8) (offset : ℕ) : ℕ := loadLE ((bytes.drop offset).take n)

@[simp] theorem length_storeLE (n value : ℕ) : (storeLE n value).length = n := by
  induction n generalizing value with
  | zero => rfl
  | succ n ih => simp [storeLE,ih]

theorem loadLE_storeLE (n value : ℕ) : loadLE (storeLE n value) = value % 256 ^ n := by
  induction n generalizing value with
  | zero => simp [storeLE,loadLE,Nat.mod_one]
  | succ n ih =>
    have h : 256 ^ (n + 1) = 256 * 256 ^ n := Nat.pow_succ'
    rw [storeLE,loadLE,ih,UInt8.toNat_ofNat',h]
    exact Nat.mod_mul.symm

theorem loadLE_lt (bytes : List UInt8) : loadLE bytes < 256 ^ bytes.length := by
  induction bytes with
  | nil => simp [loadLE]
  | cons b bytes ih =>
    have hb : b.toNat < 256 := b.toNat_lt
    have h : 256 ^ (b::bytes).length = 256 * 256 ^ bytes.length := Nat.pow_succ'
    rw [loadLE,h]
    omega

/-- Storing what was loaded gives the bytes back. -/
theorem storeLE_loadLE (bytes : List UInt8) : storeLE bytes.length (loadLE bytes) = bytes := by
  induction bytes with
  | nil => rfl
  | cons b bytes ih =>
    have hb : b.toNat < 256 := b.toNat_lt
    have hd : (b.toNat + 256 * loadLE bytes) / 256 = loadLE bytes := by omega
    have hm : UInt8.ofNat (b.toNat + 256 * loadLE bytes) = b := by
      apply UInt8.toNat.inj
      rw [UInt8.toNat_ofNat']
      omega
    rw [List.length_cons,loadLE,storeLE,hd,hm,ih]

/-- A number that is read lies there as stored. -/
theorem drop_eq_storeLE {n offset : ℕ} {bytes : List UInt8} (h : offset + n ≤ bytes.length) :
    bytes.drop offset = storeLE n (loadAt n bytes offset) ++ bytes.drop (offset + n) := by
  have hl : ((bytes.drop offset).take n).length = n := by
    rw [List.length_take,List.length_drop]
    omega
  have hs := storeLE_loadLE ((bytes.drop offset).take n)
  rw [hl] at hs
  rw [loadAt,hs,Nat.add_comm,← List.drop_drop]
  calc bytes.drop offset
      = (bytes.drop offset).take n ++ (bytes.drop offset).drop n := (List.take_append_drop _ _).symm
    _ = _ := by rw [List.drop_drop,List.drop_drop,Nat.add_comm]

theorem loadAt_lt (n offset : ℕ) (bytes : List UInt8) : loadAt n bytes offset < 256 ^ n := by
  have h := loadLE_lt ((bytes.drop offset).take n)
  have hl : ((bytes.drop offset).take n).length ≤ n := List.length_take_le _ _
  exact Nat.lt_of_lt_of_le h (Nat.pow_le_pow_right (by decide) hl)

/-- A number at the front is read back. -/
theorem loadAt_storeLE (n value : ℕ) (rest : List UInt8) :
    loadAt n (storeLE n value ++ rest) 0 = value % 256 ^ n := by
  rw [loadAt,List.drop_zero,List.take_left' (length_storeLE n value),loadLE_storeLE]

/-- What lies before the offset does not matter. -/
theorem loadAt_append {n offset : ℕ} {front : List UInt8} (h : front.length ≤ offset)
    (rest : List UInt8) :
    loadAt n (front ++ rest) offset = loadAt n rest (offset - front.length) := by
  rw [loadAt,List.drop_append,List.drop_eq_nil_of_le h,List.nil_append,loadAt]

/-- Nor does what lies behind the number. -/
theorem loadAt_take {n offset k : ℕ} (h : offset + n ≤ k) (bytes : List UInt8) :
    loadAt n (bytes.take k) offset = loadAt n bytes offset := by
  have hn : n ≤ k - offset := by omega
  rw [loadAt,loadAt,List.drop_take,List.take_take,Nat.min_eq_left hn]

end Bytes
