import Mathlib.Data.Nat.Init
import Mathlib.Data.List.GetD
import OurSql.Lib.Bytes

/-! A flat memory of bytes: runs of bytes and little-endian words, read and written at
offsets. What does not meet a write is not changed by it. -/
namespace Memory

open Bytes

abbrev Mem := ℕ → UInt8

def read (m : Mem) (offset length : ℕ) : List UInt8 :=
  (List.range length).map fun i => m (offset + i)

def write (m : Mem) (offset : ℕ) (bytes : List UInt8) : Mem := fun i =>
  if offset ≤ i ∧ i < offset + bytes.length then bytes.getD (i - offset) 0 else m i

/-- A 32-bit word. -/
def load (m : Mem) (offset : ℕ) : ℕ := loadLE (read m offset 4)

def store (m : Mem) (offset value : ℕ) : Mem := write m offset (storeLE 4 value)

variable {m m' : Mem} {a n o v : ℕ} {bytes : List UInt8}

@[simp] theorem length_read : (read m a n).length = n := by simp [read]

theorem read_congr (h : ∀ i, a ≤ i → i < a + n → m i = m' i) : read m a n = read m' a n := by
  apply List.map_congr_left
  intro i hi
  rw [List.mem_range] at hi
  exact h (a + i) (by omega) (by omega)

theorem write_outside (h : a < o ∨ o + bytes.length ≤ a) : write m o bytes a = m a := by
  rw [write,if_neg (by omega)]

theorem read_write (m : Mem) (o : ℕ) (bytes : List UInt8) :
    read (write m o bytes) o bytes.length = bytes := by
  apply List.ext_getElem (by simp)
  intro i h h'
  have hi : i < bytes.length := h'
  have hin : o ≤ o + i ∧ o + i < o + bytes.length := by omega
  simp only [read,List.getElem_map,List.getElem_range,write,if_pos hin,Nat.add_sub_cancel_left]
  exact List.getD_eq_getElem _ _ hi

theorem read_write_apart (h : a + n ≤ o ∨ o + bytes.length ≤ a) :
    read (write m o bytes) a n = read m a n := by
  apply read_congr
  intro i hi hi'
  exact write_outside (by omega)

theorem load_write_apart (h : a + 4 ≤ o ∨ o + bytes.length ≤ a) :
    load (write m o bytes) a = load m a := by
  rw [load,load,read_write_apart h]

theorem load_store (hv : v < 4294967296) : load (store m o v) o = v := by
  have h := read_write m o (storeLE 4 v)
  rw [length_storeLE] at h
  rw [load,store,h,loadLE_storeLE]
  exact Nat.mod_eq_of_lt hv

theorem load_store_apart (h : a + 4 ≤ o ∨ o + 4 ≤ a) : load (store m o v) a = load m a :=
  load_write_apart (by rwa [length_storeLE])

theorem read_store_apart (h : a + n ≤ o ∨ o + 4 ≤ a) : read (store m o v) a n = read m a n :=
  read_write_apart (by rwa [length_storeLE])

theorem store_outside (h : a < o ∨ o + 4 ≤ a) : store m o v a = m a :=
  write_outside (by rwa [length_storeLE])

theorem load_lt (m : Mem) (o : ℕ) : load m o < 4294967296 := by
  have h := loadLE_lt (read m o 4)
  rw [length_read] at h
  exact h

end Memory
