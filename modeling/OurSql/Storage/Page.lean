import OurSql.Common
import Mathlib.Tactic.IntervalCases
import Mathlib.Tactic.Ring

/-! Pages as arrays of bytes, and the little-endian page ids stored in them. -/
namespace OurSql
namespace Storage

/-- `Page::kSize`. -/
def pageSize : ℕ := 4096

abbrev Page := Fin pageSize → UInt8

def Page.zero : Page := fun _ => 0

def Page.byte (page : Page) (i : ℕ) : ℕ := if h : i < pageSize then (page ⟨i,h⟩).toNat else 0

def loadU32 (page : Page) (offset : ℕ) : ℕ :=
  page.byte offset + 256 * page.byte (offset+1) + 65536 * page.byte (offset+2) +
    16777216 * page.byte (offset+3)

def storeU32 (page : Page) (offset value : ℕ) : Page := fun i =>
  if offset ≤ i.val ∧ i.val < offset + 4 then UInt8.ofNat (value / 256 ^ (i.val - offset))
  else page i

def loadPageId (page : Page) (offset : ℕ) : PageId := loadU32 page offset

def storePageId (page : Page) (offset : ℕ) (value : PageId) : Page := storeU32 page offset value

theorem byte_lt (page : Page) (i : ℕ) : page.byte i < 256 := by
  unfold Page.byte
  split
  · exact UInt8.toNat_lt _
  · decide

theorem byte_storeU32 (page : Page) (offset value i : ℕ) (hi : i < pageSize) :
    (storeU32 page offset value).byte i =
      if offset ≤ i ∧ i < offset + 4 then value / 256 ^ (i - offset) % 256 else page.byte i := by
  unfold Page.byte storeU32
  simp only [hi,dite_true]
  split
  · simp
  · rfl

theorem loadU32_lt (page : Page) (offset : ℕ) : loadU32 page offset < 4294967296 := by
  have h0 := byte_lt page offset
  have h1 := byte_lt page (offset+1)
  have h2 := byte_lt page (offset+2)
  have h3 := byte_lt page (offset+3)
  unfold loadU32
  omega

theorem loadU32_storeU32 {page : Page} {offset value : ℕ} (ho : offset + 4 ≤ pageSize)
    (hv : value < 4294967296) : loadU32 (storeU32 page offset value) offset = value := by
  have hb : ∀ k, k < 4 →
      (storeU32 page offset value).byte (offset+k) = value / 256 ^ k % 256 := by
    intro k hk
    rw [byte_storeU32 page offset value (offset+k) (by omega),if_pos ⟨by omega,by omega⟩]
    congr 3
    omega
  have h0 := hb 0 (by omega)
  have h1 := hb 1 (by omega)
  have h2 := hb 2 (by omega)
  have h3 := hb 3 (by omega)
  simp only [Nat.add_zero] at h0
  unfold loadU32
  rw [h0,h1,h2,h3]
  norm_num
  omega

/-- A store leaves the fields beside it alone. -/
theorem loadU32_storeU32_of_disjoint {page : Page} {offset other value : ℕ}
    (ho : other + 4 ≤ pageSize) (hd : other + 4 ≤ offset ∨ offset + 4 ≤ other) :
    loadU32 (storeU32 page offset value) other = loadU32 page other := by
  have hb : ∀ k, k < 4 → (storeU32 page offset value).byte (other+k) = page.byte (other+k) := by
    intro k hk
    rw [byte_storeU32 page offset value (other+k) (by omega),if_neg (by omega)]
  have h0 := hb 0 (by omega)
  simp only [Nat.add_zero] at h0
  unfold loadU32
  rw [h0,hb 1 (by omega),hb 2 (by omega),hb 3 (by omega)]

theorem loadPageId_storePageId {page : Page} {offset : ℕ} {value : PageId}
    (ho : offset + 4 ≤ pageSize) (hv : value ≤ invalidPageId) :
    loadPageId (storePageId page offset value) offset = value := by
  have hv' : value < 4294967296 := Nat.lt_of_le_of_lt hv (by decide)
  exact loadU32_storeU32 ho hv'

end Storage
end OurSql
