import Mathlib.Order.Basic
import Mathlib.Data.List.Basic

/-! Lists of keyed items between fences: the key of an item is the bound between it
and the item before it, and the key of the first item is not used. -/
namespace Fence

variable {κ α β : Type*}

/-- The upper bound of what stands before a list, when the list itself ends at `hi`. -/
def upper (hi : κ) : List (κ × α) → κ
  | [] => hi
  | (k,_)::_ => k

/-- The lower bound of what stands behind a list and has key `k`. -/
def lower (lo k : κ) : List (κ × α) → κ
  | [] => lo
  | _::_ => k

/-- Each item lies between its own key (`lo` for the first) and the next one. -/
def Fenced (P : α → κ → κ → Prop) (hi : κ) : κ → List (κ × α) → Prop
  | _, [] => True
  | lo, (_,x)::rest => P x lo (upper hi rest) ∧ Fenced P hi (upper hi rest) rest

variable {P Q : α → κ → κ → Prop} {lo lo' hi hi' k k' : κ} {x : α} {xs ys : List (κ × α)}

@[simp] theorem upper_nil : upper hi ([] : List (κ × α)) = hi := rfl

@[simp] theorem upper_cons : upper hi ((k,x)::xs) = k := rfl

@[simp] theorem lower_nil : lower lo k ([] : List (κ × α)) = lo := rfl

@[simp] theorem lower_cons : lower lo k ((k',x)::xs) = k := rfl

theorem upper_append : upper hi (xs ++ ys) = upper (upper hi ys) xs := by
  cases xs <;> rfl

theorem lower_of_ne_nil (h : xs ≠ []) : lower lo k xs = k := by
  cases xs with
  | nil => exact absurd rfl h
  | cons x xs => rfl

@[simp] theorem fenced_nil : Fenced P hi lo [] := trivial

@[simp] theorem fenced_cons : Fenced P hi lo ((k,x)::xs) ↔
    P x lo (upper hi xs) ∧ Fenced P hi (upper hi xs) xs := Iff.rfl

/-- A list is fenced when both its parts are, with the key between them as their bound. -/
theorem fenced_append : Fenced P hi lo (xs ++ (k,x)::ys) ↔
    Fenced P k lo xs ∧ Fenced P hi (lower lo k xs) ((k,x)::ys) := by
  induction xs generalizing lo with
  | nil => simp
  | cons y xs ih =>
    obtain ⟨_,y⟩ := y
    have hl : lower (upper k xs) k xs = k := by cases xs <;> rfl
    simp only [List.cons_append,fenced_cons,upper_append,upper_cons,ih,hl,lower_cons,and_assoc]

theorem Fenced.imp (h : Fenced P hi lo xs) (hi' : ∀ y lo hi, P y lo hi → Q y lo hi) :
    Fenced Q hi lo xs := by
  induction xs generalizing lo with
  | nil => trivial
  | cons y xs ih => exact ⟨hi' _ _ _ h.1,ih h.2⟩

theorem Fenced.exists_of_mem (h : Fenced P hi lo xs) (hx : (k,x) ∈ xs) :
    ∃ lo' hi', P x lo' hi' := by
  obtain ⟨ys,zs,rfl⟩ := List.append_of_mem hx
  exact ⟨_,_,(fenced_append.mp h).2.1⟩

section Order

variable [PartialOrder κ]

theorem Fenced.widen (h : Fenced P hi lo xs)
    (hw : ∀ y lo hi lo' hi', P y lo hi → lo' ≤ lo → hi ≤ hi' → P y lo' hi')
    (hlo : lo' ≤ lo) (hhi : hi ≤ hi') : Fenced P hi' lo' xs := by
  induction xs generalizing lo lo' with
  | nil => trivial
  | cons y xs ih =>
    have hu : upper hi xs ≤ upper hi' xs := by
      cases xs with
      | nil => exact hhi
      | cons z zs => exact le_rfl
    cases xs with
    | nil => exact ⟨hw _ _ _ _ _ h.1 hlo hu,trivial⟩
    | cons z zs => exact ⟨hw _ _ _ _ _ h.1 hlo hu,ih h.2 le_rfl⟩

/-- When every item has its bounds in order, the bounds of the whole list are. -/
theorem Fenced.le (h : Fenced P hi lo xs) (hP : ∀ y lo hi, P y lo hi → lo ≤ hi)
    (hx : xs ≠ []) : lo ≤ hi := by
  induction xs generalizing lo with
  | nil => exact absurd rfl hx
  | cons y xs ih =>
    have hy := hP _ _ _ h.1
    cases xs with
    | nil => exact hy
    | cons z zs => exact le_trans hy (ih h.2 (by simp))

/-- A key inside the list lies between the outer bounds. -/
theorem Fenced.lower_between (h : Fenced P hi lo (xs ++ (k,x)::ys))
    (hP : ∀ y lo hi, P y lo hi → lo ≤ hi) : lo ≤ lower lo k xs ∧ lower lo k xs ≤ hi := by
  obtain ⟨hx,hy⟩ := fenced_append.mp h
  refine ⟨?_,hy.le hP (by simp)⟩
  cases xs with
  | nil => exact le_rfl
  | cons y xs => exact hx.le hP (by simp)

theorem Fenced.upper_between (h : Fenced P hi lo (xs ++ (k,x)::ys))
    (hP : ∀ y lo hi, P y lo hi → lo ≤ hi) : lo ≤ upper hi ys ∧ upper hi ys ≤ hi := by
  have hy := (fenced_append.mp h).2
  refine ⟨le_trans (h.lower_between hP).1 (hP _ _ _ hy.1),?_⟩
  cases ys with
  | nil => exact le_rfl
  | cons y ys => exact hy.2.le hP (by simp)

/-- The keys that are used increase. -/
theorem Fenced.pairwise_tail (h : Fenced P hi lo xs) (hP : ∀ y lo hi, P y lo hi → lo ≤ hi) :
    xs.tail.Pairwise (·.1 ≤ ·.1) := by
  induction xs generalizing lo with
  | nil => exact List.Pairwise.nil
  | cons y xs ih =>
    cases xs with
    | nil => exact List.Pairwise.nil
    | cons z zs =>
      refine List.pairwise_cons.mpr ⟨fun w hw => ?_,ih h.2⟩
      obtain ⟨as,bs,rfl⟩ := List.append_of_mem hw
      have hz : Fenced P hi z.1 ((z::as) ++ (w.1,w.2)::bs) := h.2
      exact (fenced_append.mp hz).1.le hP (by simp)

end Order

end Fence
