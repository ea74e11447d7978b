import Mathlib.Data.List.Nodup
import Mathlib.Data.List.Dedup

/-! Singly linked chains of identifiers: a head, a link of each node and a value
that ends the chain. -/
namespace Chain

variable {ι : Type*}

/-- Following `next` from `head` visits the listed nodes in order and ends at `nil`. -/
def IsChain (next : ι → ι) (nil : ι) : ι → List ι → Prop
  | head, [] => head = nil
  | head, x::xs => head = x ∧ x ≠ nil ∧ IsChain next nil (next x) xs

variable {next next' : ι → ι} {nil head x y : ι} {xs ys : List ι}

theorem IsChain.ne_nil (h : IsChain next nil head xs) (hx : x ∈ xs) : x ≠ nil := by
  induction xs generalizing head with
  | nil => cases hx
  | cons y xs ih =>
    rcases List.mem_cons.mp hx with rfl | hx
    · exact h.2.1
    · exact ih h.2.2 hx

/-- A chain is determined by its head. -/
theorem IsChain.unique (h : IsChain next nil head xs) (h' : IsChain next nil head ys) :
    xs = ys := by
  induction xs generalizing head ys with
  | nil =>
    cases ys with
    | nil => rfl
    | cons y ys => exact absurd (h'.1.symm.trans h) h'.2.1
  | cons x xs ih =>
    cases ys with
    | nil => exact absurd (h.1.symm.trans h') h.2.1
    | cons y ys =>
      obtain ⟨rfl,-,hx⟩ := h
      obtain ⟨rfl,-,hy⟩ := h'
      rw [ih hx hy]

theorem IsChain.of_append (h : IsChain next nil head (xs ++ y :: ys)) :
    IsChain next nil y (y :: ys) := by
  induction xs generalizing head with
  | nil => exact ⟨rfl,h.2⟩
  | cons x xs ih => exact ih h.2.2

/-- No node occurs twice: from its two places the chain would go on alike. -/
theorem IsChain.nodup (h : IsChain next nil head xs) : xs.Nodup := by
  induction xs generalizing head with
  | nil => exact List.nodup_nil
  | cons x xs ih =>
    refine List.nodup_cons.mpr ⟨fun hx => ?_,ih h.2.2⟩
    obtain ⟨ys,zs,rfl⟩ := List.append_of_mem hx
    have hfirst : IsChain next nil x (x :: (ys ++ x :: zs)) := ⟨rfl,h.2⟩
    have hsecond : IsChain next nil x (x :: zs) := h.2.2.of_append
    have hlen := congrArg List.length (hfirst.unique hsecond)
    simp only [List.length_cons,List.length_append] at hlen
    omega

/-- A node behind the first one is not the head. -/
theorem IsChain.head_ne (h : IsChain next nil head (xs ++ y :: ys)) (hx : xs ≠ []) :
    head ≠ y := by
  obtain ⟨x,xs,rfl⟩ := List.exists_cons_of_ne_nil hx
  have hnot := (List.nodup_cons.mp h.nodup).1
  rw [h.1]
  rintro rfl
  exact hnot (List.mem_append_right xs List.mem_cons_self)

/-- Only the links of the nodes themselves matter. -/
theorem IsChain.congr (h : IsChain next nil head xs) (hn : ∀ x ∈ xs, next x = next' x) :
    IsChain next' nil head xs := by
  induction xs generalizing head with
  | nil => exact h
  | cons x xs ih =>
    refine ⟨h.1,h.2.1,?_⟩
    rw [← hn x (by simp)]
    exact ih h.2.2 fun y hy => hn y (by simp [hy])

theorem isChain_congr (hn : ∀ x ∈ xs, next x = next' x) :
    IsChain next nil head xs ↔ IsChain next' nil head xs :=
  ⟨fun h => h.congr hn,fun h => h.congr fun x hx => (hn x hx).symm⟩

section Update

variable [DecidableEq ι]

/-- A new node after the last one. -/
theorem IsChain.snoc (h : IsChain next nil head (xs ++ [x])) (hy : y ≠ nil) (hn : y ∉ xs ++ [x]) :
    IsChain (Function.update (Function.update next y nil) x y) nil head (xs ++ [x,y]) := by
  have hd := h.nodup
  induction xs generalizing head with
  | nil =>
    have hyx : y ≠ x := by simpa using hn
    refine ⟨h.1,h.2.1,?_⟩
    rw [Function.update_self]
    refine ⟨rfl,hy,?_⟩
    rw [Function.update_of_ne hyx,Function.update_self]
    rfl
  | cons z xs ih =>
    have hz := List.nodup_cons.mp hd
    have hzx : z ≠ x := by
      rintro rfl
      exact hz.1 (by simp)
    have hzy : z ≠ y := by
      rintro rfl
      exact hn (by simp)
    refine ⟨h.1,h.2.1,?_⟩
    rw [Function.update_of_ne hzx,Function.update_of_ne hzy]
    exact ih h.2.2 (fun hm => hn (List.mem_cons_of_mem _ hm)) hz.2

/-- A node is taken out by linking the one before it to the one after it. -/
theorem IsChain.unlink (h : IsChain next nil head (xs ++ x::y::ys)) :
    IsChain (Function.update next x (next y)) nil head (xs ++ x::ys) := by
  have hd := h.nodup
  induction xs generalizing head with
  | nil =>
    have hx := List.nodup_cons.mp hd
    refine ⟨h.1,h.2.1,?_⟩
    rw [Function.update_self]
    refine IsChain.congr h.2.2.2.2 fun z hz => ?_
    rw [Function.update_of_ne]
    rintro rfl
    exact hx.1 (List.mem_cons_of_mem _ hz)
  | cons z xs ih =>
    have hz := List.nodup_cons.mp hd
    have hzx : z ≠ x := by
      rintro rfl
      exact hz.1 (by simp)
    refine ⟨h.1,h.2.1,?_⟩
    rw [Function.update_of_ne hzx]
    exact ih h.2.2 hz.2

end Update

end Chain
