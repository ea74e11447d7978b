import Mathlib.Data.List.Nodup
import Mathlib.Data.List.Perm.Basic
import Mathlib.Logic.Function.Basic

/-! Partial maps as heaps: a list of cells, in any order, that a map has at
different addresses, with the rules for reading, writing, adding and dropping one
cell while the others stay. -/
namespace Heap

variable {ι α : Type*}

/-- The map has the listed cells, no address twice. -/
structure Holds (h : ι → Option α) (cells : List (ι × α)) : Prop where
  nodup : (cells.map Prod.fst).Nodup
  get : ∀ c ∈ cells, h c.1 = some c.2

variable {h h' : ι → Option α} {xs ys zs : List (ι × α)} {i j : ι} {a b : α}

@[simp] theorem holds_nil : Holds h ([] : List (ι × α)) := ⟨List.nodup_nil,by simp⟩

theorem Holds.perm (hh : Holds h xs) (hp : xs.Perm ys) : Holds h ys :=
  ⟨(hp.map Prod.fst).nodup_iff.mp hh.nodup,fun c hc => hh.get c (hp.mem_iff.mpr hc)⟩

theorem holds_cons : Holds h ((i,a)::xs) ↔ h i = some a ∧ i ∉ xs.map Prod.fst ∧ Holds h xs := by
  constructor
  · intro hh
    have hn := List.nodup_cons.mp hh.nodup
    exact ⟨hh.get (i,a) (by simp),hn.1,hn.2,fun c hc => hh.get c (by simp [hc])⟩
  · rintro ⟨hi,hn,hh⟩
    refine ⟨List.nodup_cons.mpr ⟨hn,hh.nodup⟩,fun c hc => ?_⟩
    rcases List.mem_cons.mp hc with rfl | hc
    · exact hi
    · exact hh.get c hc

theorem Holds.sublist (hh : Holds h ys) (hs : xs.Sublist ys) : Holds h xs :=
  ⟨hh.nodup.sublist (hs.map Prod.fst),fun c hc => hh.get c (hs.subset hc)⟩

theorem Holds.left (hh : Holds h (xs ++ ys)) : Holds h xs := hh.sublist (by simp)

theorem Holds.right (hh : Holds h (xs ++ ys)) : Holds h ys := hh.sublist (by simp)

theorem Holds.head (hh : Holds h ((i,a)::xs)) : h i = some a := (holds_cons.mp hh).1

theorem Holds.tail (hh : Holds h ((i,a)::xs)) : Holds h xs := (holds_cons.mp hh).2.2

theorem Holds.ne (hh : Holds h ((i,a)::xs)) (hj : (j,b) ∈ xs) : i ≠ j := by
  rintro rfl
  exact (holds_cons.mp hh).2.1 (List.mem_map_of_mem hj)

theorem Holds.eq_of_mem (hh : Holds h xs) (ha : (i,a) ∈ xs) (hb : (i,b) ∈ xs) : a = b :=
  Option.some.inj ((hh.get _ ha).symm.trans (hh.get _ hb))

section Update

variable [DecidableEq ι]

/-- Writing a cell leaves the others as they are. -/
theorem Holds.put (hh : Holds h ((i,a)::xs)) : Holds (Function.update h i (some b)) ((i,b)::xs) := by
  obtain ⟨-,hn,hr⟩ := holds_cons.mp hh
  refine holds_cons.mpr ⟨Function.update_self ..,hn,hr.nodup,fun c hc => ?_⟩
  have hne : c.1 ≠ i := fun he => hn (List.mem_map.mpr ⟨c,hc,he⟩)
  rw [Function.update_of_ne hne]
  exact hr.get c hc

theorem Holds.alloc (hh : Holds h xs) (hi : h i = none) :
    Holds (Function.update h i (some b)) ((i,b)::xs) := by
  have hn : ∀ c ∈ xs, c.1 ≠ i := fun c hc he => by simp [← he,hh.get c hc] at hi
  refine holds_cons.mpr ⟨Function.update_self ..,fun hm => ?_,hh.nodup,fun c hc => ?_⟩
  · obtain ⟨c,hc,he⟩ := List.mem_map.mp hm
    exact hn c hc he
  · rw [Function.update_of_ne (hn c hc)]
    exact hh.get c hc

theorem Holds.drop (hh : Holds h ((i,a)::xs)) : Holds (Function.update h i none) xs := by
  obtain ⟨-,hn,hr⟩ := holds_cons.mp hh
  refine ⟨hr.nodup,fun c hc => ?_⟩
  have hne : c.1 ≠ i := fun he => hn (List.mem_map.mpr ⟨c,hc,he⟩)
  rw [Function.update_of_ne hne]
  exact hr.get c hc

end Update

end Heap
