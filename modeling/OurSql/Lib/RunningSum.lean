import Mathlib.Algebra.Order.BigOperators.Group.List
import Mathlib.Algebra.BigOperators.Group.List.Basic
import Mathlib.Data.List.Perm.Basic
import Mathlib.Tactic.Linarith

/-! Adding up with a limit on every partial sum, over items that may themselves fail: which
outcomes the orders of one collection of items have. -/
namespace RunningSum

variable {α ε : Type} {e : ε} {ns ms : List α} {xs ys : List (Except ε α)}

def amounts (xs : List (Except ε α)) : List α :=
  xs.filterMap fun x => match x with | .ok n => some n | .error _ => none

def failures (xs : List (Except ε α)) : List ε :=
  xs.filterMap fun x => match x with | .ok _ => none | .error e => some e

@[simp] theorem amounts_nil : amounts ([] : List (Except ε α)) = [] := rfl

@[simp] theorem amounts_ok (n : α) (xs : List (Except ε α)) :
    amounts (.ok n::xs) = n::amounts xs := rfl

@[simp] theorem amounts_error (e : ε) (xs : List (Except ε α)) :
    amounts (.error e::xs) = amounts xs := rfl

@[simp] theorem failures_nil : failures ([] : List (Except ε α)) = [] := rfl

@[simp] theorem failures_ok (n : α) (xs : List (Except ε α)) :
    failures (.ok n::xs) = failures xs := rfl

@[simp] theorem failures_error (e : ε) (xs : List (Except ε α)) :
    failures (.error e::xs) = e::failures xs := rfl

theorem amounts_perm (h : xs.Perm ys) : (amounts xs).Perm (amounts ys) := h.filterMap _

theorem failures_perm (h : xs.Perm ys) : (failures xs).Perm (failures ys) := h.filterMap _

/-- Any order of the amounts is the start of an order of the items. -/
theorem perm_split (h : ns.Perm (amounts xs)) :
    (ns.map Except.ok ++ (failures xs).map Except.error).Perm xs := by
  refine List.Perm.trans (List.Perm.append_right _ (h.map _)) ?_
  clear h
  induction xs with
  | nil => exact List.Perm.nil
  | cons x xs ih =>
    cases x with
    | ok n => exact List.Perm.cons _ ih
    | error e =>
      rw [amounts_error,failures_error,List.map_cons]
      exact List.perm_middle.trans (List.Perm.cons _ ih)

theorem mem_failures : e ∈ failures xs ↔ .error e ∈ xs := by
  induction xs with
  | nil => simp
  | cons x xs ih => cases x <;> simp [ih]

@[simp] theorem failures_map_ok (ns : List α) :
    failures (ns.map Except.ok : List (Except ε α)) = [] := by
  induction ns with
  | nil => rfl
  | cons n ns ih => exact ih

@[simp] theorem amounts_map_ok (ns : List α) :
    amounts (ns.map Except.ok : List (Except ε α)) = ns := by
  induction ns with
  | nil => rfl
  | cons n ns ih => exact congrArg (n::·) ih

variable [CommRing α] [LinearOrder α] {lo hi s t : α} {overflow : ε}

/-- The first item that fails, or the first partial sum beyond the limits, ends the sum. -/
def run (lo hi : α) (overflow : ε) (s : α) : List (Except ε α) → Except ε α
  | [] => .ok s
  | .error e::_ => .error e
  | .ok n::xs =>
    if lo ≤ s + n ∧ s + n ≤ hi then run lo hi overflow (s + n) xs else .error overflow

def InRange (lo hi n : α) : Prop := lo ≤ n ∧ n ≤ hi

/-- The largest and the smallest partial sum that any order has. -/
def highest (ns : List α) : α := (ns.map (max · 0)).sum

def lowest (ns : List α) : α := (ns.map (min · 0)).sum

/-- No order of the items leaves the limits. -/
def Bounded (lo hi : α) (ns : List α) : Prop := highest ns ≤ hi ∧ lo ≤ lowest ns

/-- All failures are one, and none of the orders overflows, or all of them do. -/
structure OrderFree (lo hi : α) (overflow : ε) (xs : List (Except ε α)) : Prop where
  failure : ∀ e ∈ failures xs, ∀ e' ∈ failures xs, e = e'
  sums : Bounded lo hi (amounts xs) ∨ (failures xs = [] ∧ ¬ InRange lo hi (amounts xs).sum) ∨
    (failures xs ≠ [] ∧ ∀ e ∈ failures xs, e = overflow)

/-! ### The bounds of the partial sums -/

theorem highest_perm (h : ns.Perm ms) : highest ns = highest ms := (h.map _).sum_eq

theorem lowest_perm (h : ns.Perm ms) : lowest ns = lowest ms := (h.map _).sum_eq

theorem bounded_perm (h : ns.Perm ms) : Bounded lo hi ns ↔ Bounded lo hi ms := by
  rw [Bounded,Bounded,highest_perm h,lowest_perm h]

theorem sum_filter_pos (ns : List α) : (ns.filter fun n => 0 < n).sum = highest ns := by
  induction ns with
  | nil => rfl
  | cons n ns ih =>
    have hcons : highest (n::ns) = max n 0 + highest ns := by simp [highest]
    rw [hcons,← ih]
    by_cases hn : 0 < n
    · simp [hn,max_eq_left hn.le]
    · simp [hn,max_eq_right (not_lt.mp hn)]

theorem sum_filter_neg (ns : List α) : (ns.filter fun n => n < 0).sum = lowest ns := by
  induction ns with
  | nil => rfl
  | cons n ns ih =>
    have hcons : lowest (n::ns) = min n 0 + lowest ns := by simp [lowest]
    rw [hcons,← ih]
    by_cases hn : n < 0
    · simp [hn,min_eq_left hn.le]
    · simp [hn,min_eq_right (not_lt.mp hn)]

theorem failure_first (lo hi s : α) (overflow : ε) (h : e ∈ failures xs) :
    ∃ ys : List (Except ε α), ys.Perm xs ∧ run lo hi overflow s ys = .error e := by
  obtain ⟨l,r,rfl⟩ := List.append_of_mem (mem_failures.mp h)
  exact ⟨.error e::(l ++ r),List.perm_middle.symm,rfl⟩

/-! ### One order -/

theorem run_ok (h : run lo hi overflow s xs = .ok t) :
    failures xs = [] ∧ t = s + (amounts xs).sum := by
  induction xs generalizing s with
  | nil =>
    cases h
    exact ⟨rfl,by simp⟩
  | cons x xs ih =>
    cases x with
    | error e => cases h
    | ok n =>
      rw [run] at h
      split_ifs at h with hn
      obtain ⟨hf,ht⟩ := ih h
      exact ⟨hf,by rw [ht,amounts_ok,List.sum_cons,add_assoc]⟩

theorem run_inRange (hs : InRange lo hi s) (h : run lo hi overflow s xs = .ok t) :
    InRange lo hi t := by
  induction xs generalizing s with
  | nil =>
    cases h
    exact hs
  | cons x xs ih =>
    cases x with
    | error e => cases h
    | ok n =>
      rw [run] at h
      split_ifs at h with hn
      exact ih hn h

/-- A sum is reached when no item fails and every partial sum keeps to the limits. -/
theorem run_eq_ok (hs : InRange lo hi s) : run lo hi overflow s xs = .ok t ↔
    failures xs = [] ∧ t = s + (amounts xs).sum ∧
      ∀ k, InRange lo hi (s + ((amounts xs).take k).sum) := by
  constructor
  · intro h
    refine ⟨(run_ok h).1,(run_ok h).2,?_⟩
    induction xs generalizing s with
    | nil => simpa using hs
    | cons x xs ih =>
      cases x with
      | error e => cases h
      | ok n =>
        rw [run] at h
        split_ifs at h with hn
        rintro (_ | k)
        · simpa using hs
        · rw [amounts_ok,List.take_succ_cons,List.sum_cons,← add_assoc]
          exact ih hn h k
  · rintro ⟨hf,rfl,h⟩
    induction xs generalizing s with
    | nil => simp [run]
    | cons x xs ih =>
      cases x with
      | error e => cases hf
      | ok n =>
        have hn : lo ≤ s + n ∧ s + n ≤ hi := by simpa [InRange] using h 1
        rw [run,if_pos hn,amounts_ok,List.sum_cons,← add_assoc]
        refine ih hn hf fun k => ?_
        have hk := h (k + 1)
        rwa [amounts_ok,List.take_succ_cons,List.sum_cons,← add_assoc] at hk

theorem run_error (h : run lo hi overflow s xs = .error e) : e = overflow ∨ e ∈ failures xs := by
  induction xs generalizing s with
  | nil => cases h
  | cons x xs ih =>
    cases x with
    | error e' =>
      cases h
      exact .inr List.mem_cons_self
    | ok n =>
      rw [run] at h
      split_ifs at h with hn
      · exact ih h
      · cases h
        exact .inl rfl

theorem run_append (ns : List α) (h : run lo hi overflow s (ns.map .ok) = .error e) :
    run lo hi overflow s (ns.map .ok ++ xs) = .error e := by
  induction ns generalizing s with
  | nil => cases h
  | cons n ns ih =>
    rw [List.map_cons,run] at h
    rw [List.map_cons,List.cons_append,run]
    split_ifs at h ⊢ with hn
    · exact ih h
    · exact h

/-- A partial sum beyond the limits ends the sum, whatever comes behind it. -/
theorem run_prefix (hs : InRange lo hi s) (h : ¬ InRange lo hi (s + ns.sum)) :
    run lo hi overflow s (ns.map .ok ++ xs) = .error overflow := by
  refine run_append ns ?_
  cases hr : run lo hi overflow s (ns.map .ok) with
  | error e =>
    rcases run_error hr with rfl | he
    · rfl
    · rw [failures_map_ok] at he
      cases he
  | ok t =>
    exfalso
    have hsum := (run_ok hr).2
    rw [amounts_map_ok] at hsum
    exact h (hsum ▸ run_inRange hs hr)

/-- Without the bounds the items of one sign, taken first, leave the limits. -/
theorem exists_overflow (overflow : ε) (h0 : InRange lo hi (0 : α))
    (h : ¬ Bounded lo hi (amounts xs)) :
    ∃ ys : List (Except ε α), ys.Perm xs ∧ run lo hi overflow 0 ys = .error overflow := by
  have hfirst (p : α → Bool) (hp : ¬ InRange lo hi ((amounts xs).filter p).sum) :
      ∃ ys : List (Except ε α), ys.Perm xs ∧ run lo hi overflow 0 ys = .error overflow := by
    refine ⟨_,perm_split (List.filter_append_perm p (amounts xs)),?_⟩
    rw [List.map_append,List.append_assoc]
    exact run_prefix h0 (by rwa [zero_add])
  rcases not_and_or.mp h with hhi | hlo
  · exact hfirst (fun n => 0 < n) (by rw [sum_filter_pos]; exact fun hr => hhi hr.2)
  · exact hfirst (fun n => n < 0) (by rw [sum_filter_neg]; exact fun hr => hlo hr.1)

variable [IsStrictOrderedRing α]

theorem highest_nonneg (ns : List α) : 0 ≤ highest ns :=
  List.sum_nonneg fun n hn => by
    obtain ⟨m,-,rfl⟩ := List.mem_map.mp hn
    exact le_max_right _ _

theorem sum_nonpos (h : ∀ n ∈ ns, n ≤ 0) : ns.sum ≤ 0 := by
  have hsum := List.sum_le_card_nsmul ns 0 h
  rwa [nsmul_zero] at hsum

theorem lowest_nonpos (ns : List α) : lowest ns ≤ 0 :=
  sum_nonpos fun n hn => by
    obtain ⟨m,-,rfl⟩ := List.mem_map.mp hn
    exact min_le_right _ _

/-- Within the bounds only an item fails. -/
theorem run_bounded (hhi : s + highest (amounts xs) ≤ hi) (hlo : lo ≤ s + lowest (amounts xs))
    (h : run lo hi overflow s xs = .error e) : e ∈ failures xs := by
  induction xs generalizing s with
  | nil => cases h
  | cons x xs ih =>
    cases x with
    | error e' =>
      cases h
      exact List.mem_cons_self
    | ok n =>
      have hhigh : highest (n::amounts xs) = max n 0 + highest (amounts xs) := by simp [highest]
      have hlow : lowest (n::amounts xs) = min n 0 + lowest (amounts xs) := by simp [lowest]
      rw [amounts_ok,hhigh] at hhi
      rw [amounts_ok,hlow] at hlo
      have hmax := le_max_left n 0
      have hmin := min_le_left n 0
      have hp := highest_nonneg (amounts xs)
      have hn := lowest_nonpos (amounts xs)
      have hin : lo ≤ s + n ∧ s + n ≤ hi := ⟨by linarith,by linarith⟩
      rw [run,if_pos hin] at h
      exact ih (by linarith) (by linarith) h

/-! ### All orders -/

/-- An item that can come next when the total is within the limits: a negative one while the sum
is positive, a positive one otherwise, and any of them when there is no such item left. -/
theorem exists_next (hne : ns ≠ []) (hs : InRange lo hi s) (hns : ∀ n ∈ ns, InRange lo hi n)
    (h : InRange lo hi (s + ns.sum)) : ∃ n ∈ ns, InRange lo hi (s + n) := by
  obtain ⟨m,rest,rfl⟩ := List.exists_cons_of_ne_nil hne
  obtain ⟨hl,hu⟩ := h
  rw [List.sum_cons] at hl hu
  rcases le_total s 0 with hs0 | hs0
  · by_cases hpos : ∃ n ∈ m::rest, 0 < n
    · obtain ⟨n,hn,hn0⟩ := hpos
      exact ⟨n,hn,by linarith [hs.1],by linarith [(hns n hn).2]⟩
    · have hall : ∀ n ∈ m::rest, n ≤ 0 := fun n hn => not_lt.mp fun h0 => hpos ⟨n,hn,h0⟩
      have hm := hall m List.mem_cons_self
      have hrest := sum_nonpos fun n hn => hall n (List.mem_cons_of_mem m hn)
      exact ⟨m,List.mem_cons_self,by linarith,by linarith [hs.2]⟩
  · by_cases hneg : ∃ n ∈ m::rest, n < 0
    · obtain ⟨n,hn,hn0⟩ := hneg
      exact ⟨n,hn,by linarith [(hns n hn).1],by linarith [hs.2]⟩
    · have hall : ∀ n ∈ m::rest, 0 ≤ n := fun n hn => not_lt.mp fun h0 => hneg ⟨n,hn,h0⟩
      have hm := hall m List.mem_cons_self
      have hrest := List.sum_nonneg fun n hn => hall n (List.mem_cons_of_mem m hn)
      exact ⟨m,List.mem_cons_self,by linarith [hs.1],by linarith⟩

/-- A total within the limits is reached in some order. -/
theorem exists_order (overflow : ε) (hs : InRange lo hi s) (hns : ∀ n ∈ ns, InRange lo hi n)
    (h : InRange lo hi (s + ns.sum)) : ∃ ms : List α, ms.Perm ns ∧
      run lo hi overflow s (ms.map .ok) = .ok (s + ns.sum) := by
  induction hn : ns.length generalizing ns s with
  | zero =>
    rw [List.length_eq_zero_iff.mp hn]
    exact ⟨[],.nil,by simp [run]⟩
  | succ k ih =>
    have hne : ns ≠ [] := List.ne_nil_of_length_eq_add_one hn
    obtain ⟨n,hmem,hin⟩ := exists_next hne hs hns h
    have hperm := List.perm_cons_erase hmem
    have hsum : s + ns.sum = s + n + (ns.erase n).sum := by
      rw [hperm.sum_eq,List.sum_cons,add_assoc]
    have hlen : (ns.erase n).length = k := by
      rw [List.length_erase_of_mem hmem,hn]
      rfl
    obtain ⟨ms,hms,hrun⟩ := ih hin (fun m hm => hns m (List.mem_of_mem_erase hm)) (hsum ▸ h) hlen
    have hin : lo ≤ s + n ∧ s + n ≤ hi := hin
    refine ⟨n::ms,(List.Perm.cons n hms).trans hperm.symm,?_⟩
    rw [List.map_cons,run,if_pos hin,hrun,← hsum]

section

variable {zs : List (Except ε α)} {e' : ε}

theorem OrderFree.not_both (h : OrderFree lo hi overflow xs) (h0 : InRange lo hi (0 : α))
    (hys : ys.Perm xs) (hzs : zs.Perm xs) (hr : run lo hi overflow 0 ys = .ok t)
    (hr' : run lo hi overflow 0 zs = .error e) : False := by
  obtain ⟨hf,ht⟩ := run_ok hr
  have hnil : failures xs = [] := List.perm_nil.mp (hf ▸ (failures_perm hys).symm)
  rw [zero_add,(amounts_perm hys).sum_eq] at ht
  rcases h.sums with hb | ⟨-,hout⟩ | ⟨hne,-⟩
  · obtain ⟨hhi,hlo⟩ := (bounded_perm (amounts_perm hzs)).mpr hb
    have he := run_bounded (by rwa [zero_add]) (by rwa [zero_add]) hr'
    rw [(failures_perm hzs).mem_iff,hnil] at he
    cases he
  · exact hout (ht ▸ run_inRange h0 hr)
  · exact hne hnil

theorem OrderFree.error_eq (h : OrderFree lo hi overflow xs) (hys : ys.Perm xs)
    (hzs : zs.Perm xs) (hr : run lo hi overflow 0 ys = .error e)
    (hr' : run lo hi overflow 0 zs = .error e') : e = e' := by
  -- an overflow beside the failure of an item
  have hmixed : ∀ {us : List (Except ε α)} {f : ε}, us.Perm xs → f ∈ failures xs →
      run lo hi overflow 0 us = .error overflow → f = overflow := by
    intro us f hus hf hu
    rcases h.sums with hb | ⟨hnil,-⟩ | ⟨-,hall⟩
    · obtain ⟨hhi,hlo⟩ := (bounded_perm (amounts_perm hus)).mpr hb
      have ho := run_bounded (by rwa [zero_add]) (by rwa [zero_add]) hu
      exact h.failure f hf _ ((failures_perm hus).mem_iff.mp ho)
    · rw [hnil] at hf
      cases hf
    · exact hall f hf
  rcases run_error hr with rfl | he
  · rcases run_error hr' with rfl | he'
    · rfl
    · exact (hmixed hys ((failures_perm hzs).mem_iff.mp he') hr).symm
  · have he := (failures_perm hys).mem_iff.mp he
    rcases run_error hr' with rfl | he'
    · exact hmixed hzs he hr'
    · exact h.failure e he e' ((failures_perm hzs).mem_iff.mp he')

end

/-- The exact condition under which all orders have one outcome. -/
theorem orderFree_iff (h0 : InRange lo hi (0 : α)) (hns : ∀ n ∈ amounts xs, InRange lo hi n) :
    (∀ ys zs : List (Except ε α), ys.Perm xs → zs.Perm xs →
      run lo hi overflow 0 ys = run lo hi overflow 0 zs) ↔ OrderFree lo hi overflow xs := by
  constructor
  · intro h
    constructor
    · intro e he e' he'
      obtain ⟨ys,hys,hr⟩ := failure_first lo hi 0 overflow he
      obtain ⟨zs,hzs,hr'⟩ := failure_first lo hi 0 overflow he'
      have heq := h ys zs hys hzs
      rw [hr,hr'] at heq
      exact Except.error.inj heq
    · by_cases hb : Bounded lo hi (amounts xs)
      · exact .inl hb
      obtain ⟨zs,hzs,hover⟩ := exists_overflow overflow h0 hb
      refine .inr ?_
      by_cases hf : failures xs = []
      · refine .inl ⟨hf,fun hin => ?_⟩
        obtain ⟨ms,hms,hrun⟩ := exists_order overflow h0 hns (by rwa [zero_add])
        have hperm := perm_split hms
        rw [hf,List.map_nil,List.append_nil] at hperm
        have heq := h _ zs hperm hzs
        rw [hrun,hover] at heq
        cases heq
      · refine .inr ⟨hf,fun e he => ?_⟩
        obtain ⟨ys,hys,hr⟩ := failure_first lo hi 0 overflow he
        have heq := h ys zs hys hzs
        rw [hr,hover] at heq
        exact Except.error.inj heq
  · intro h ys zs hys hzs
    cases hr : run lo hi overflow 0 ys with
    | ok t =>
      cases hr' : run lo hi overflow 0 zs with
      | ok t' =>
        have ht := (run_ok hr).2
        have ht' := (run_ok hr').2
        rw [(amounts_perm hys).sum_eq] at ht
        rw [(amounts_perm hzs).sum_eq] at ht'
        rw [ht,ht']
      | error e' => exact (h.not_both h0 hys hzs hr hr').elim
    | error e =>
      cases hr' : run lo hi overflow 0 zs with
      | ok t' => exact (h.not_both h0 hzs hys hr' hr).elim
      | error e' => rw [h.error_eq hys hzs hr hr']

end RunningSum
