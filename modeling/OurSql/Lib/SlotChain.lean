import Mathlib.Algebra.BigOperators.Group.List.Basic
import Mathlib.Algebra.Group.Nat.Units
import Mathlib.Algebra.Order.BigOperators.Group.List
import Mathlib.Algebra.Order.Ring.Nat
import Mathlib.Data.Nat.Notation

/-! Chains of slotted pages as far as space goes: records of different sizes in the
slots of a page, a deleted slot kept for the next record, a new page at the end
of the chain when no page has room. -/
namespace SlotChain

variable {α ε : Type*}

/-- The slot directory of a page; a deleted slot stays in it. -/
abbrev Page (α : Type*) := List (Option α)

/-- What a page and its slots take, and what a record takes beside its slot. -/
structure Geometry (α : Type*) where
  capacity : ℕ
  header : ℕ
  slot : ℕ
  size : α → ℕ

namespace Page

def records (p : Page α) : List α := p.filterMap id

/-- Header, directory and live record bytes. -/
def used (g : Geometry α) (p : Page α) : ℕ :=
  g.header + g.slot * p.length + (p.records.map g.size).sum

/-- Fill the first deleted slot, or a new one at the end. -/
def place : Page α → α → Page α
  | [], r => [some r]
  | none::p, r => some r::p
  | some x::p, r => some x::place p r

/-- `none` when the free bytes of the page, all together, are too few. -/
def insertRecord (g : Geometry α) (p : Page α) (r : α) : Option (Page α) :=
  if g.capacity < p.used g + g.size r + (if p.any Option.isNone then 0 else g.slot) then none
  else some (p.place r)

def deleteRecord (p : Page α) (slot : ℕ) : Page α := p.set slot none

/-- The first slot with a wanted record; looking at one may fail. -/
def find (wanted : α → Except ε Bool) : Page α → Except ε (Option ℕ)
  | [] => .ok none
  | none::p => (find wanted p).map fun slot => slot.map fun k => k + 1
  | some r::p =>
    match wanted r with
    | .error e => .error e
    | .ok true => .ok (some 0)
    | .ok false => (find wanted p).map fun slot => slot.map fun k => k + 1

end Page

def recordsOf (pages : List (Page α)) : List α := pages.flatMap Page.records

/-- The first page of a chain with a wanted record, and its slot. -/
def findRecord (wanted : α → Except ε Bool) : List (Page α) → Except ε (Option (ℕ × ℕ))
  | [] => .ok none
  | p::ps =>
    match p.find wanted with
    | .error e => .error e
    | .ok (some slot) => .ok (some (0,slot))
    | .ok none => (findRecord wanted ps).map fun at_ => at_.map fun k => (k.1 + 1,k.2)

/-- Insert into the first page with room, or into a new one. -/
def append (g : Geometry α) (r : α) : List (Page α) → List (Page α)
  | [] => [[some r]]
  | p::ps =>
    match p.insertRecord g r with
    | some p' => p'::ps
    | none => p::append g r ps

def deleteAt (pages : List (Page α)) (k slot : ℕ) : List (Page α) :=
  pages.modify k fun p => p.deleteRecord slot

/-- Every page holds no more than it can. -/
def Fits (g : Geometry α) (pages : List (Page α)) : Prop := ∀ p ∈ pages, p.used g ≤ g.capacity

/-! ### One page -/

variable {g : Geometry α} {p q : Page α} {pages : List (Page α)} {r r' : α} {slot k : ℕ}

@[simp] theorem records_some (r : α) (p : Page α) :
    Page.records (some r::p) = r::Page.records p := rfl

@[simp] theorem records_none (p : Page α) : Page.records (none::p) = Page.records p := rfl

theorem place_records (p : Page α) (r : α) : (p.place r).records.Perm (r::p.records) := by
  induction p with
  | nil => exact List.Perm.refl _
  | cons o p ih =>
    cases o with
    | none => exact List.Perm.refl _
    | some x => exact (ih.cons x).trans (List.Perm.swap r x _)

theorem place_length (p : Page α) (r : α) :
    (p.place r).length = p.length + if p.any Option.isNone then 0 else 1 := by
  induction p with
  | nil => rfl
  | cons o p ih =>
    cases o with
    | none => simp [Page.place]
    | some x =>
      simp only [Page.place,List.length_cons,ih,List.any_cons,Option.isNone_some,Bool.false_or]
      omega

theorem place_used (g : Geometry α) (p : Page α) (r : α) : (p.place r).used g =
    p.used g + g.size r + if p.any Option.isNone then 0 else g.slot := by
  have hsum := ((place_records p r).map g.size).sum_nat
  simp only [List.map_cons,List.sum_cons] at hsum
  simp only [Page.used,hsum,place_length,Nat.mul_add]
  split <;> omega

theorem insertRecord_some (h : p.insertRecord g r = some q) :
    q.records.Perm (r::p.records) ∧ q.used g ≤ g.capacity := by
  rw [Page.insertRecord] at h
  by_cases hfit : g.capacity < p.used g + g.size r + if p.any Option.isNone then 0 else g.slot
  · simp [if_pos hfit] at h
  · rw [if_neg hfit] at h
    obtain rfl := Option.some.inj h
    exact ⟨place_records p r,by rw [place_used]; omega⟩

theorem deleteRecord_records (h : p[slot]? = some (some r)) :
    p.records.Perm (r::(p.deleteRecord slot).records) := by
  induction p generalizing slot with
  | nil => simp at h
  | cons o p ih =>
    cases slot with
    | zero =>
      have ho : o = some r := by simpa using h
      subst ho
      exact List.Perm.refl _
    | succ slot =>
      have hp : (Page.records p).Perm (r::(Page.deleteRecord p slot).records) :=
        ih (by simpa using h)
      cases o with
      | none => exact hp
      | some x => exact (hp.cons x).trans (List.Perm.swap r x _)

theorem deleteRecord_used (g : Geometry α) (h : p[slot]? = some (some r)) :
    p.used g = (p.deleteRecord slot).used g + g.size r := by
  have hsum := ((deleteRecord_records h).map g.size).sum_nat
  simp only [List.map_cons,List.sum_cons] at hsum
  have hlen : (p.deleteRecord slot).length = p.length := List.length_set
  simp only [Page.used,hsum,hlen]
  omega

theorem deleteRecord_any (h : p[slot]? = some (some r)) :
    (p.deleteRecord slot).any Option.isNone = true := by
  have hlt : slot < p.length := (List.getElem?_eq_some_iff.mp h).1
  have hmem : none ∈ p.deleteRecord slot :=
    List.mem_iff_getElem?.mpr ⟨slot,by simp [Page.deleteRecord,hlt]⟩
  exact List.any_eq_true.mpr ⟨none,hmem,rfl⟩

/-- A record no larger than the one it replaces fits where that one was. -/
theorem rewrite_fits (h : p[slot]? = some (some r)) (hs : g.size r' ≤ g.size r)
    (hu : p.used g ≤ g.capacity) :
    (p.deleteRecord slot).insertRecord g r' = some ((p.deleteRecord slot).place r') := by
  have hused := deleteRecord_used g h
  rw [Page.insertRecord,if_pos (deleteRecord_any h),if_neg]
  omega

theorem find_some {wanted : α → Except ε Bool} (h : p.find wanted = .ok (some slot)) :
    ∃ r, p[slot]? = some (some r) ∧ wanted r = .ok true := by
  induction p generalizing slot with
  | nil => simp [Page.find] at h
  | cons o p ih =>
    have hnext : ∀ {x : Except ε (Option ℕ)},
        (x.map fun slot => slot.map fun k => k + 1) = .ok (some slot) →
          ∃ k, slot = k + 1 ∧ x = .ok (some k) := by
      intro x hx
      rcases x with e | _ | k
      · simp [Except.map] at hx
      · simp [Except.map] at hx
      · exact ⟨k,by simpa [Except.map,eq_comm] using hx,rfl⟩
    cases o with
    | none =>
      obtain ⟨k,rfl,hk⟩ := hnext h
      obtain ⟨r,hr,hw⟩ := ih hk
      exact ⟨r,by simpa using hr,hw⟩
    | some x =>
      simp only [Page.find] at h
      split at h
      · simp at h
      · next hx =>
        obtain rfl : 0 = slot := by simpa using h
        exact ⟨x,rfl,hx⟩
      · obtain ⟨k,rfl,hk⟩ := hnext h
        obtain ⟨r,hr,hw⟩ := ih hk
        exact ⟨r,by simpa using hr,hw⟩

/-- When looking never fails, a search that finds nothing has seen every record. -/
theorem find_total {wanted : α → Except ε Bool}
    (h : ∀ r ∈ p.records, ∃ b, wanted r = .ok b) :
    (∃ slot, p.find wanted = .ok (some slot)) ∨
      p.find wanted = .ok none ∧ ∀ r ∈ p.records, wanted r = .ok false := by
  induction p with
  | nil => exact .inr ⟨rfl,by simp [Page.records]⟩
  | cons o p ih =>
    cases o with
    | none =>
      rcases ih h with ⟨slot,hs⟩ | ⟨hn,hall⟩
      · exact .inl ⟨slot + 1,by simp [Page.find,hs,Except.map]⟩
      · exact .inr ⟨by simp [Page.find,hn,Except.map],hall⟩
    | some x =>
      obtain ⟨b,hb⟩ := h x (by simp)
      cases b with
      | true => exact .inl ⟨0,by simp [Page.find,hb]⟩
      | false =>
        rcases ih fun r hr => h r (by simp [hr]) with ⟨slot,hs⟩ | ⟨hn,hall⟩
        · exact .inl ⟨slot + 1,by simp [Page.find,hb,hs,Except.map]⟩
        · refine .inr ⟨by simp [Page.find,hb,hn,Except.map],?_⟩
          intro r hr
          rcases List.mem_cons.mp hr with rfl | hr
          · exact hb
          · exact hall r hr

/-! ### Chains -/

theorem recordsOf_cons (p : Page α) (ps : List (Page α)) :
    recordsOf (p::ps) = p.records ++ recordsOf ps := List.flatMap_cons

theorem findRecord_some {wanted : α → Except ε Bool}
    (h : findRecord wanted pages = .ok (some (k,slot))) :
    ∃ p r, pages[k]? = some p ∧ p[slot]? = some (some r) ∧ wanted r = .ok true := by
  induction pages generalizing k with
  | nil => simp [findRecord] at h
  | cons p ps ih =>
    simp only [findRecord] at h
    split at h
    · simp at h
    · next s hs =>
      obtain ⟨rfl,rfl⟩ : 0 = k ∧ s = slot := by simpa using h
      obtain ⟨r,hr,hw⟩ := find_some hs
      exact ⟨p,r,rfl,hr,hw⟩
    · rcases hf : findRecord wanted ps with e | _ | at_
      · simp [hf,Except.map] at h
      · simp [hf,Except.map] at h
      · obtain ⟨rfl,rfl⟩ : at_.1 + 1 = k ∧ at_.2 = slot := by simpa [hf,Except.map] using h
        obtain ⟨q,r,hq,hr,hw⟩ := ih hf
        exact ⟨q,r,by simpa using hq,hr,hw⟩

theorem findRecord_total {wanted : α → Except ε Bool}
    (h : ∀ r ∈ recordsOf pages, ∃ b, wanted r = .ok b) :
    (∃ at_, findRecord wanted pages = .ok (some at_)) ∨
      findRecord wanted pages = .ok none ∧ ∀ r ∈ recordsOf pages, wanted r = .ok false := by
  induction pages with
  | nil => exact .inr ⟨rfl,by simp [recordsOf]⟩
  | cons p ps ih =>
    rw [recordsOf_cons] at h ⊢
    rcases find_total fun r hr => h r (List.mem_append_left _ hr) with ⟨slot,hs⟩ | ⟨hn,hall⟩
    · exact .inl ⟨(0,slot),by simp [findRecord,hs]⟩
    · rcases ih fun r hr => h r (List.mem_append_right _ hr) with ⟨at_,hs⟩ | ⟨hn',hall'⟩
      · exact .inl ⟨(at_.1 + 1,at_.2),by simp [findRecord,hn,hs,Except.map]⟩
      · refine .inr ⟨by simp [findRecord,hn,hn',Except.map],?_⟩
        intro r hr
        rcases List.mem_append.mp hr with hr | hr
        · exact hall r hr
        · exact hall' r hr

/-- Replacing one page trades its records and leaves all others. -/
theorem recordsOf_set (hk : pages[k]? = some p) :
    ∃ others, ∀ q, (recordsOf (pages.set k q)).Perm (q.records ++ others) := by
  induction pages generalizing k with
  | nil => simp at hk
  | cons x ps ih =>
    cases k with
    | zero => exact ⟨recordsOf ps,fun q => List.Perm.refl _⟩
    | succ k =>
      obtain ⟨others,ho⟩ := ih (by simpa using hk)
      refine ⟨x.records ++ others,fun q => ?_⟩
      rw [List.set_cons_succ,recordsOf_cons]
      refine ((ho q).append_left x.records).trans ?_
      rw [← List.append_assoc,← List.append_assoc]
      exact (List.perm_append_comm).append_right others

theorem set_self (hk : pages[k]? = some p) : pages.set k p = pages := by
  obtain ⟨hlt,rfl⟩ := List.getElem?_eq_some_iff.mp hk
  exact List.set_getElem_self hlt

theorem Fits.set (h : Fits g pages) (hq : q.used g ≤ g.capacity) : Fits g (pages.set k q) := by
  intro p hp
  rcases List.mem_or_eq_of_mem_set hp with hp | rfl
  · exact h p hp
  · exact hq

/-- What fits in a chain fits in an empty page. -/
theorem Fits.size_le (h : Fits g pages) (hr : r ∈ recordsOf pages) :
    g.header + g.slot + g.size r ≤ g.capacity := by
  obtain ⟨p,hp,hr⟩ := List.mem_flatMap.mp hr
  have hused := h p hp
  have hlen : 1 ≤ p.length := by
    cases p with
    | nil => simp [Page.records] at hr
    | cons o p => simp
  have hslot := Nat.mul_le_mul_left g.slot hlen
  have hmem : g.size r ∈ p.records.map g.size := List.mem_map_of_mem hr
  have hsize := List.single_le_sum (fun x _ => Nat.zero_le x) _ hmem
  simp only [Page.used] at hused
  omega

theorem append_records (g : Geometry α) (r : α) (pages : List (Page α)) :
    (recordsOf (append g r pages)).Perm (r::recordsOf pages) := by
  induction pages with
  | nil => exact List.Perm.refl _
  | cons p ps ih =>
    simp only [append]
    split
    · next p' hp =>
      rw [recordsOf_cons,recordsOf_cons]
      exact (insertRecord_some hp).1.append_right _
    · rw [recordsOf_cons,recordsOf_cons]
      exact (ih.append_left p.records).trans List.perm_middle

/-- A record that fits an empty page keeps the chain within its pages. -/
theorem Fits.append (hr : g.header + g.slot + g.size r ≤ g.capacity) (h : Fits g pages) :
    Fits g (append g r pages) := by
  induction pages with
  | nil =>
    intro p hp
    rw [List.mem_singleton.mp hp]
    simpa [Page.used,Page.records] using hr
  | cons p ps ih =>
    intro q hq
    have hrest : Fits g ps := fun q hq => h q (List.mem_cons_of_mem _ hq)
    simp only [SlotChain.append] at hq
    split at hq
    · next p' hp =>
      rcases List.mem_cons.mp hq with rfl | hq
      · exact (insertRecord_some hp).2
      · exact hrest q hq
    · rcases List.mem_cons.mp hq with rfl | hq
      · exact h q List.mem_cons_self
      · exact ih hrest q hq

/-- Deleting a found record leaves the others, on pages that still fit. -/
theorem deleteAt_records {wanted : α → Except ε Bool}
    (h : findRecord wanted pages = .ok (some (k,slot))) (hf : Fits g pages) :
    ∃ r, wanted r = .ok true ∧ (recordsOf pages).Perm (r::recordsOf (deleteAt pages k slot)) ∧
      Fits g (deleteAt pages k slot) := by
  obtain ⟨p,r,hp,hr,hw⟩ := findRecord_some h
  obtain ⟨others,hothers⟩ := recordsOf_set hp
  have hdel : deleteAt pages k slot = pages.set k (p.deleteRecord slot) := by
    rw [deleteAt,List.modify_eq_set_getElem?,hp]
    rfl
  have hself := hothers p
  rw [set_self hp] at hself
  refine ⟨r,hw,?_,?_⟩
  · rw [hdel]
    have hdrop := (deleteRecord_records hr).append_right others
    exact (hself.trans hdrop).trans ((hothers (p.deleteRecord slot)).symm.cons r)
  · rw [hdel]
    have hused := deleteRecord_used g hr
    have hpu := hf p (List.mem_of_getElem? hp)
    exact hf.set (by omega)

/-- Rewriting a found record in place by one no larger never runs out of space. -/
theorem rewrite_records {wanted : α → Except ε Bool}
    (h : findRecord wanted pages = .ok (some (k,slot))) (hf : Fits g pages) :
    ∃ p r, pages[k]? = some p ∧ wanted r = .ok true ∧ r ∈ recordsOf pages ∧
      ∀ r', g.size r' ≤ g.size r → ∃ q rest, (p.deleteRecord slot).insertRecord g r' = some q ∧
        (recordsOf pages).Perm (r::rest) ∧ (recordsOf (pages.set k q)).Perm (r'::rest) ∧
        Fits g (pages.set k q) := by
  obtain ⟨p,r,hp,hr,hw⟩ := findRecord_some h
  obtain ⟨others,hothers⟩ := recordsOf_set hp
  have hself := hothers p
  rw [set_self hp] at hself
  have hnow := hself.trans ((deleteRecord_records hr).append_right others)
  refine ⟨p,r,hp,hw,hnow.mem_iff.mpr List.mem_cons_self,fun r' hs => ?_⟩
  have hfit := rewrite_fits hr hs (hf p (List.mem_of_getElem? hp))
  obtain ⟨hafter,hused⟩ := insertRecord_some hfit
  exact ⟨_,(p.deleteRecord slot).records ++ others,hfit,hnow,
    (hothers _).trans (hafter.append_right others),hf.set hused⟩

end SlotChain
