import Mathlib.Data.List.Nodup
import Mathlib.Logic.Function.Basic
import OurSql.Common

/-! The three replacement policies. The pool only relies on which frames they may
give out, so that is what the interface promises; it passes its own frame numbers,
which are always in range. -/
namespace OurSql
namespace Buffer

abbrev FrameId := ℕ

/-- `Replacer`, with what every policy does to the set of evictable frames. -/
class Replacer (ρ : Type) where
  name : String
  create : ℕ → ρ
  pin : ρ → FrameId → ρ
  unpin : ρ → FrameId → ρ
  recordAccess : ρ → FrameId → ρ
  remove : ρ → FrameId → ρ
  victim : ρ → Option (FrameId × ρ)
  isEvictable : ρ → FrameId → Bool
  create_evictable : ∀ n f, isEvictable (create n) f = false
  pin_evictable : ∀ r f g, isEvictable (pin r f) g = (isEvictable r g && decide (g ≠ f))
  unpin_evictable : ∀ r f g, isEvictable (unpin r f) g = (isEvictable r g || decide (g = f))
  recordAccess_evictable : ∀ r f g, isEvictable (recordAccess r f) g = isEvictable r g
  remove_evictable : ∀ r f g, isEvictable (remove r f) g = (isEvictable r g && decide (g ≠ f))
  victim_evictable : ∀ r f r', victim r = some (f,r') → isEvictable r f = true ∧
    ∀ g, isEvictable r' g = (isEvictable r g && decide (g ≠ f))

attribute [simp] Replacer.create_evictable Replacer.pin_evictable Replacer.unpin_evictable
  Replacer.recordAccess_evictable Replacer.remove_evictable

/-- `Unpin` refuses a frame that is a candidate already. -/
def unpinStatus {ρ : Type} [Replacer ρ] (r : ρ) (f : FrameId) : Status :=
  if Replacer.isEvictable r f then
    fail .alreadyExists (Replacer.name ρ ++ " frame 已在候选集合: " ++ toString f)
  else .ok ()

/-! ### FIFO and LRU -/

/-- The candidates in the order of their stamps: arrivals for FIFO, last uses for LRU. -/
structure Queue where
  order : List FrameId
  stamp : FrameId → Option ℕ
  clock : ℕ
  nodup : order.Nodup

namespace Queue

/-- Walk past the frames whose stamp is not larger. -/
def insertAt (stamp : FrameId → Option ℕ) (f : FrameId) : List FrameId → List FrameId
  | [] => [f]
  | g::gs => if (stamp g).getD 0 ≤ (stamp f).getD 0 then g::insertAt stamp f gs else f::g::gs

theorem insertAt_perm (stamp : FrameId → Option ℕ) (f : FrameId) (l : List FrameId) :
    (insertAt stamp f l).Perm (f::l) := by
  induction l with
  | nil => exact List.Perm.refl _
  | cons g gs ih =>
    simp only [insertAt]
    split
    · exact (ih.cons g).trans (List.Perm.swap f g gs)
    · exact List.Perm.refl _

def empty : Queue := ⟨[],fun _ => none,0,List.nodup_nil⟩

def drop (q : Queue) (f : FrameId) : Queue :=
  { q with order := q.order.filter (· ≠ f), nodup := q.nodup.filter _ }

def touch (q : Queue) (f : FrameId) : Queue :=
  { q with stamp := Function.update q.stamp f (some (q.clock + 1)), clock := q.clock + 1 }

def touchNew (q : Queue) (f : FrameId) : Queue :=
  match q.stamp f with
  | some _ => q
  | none => q.touch f

theorem touchNew_order (q : Queue) (f : FrameId) : (q.touchNew f).order = q.order := by
  simp only [touchNew]
  split <;> rfl

def enqueue (q : Queue) (f : FrameId) : Queue :=
  if h : f ∈ q.order then q
  else { q with
    order := insertAt q.stamp f q.order
    nodup := (insertAt_perm q.stamp f q.order).nodup_iff.mpr (List.nodup_cons.mpr ⟨h,q.nodup⟩) }

theorem mem_enqueue {q : Queue} {f g : FrameId} :
    g ∈ (q.enqueue f).order ↔ g ∈ q.order ∨ g = f := by
  simp only [enqueue]
  split
  · next h =>
    constructor
    · exact Or.inl
    · rintro (hg | rfl)
      · exact hg
      · exact h
  · rw [(insertAt_perm q.stamp f q.order).mem_iff,List.mem_cons]
    exact or_comm

def popFront (q : Queue) : Option (FrameId × Queue) :=
  match h : q.order with
  | [] => none
  | f::fs => some (f,{ q with order := fs, nodup := (List.nodup_cons.mp (h ▸ q.nodup)).2 })

theorem popFront_mem {q q' : Queue} {f : FrameId} (h : q.popFront = some (f,q')) :
    f ∈ q.order ∧ ∀ g, g ∈ q'.order ↔ g ∈ q.order ∧ g ≠ f := by
  unfold popFront at h
  split at h
  · simp at h
  · next x xs hx =>
    simp only [Option.some.injEq, Prod.mk.injEq] at h
    obtain ⟨rfl,rfl⟩ := h
    have hn := List.nodup_cons.mp (hx ▸ q.nodup)
    refine ⟨by simp [hx],fun g => ?_⟩
    show g ∈ xs ↔ g ∈ q.order ∧ g ≠ x
    rw [hx,List.mem_cons]
    constructor
    · intro hg
      exact ⟨.inr hg,fun he => hn.1 (he ▸ hg)⟩
    · rintro ⟨rfl | hg,hne⟩
      · exact absurd rfl hne
      · exact hg

def evictable (q : Queue) (f : FrameId) : Bool := decide (f ∈ q.order)

theorem drop_evictable (q : Queue) (f g : FrameId) :
    (q.drop f).evictable g = (q.evictable g && decide (g ≠ f)) := by
  simp [evictable, drop]

theorem enqueue_evictable (q : Queue) (f g : FrameId) :
    (q.enqueue f).evictable g = (q.evictable g || decide (g = f)) := by
  simp only [evictable, decide_eq_decide.mpr mem_enqueue, Bool.decide_or]

theorem popFront_evictable (q : Queue) (f : FrameId) (q' : Queue) (h : q.popFront = some (f,q')) :
    q.evictable f = true ∧ ∀ g, q'.evictable g = (q.evictable g && decide (g ≠ f)) := by
  obtain ⟨hf,hg⟩ := popFront_mem h
  refine ⟨by simp [evictable, hf],fun g => ?_⟩
  simp only [evictable, decide_eq_decide.mpr (hg g), Bool.decide_and]

/-- `Remove` forgets the stamp as well. -/
def forget (q : Queue) (f : FrameId) : Queue :=
  { q.drop f with stamp := Function.update q.stamp f none }

end Queue

structure FIFOReplacer where
  queue : Queue

/-- FIFO keeps the stamp a frame first got, LRU gives it a new one at each use. -/
structure LRUReplacer where
  queue : Queue

open Queue in
instance : Replacer FIFOReplacer where
  name := "FIFO"
  create _ := ⟨Queue.empty⟩
  pin r f := ⟨r.queue.drop f⟩
  unpin r f := ⟨(r.queue.touchNew f).enqueue f⟩
  recordAccess r f := ⟨r.queue.touchNew f⟩
  remove r f := ⟨r.queue.forget f⟩
  victim r := r.queue.popFront.map fun x => (x.1,⟨x.2⟩)
  isEvictable r f := r.queue.evictable f
  create_evictable _ _ := rfl
  pin_evictable r := drop_evictable r.queue
  unpin_evictable r f g := by
    rw [enqueue_evictable,evictable,touchNew_order]
    rfl
  recordAccess_evictable r f g := by rw [evictable,touchNew_order]; rfl
  remove_evictable r := drop_evictable r.queue
  victim_evictable r f r' h := by
    obtain ⟨x,hx,he⟩ := Option.map_eq_some_iff.mp h
    simp only [Prod.mk.injEq] at he
    obtain ⟨rfl,rfl⟩ := he
    exact popFront_evictable _ _ _ hx

open Queue in
instance : Replacer LRUReplacer where
  name := "LRU"
  create _ := ⟨Queue.empty⟩
  pin r f := ⟨(r.queue.drop f).touch f⟩
  unpin r f := ⟨(r.queue.touchNew f).enqueue f⟩
  recordAccess r f :=
    if r.queue.evictable f then ⟨((r.queue.drop f).touch f).enqueue f⟩ else ⟨r.queue.touch f⟩
  remove r f := ⟨r.queue.forget f⟩
  victim r := r.queue.popFront.map fun x => (x.1,⟨x.2⟩)
  isEvictable r f := r.queue.evictable f
  create_evictable _ _ := rfl
  pin_evictable r := drop_evictable r.queue
  unpin_evictable r f g := by
    rw [enqueue_evictable,evictable,touchNew_order]
    rfl
  recordAccess_evictable r f g := by
    split
    · next h =>
      have hd : ((r.queue.drop f).touch f).evictable g = (r.queue.drop f).evictable g := rfl
      rw [enqueue_evictable,hd,drop_evictable]
      by_cases hg : g = f
      · simp [hg, h]
      · simp [hg]
    · rfl
  remove_evictable r := drop_evictable r.queue
  victim_evictable r f r' h := by
    obtain ⟨x,hx,he⟩ := Option.map_eq_some_iff.mp h
    simp only [Prod.mk.injEq] at he
    obtain ⟨rfl,rfl⟩ := he
    exact popFront_evictable _ _ _ hx

/-! ### CLOCK -/

structure ClockReplacer where
  capacity : ℕ
  active : FrameId → Bool
  evictable : FrameId → Bool
  referenceBits : FrameId → Bool
  hand : ℕ
  evictableCount : ℕ

namespace ClockReplacer

def clear (r : ClockReplacer) (f : FrameId) : ClockReplacer :=
  if r.evictable f then
    { r with
      evictable := Function.update r.evictable f false
      evictableCount := r.evictableCount - 1 }
  else r

/-- At most two rounds: the first clears reference bits, the second finds the victim. -/
def scan : ℕ → ClockReplacer → Option (FrameId × ClockReplacer)
  | 0, _ => none
  | steps+1, r =>
    let f := r.hand
    let r := { r with hand := (r.hand + 1) % r.capacity }
    if !r.active f || !r.evictable f then scan steps r
    else if r.referenceBits f then
      scan steps { r with referenceBits := Function.update r.referenceBits f false }
    else some (f,{ r.clear f with active := Function.update r.active f false })

theorem clear_evictable (r : ClockReplacer) (f g : FrameId) :
    (r.clear f).evictable g = (r.evictable g && decide (g ≠ f)) := by
  simp only [clear]
  split
  · by_cases hg : g = f <;> simp [hg]
  · next h =>
    by_cases hg : g = f
    · subst hg
      simpa using h
    · simp [hg]

theorem scan_evictable {steps : ℕ} {r r' : ClockReplacer} {f : FrameId}
    (h : scan steps r = some (f,r')) : r.evictable f = true ∧
      ∀ g, r'.evictable g = (r.evictable g && decide (g ≠ f)) := by
  induction steps generalizing r with
  | zero => simp [scan] at h
  | succ steps ih =>
    simp only [scan] at h
    split at h
    · have hr := ih h
      exact hr
    · next hact =>
      split at h
      · have hr := ih h
        exact hr
      · simp only [Option.some.injEq, Prod.mk.injEq] at h
        obtain ⟨rfl,rfl⟩ := h
        simp only [Bool.or_eq_true, not_or, Bool.not_eq_true, Bool.not_eq_false'] at hact
        exact ⟨by simpa using hact.2,clear_evictable _ _⟩

end ClockReplacer

open ClockReplacer in
instance : Replacer ClockReplacer where
  name := "CLOCK"
  create n := ⟨n,fun _ => false,fun _ => false,fun _ => false,0,0⟩
  pin r f := { r.clear f with
    active := Function.update r.active f true
    referenceBits := Function.update r.referenceBits f true }
  unpin r f :=
    if r.evictable f then { r with active := Function.update r.active f true }
    else { r with
      active := Function.update r.active f true
      evictable := Function.update r.evictable f true
      referenceBits := Function.update r.referenceBits f true
      evictableCount := r.evictableCount + 1 }
  recordAccess r f := { r with
    active := Function.update r.active f true
    referenceBits := Function.update r.referenceBits f true }
  remove r f := { r.clear f with
    active := Function.update r.active f false
    referenceBits := Function.update r.referenceBits f false }
  victim r :=
    if r.evictableCount = 0 || r.capacity = 0 then none else scan (r.capacity * 2) r
  isEvictable r f := r.evictable f
  create_evictable _ _ := rfl
  pin_evictable r f g := clear_evictable r f g
  unpin_evictable r f g := by
    by_cases hf : r.evictable f = true
    · rw [if_pos hf]
      by_cases hg : g = f
      · simp [hg, hf]
      · simp [hg]
    · rw [if_neg hf]
      by_cases hg : g = f <;> simp [hg]
  recordAccess_evictable _ _ _ := rfl
  remove_evictable r f g := clear_evictable r f g
  victim_evictable r f r' h := by
    split at h
    · simp at h
    · exact scan_evictable h

end Buffer
end OurSql
