import OurSql.Buffer.Replacer

/-! The replacers behind their range checks, and what a run of calls has done to each frame.
FIFO and LRU keep their candidates in the order of the ages the history gives them. -/
namespace OurSql
namespace Buffer
namespace Policy

inductive Call
  | pin (f : FrameId) | unpin (f : FrameId) | recordAccess (f : FrameId) | remove (f : FrameId)
  | victim
  deriving DecidableEq

/-- What has happened to a frame. -/
inductive Event
  | pin (f : FrameId) | unpin (f : FrameId) | recordAccess (f : FrameId) | remove (f : FrameId)
  | victim (f : FrameId)
  deriving DecidableEq

variable {ρ : Type} [Replacer ρ]

/-- Every operation on a frame refuses a number out of range. -/
def onFrame (capacity : ℕ) (r : ρ) (f : FrameId) (status : Status) (r' : ρ) :
    Result (Option FrameId) × ρ :=
  if capacity ≤ f then
    (fail .invalidArgument (Replacer.name ρ ++ " frame 编号越界: " ++ toString f),r)
  else (status.map fun _ => none,r')

/-- One call; `victim` is the policy's own. -/
def call (victim : ρ → Result FrameId × ρ) (capacity : ℕ) (r : ρ) :
    Call → Result (Option FrameId) × ρ
  | .pin f => onFrame capacity r f (.ok ()) (Replacer.pin r f)
  | .unpin f => onFrame capacity r f (unpinStatus r f) (Replacer.unpin r f)
  | .recordAccess f => onFrame capacity r f (.ok ()) (Replacer.recordAccess r f)
  | .remove f => onFrame capacity r f (.ok ()) (Replacer.remove r f)
  | .victim => ((victim r).1.map some,(victim r).2)

/-- The event of a call, unless the call was refused for its range or found no victim. -/
def Call.events (capacity : ℕ) (answer : Result (Option FrameId)) : Call → List Event
  | .pin f => if capacity ≤ f then [] else [.pin f]
  | .unpin f => if capacity ≤ f then [] else [.unpin f]
  | .recordAccess f => if capacity ≤ f then [] else [.recordAccess f]
  | .remove f => if capacity ≤ f then [] else [.remove f]
  | .victim => (answer.toOption.join.map Event.victim).toList

/-- A replacer and its history, newest event first. -/
structure Trace (ρ : Type) where
  replacer : ρ
  history : List Event

def step (victim : ρ → Result FrameId × ρ) (capacity : ℕ) (t : Trace ρ) (c : Call) : Trace ρ :=
  let answer := call victim capacity t.replacer c
  ⟨answer.2,c.events capacity answer.1 ++ t.history⟩

def run (victim : ρ → Result FrameId × ρ) (capacity : ℕ) (calls : List Call) : Trace ρ :=
  calls.foldl (step victim capacity) ⟨Replacer.create capacity,[]⟩

/-- The `Victim` of the two policies with a queue. -/
def victim (r : ρ) : Result FrameId × ρ :=
  match Replacer.victim r with
  | some x => (.ok x.1,x.2)
  | none => (fail .notFound (Replacer.name ρ ++ " 没有可淘汰的 frame"),r)

/-! ### What the history says -/

/-- Unpinned, and since then neither pinned, removed nor taken. -/
def evictable (f : FrameId) : List Event → Bool
  | [] => false
  | e::h =>
    if e = .unpin f then true
    else if e = .pin f ∨ e = .remove f ∨ e = .victim f then false
    else evictable f h

/-- The moment of the last access since the last `Remove`; an `Unpin` is one if there was none. -/
def lastAccess (f : FrameId) : List Event → Option ℕ
  | [] => none
  | e::h =>
    if e = .pin f ∨ e = .recordAccess f then some h.length
    else if e = .unpin f then some ((lastAccess f h).getD h.length)
    else if e = .remove f then none
    else lastAccess f h

/-- The moment of the first `RecordAccess` or `Unpin` since the last `Remove`. -/
def firstSeen (f : FrameId) : List Event → Option ℕ
  | [] => none
  | e::h =>
    if e = .recordAccess f ∨ e = .unpin f then some ((firstSeen f h).getD h.length)
    else if e = .remove f then none
    else firstSeen f h

/-- The moment of the last access, whether the frame has been removed since or not. -/
def lastUse (f : FrameId) : List Event → Option ℕ
  | [] => none
  | e::h =>
    if e = .pin f ∨ e = .recordAccess f then some h.length
    else if e = .unpin f then some ((lastUse f h).getD h.length)
    else lastUse f h

def before (m : FrameId → Option ℕ) (f g : FrameId) : Prop := ∃ s ∈ m f, ∃ t ∈ m g, s < t

/-- A victim is found exactly when there is a candidate, and it is the oldest candidate. -/
def Picks (age : FrameId → List Event → Option ℕ) (h : List Event) (answer : Result FrameId) :
    Prop :=
  ((∃ f, answer = .ok f) ↔ ∃ f, evictable f h) ∧
    ∀ f, answer = .ok f → evictable f h ∧
      ∀ g, evictable g h → g ≠ f → before (age · h) f g

theorem evictable_iff {f : FrameId} {h : List Event} :
    evictable f h ↔ ∃ later earlier, h = later ++ Event.unpin f::earlier ∧
      Event.pin f ∉ later ∧ Event.remove f ∉ later ∧ Event.victim f ∉ later := by
  induction h with
  | nil => simp [evictable]
  | cons e h ih =>
    constructor
    · intro he
      by_cases hu : e = .unpin f
      · exact ⟨[],h,by simp [hu],by simp⟩
      · simp only [evictable,hu,if_false] at he
        split at he
        · simp at he
        · next hend =>
          obtain ⟨later,earlier,rfl,h1,h2,h3⟩ := ih.mp he
          push Not at hend
          exact ⟨e::later,earlier,rfl,by simp [h1,Ne.symm hend.1],
            by simp [h2,Ne.symm hend.2.1],by simp [h3,Ne.symm hend.2.2]⟩
    · rintro ⟨later,earlier,heq,h1,h2,h3⟩
      cases later with
      | nil =>
        obtain ⟨rfl,rfl⟩ := List.cons.inj heq
        simp [evictable]
      | cons e' later =>
        obtain ⟨rfl,rfl⟩ := List.cons.inj heq
        simp only [List.mem_cons,not_or] at h1 h2 h3
        have hrest := ih.mpr ⟨later,earlier,rfl,h1.2,h2.2,h3.2⟩
        simp only [evictable,hrest]
        split
        · rfl
        · rw [if_neg]
          rintro (rfl | rfl | rfl)
          · exact h1.1 rfl
          · exact h2.1 rfl
          · exact h3.1 rfl

/-! ### The candidates of any policy -/

/-- The replacer's candidates are those of the history. -/
def Agrees (t : Trace ρ) : Prop := ∀ f, Replacer.isEvictable t.replacer f = evictable f t.history

theorem evictable_pin (f g : FrameId) (h : List Event) :
    evictable f (.pin g::h) = (evictable f h && decide (f ≠ g)) := by
  by_cases hg : f = g
  · simp [evictable,hg]
  · simp [evictable,hg,Ne.symm hg]

theorem evictable_unpin (f g : FrameId) (h : List Event) :
    evictable f (.unpin g::h) = (evictable f h || decide (f = g)) := by
  by_cases hg : f = g
  · simp [evictable,hg]
  · simp [evictable,hg,Ne.symm hg]

theorem evictable_remove (f g : FrameId) (h : List Event) :
    evictable f (.remove g::h) = (evictable f h && decide (f ≠ g)) := by
  by_cases hg : f = g
  · simp [evictable,hg]
  · simp [evictable,hg,Ne.symm hg]

theorem evictable_victim (f g : FrameId) (h : List Event) :
    evictable f (.victim g::h) = (evictable f h && decide (f ≠ g)) := by
  by_cases hg : f = g
  · simp [evictable,hg]
  · simp [evictable,hg,Ne.symm hg]

/-! ### What one call does -/

/-- The traces that one call leads to. A refused call changes nothing. -/
inductive Stepped (policy : ρ → Result FrameId × ρ) (capacity : ℕ) (t : Trace ρ) : Trace ρ → Prop
  | refused : Stepped policy capacity t t
  | pin {f : FrameId} (hf : f < capacity) :
      Stepped policy capacity t ⟨Replacer.pin t.replacer f,.pin f::t.history⟩
  | unpin {f : FrameId} (hf : f < capacity) :
      Stepped policy capacity t ⟨Replacer.unpin t.replacer f,.unpin f::t.history⟩
  | recordAccess {f : FrameId} (hf : f < capacity) :
      Stepped policy capacity t ⟨Replacer.recordAccess t.replacer f,.recordAccess f::t.history⟩
  | remove {f : FrameId} (hf : f < capacity) :
      Stepped policy capacity t ⟨Replacer.remove t.replacer f,.remove f::t.history⟩
  | notFound {e : Failure} {r' : ρ} (hv : policy t.replacer = (.error e,r')) :
      Stepped policy capacity t ⟨r',t.history⟩
  | taken {f : FrameId} {r' : ρ} (hv : policy t.replacer = (.ok f,r')) :
      Stepped policy capacity t ⟨r',.victim f::t.history⟩

theorem stepped (policy : ρ → Result FrameId × ρ) (capacity : ℕ) (t : Trace ρ) (c : Call) :
    Stepped policy capacity t (step policy capacity t c) := by
  cases c with
  | pin f =>
    by_cases hf : capacity ≤ f
    · simpa [step,call,onFrame,Call.events,hf] using Stepped.refused
    · simpa [step,call,onFrame,Call.events,hf] using Stepped.pin (Nat.lt_of_not_le hf)
  | unpin f =>
    by_cases hf : capacity ≤ f
    · simpa [step,call,onFrame,Call.events,hf] using Stepped.refused
    · simpa [step,call,onFrame,Call.events,hf] using Stepped.unpin (Nat.lt_of_not_le hf)
  | recordAccess f =>
    by_cases hf : capacity ≤ f
    · simpa [step,call,onFrame,Call.events,hf] using Stepped.refused
    · simpa [step,call,onFrame,Call.events,hf] using Stepped.recordAccess (Nat.lt_of_not_le hf)
  | remove f =>
    by_cases hf : capacity ≤ f
    · simpa [step,call,onFrame,Call.events,hf] using Stepped.refused
    · simpa [step,call,onFrame,Call.events,hf] using Stepped.remove (Nat.lt_of_not_le hf)
  | victim =>
    rcases hv : policy t.replacer with ⟨e | f,r'⟩
    · simpa [step,call,hv,Call.events,Except.map,Except.toOption] using Stepped.notFound hv
    · simpa [step,call,hv,Call.events,Except.map,Except.toOption] using Stepped.taken hv

theorem step_agrees {policy : ρ → Result FrameId × ρ} {capacity : ℕ} {t : Trace ρ}
    (hok : ∀ r f r', policy r = (.ok f,r') → Replacer.victim r = some (f,r'))
    (herr : ∀ r e r', policy r = (.error e,r') →
      ∀ g, Replacer.isEvictable r' g = Replacer.isEvictable r g)
    (h : Agrees t) (c : Call) : Agrees (step policy capacity t c) := by
  intro f
  have hf := h f
  have hstep := stepped policy capacity t c
  generalize step policy capacity t c = t' at hstep
  cases hstep with
  | refused => exact hf
  | pin => rw [Replacer.pin_evictable,evictable_pin,hf]
  | unpin => rw [Replacer.unpin_evictable,evictable_unpin,hf]
  | recordAccess =>
    rw [Replacer.recordAccess_evictable,hf]
    simp [evictable]
  | remove => rw [Replacer.remove_evictable,evictable_remove,hf]
  | notFound hv => exact (herr _ _ _ hv f).trans hf
  | taken hv =>
    rw [evictable_victim,← hf]
    exact (Replacer.victim_evictable _ _ _ (hok _ _ _ hv)).2 f

theorem run_agrees {policy : ρ → Result FrameId × ρ} (capacity : ℕ)
    (hok : ∀ r f r', policy r = (.ok f,r') → Replacer.victim r = some (f,r'))
    (herr : ∀ r e r', policy r = (.error e,r') →
      ∀ g, Replacer.isEvictable r' g = Replacer.isEvictable r g)
    (calls : List Call) : Agrees (run policy capacity calls) := by
  have hrun : ∀ t : Trace ρ, Agrees t → Agrees (calls.foldl (step policy capacity) t) := by
    induction calls with
    | nil => exact fun t h => h
    | cons c calls ih => exact fun t h => ih _ (step_agrees hok herr h c)
  exact hrun _ fun f => by simp [evictable]

/-! ### A queue in the order of the ages -/

theorem before_update_newest {m : FrameId → Option ℕ} {n : ℕ} (hn : ∀ f, ∀ s ∈ m f, s < n)
    (f g g' : FrameId) : before (Function.update m f (some n)) g g' ↔
      g ≠ f ∧ (g' ≠ f ∧ before m g g' ∨ g' = f ∧ m g ≠ none) := by
  unfold before
  by_cases hg : g = f
  · subst hg
    by_cases hg' : g' = g
    · simp [hg']
    · simp only [Function.update_self,Function.update_of_ne hg',ne_eq,not_true_eq_false,false_and,
        iff_false]
      rintro ⟨s,hs,t,ht,hlt⟩
      obtain rfl := Option.some.inj hs
      exact absurd (hn g' t ht) (by omega)
  · by_cases hg' : g' = f
    · subst hg'
      simp only [Function.update_self,Function.update_of_ne hg]
      constructor
      · rintro ⟨s,hs,-⟩
        exact ⟨hg,.inr ⟨trivial,fun he => by simp [he] at hs⟩⟩
      · rintro ⟨-,⟨hne,-⟩ | ⟨-,hs⟩⟩
        · exact absurd rfl hne
        · obtain ⟨s,hs⟩ := Option.ne_none_iff_exists'.mp hs
          exact ⟨s,hs,n,rfl,hn g s hs⟩
    · simp [hg,hg']

theorem before_update_none (m : FrameId → Option ℕ) (f g g' : FrameId) :
    before (Function.update m f none) g g' ↔ g ≠ f ∧ g' ≠ f ∧ before m g g' := by
  unfold before
  by_cases hg : g = f
  · simp [hg]
  · by_cases hg' : g' = f
    · simp [hg']
    · simp [hg,hg']

/-- The stamps of the queue order the frames as their ages do, and the queue is in that order. -/
structure Aged (age : FrameId → Option ℕ) (now : ℕ) (q : Queue) : Prop where
  same : ∀ f g, before q.stamp f g ↔ before age f g
  known : ∀ f, q.stamp f = none ↔ age f = none
  stamps : ∀ f, ∀ s ∈ q.stamp f, s < q.clock + 1
  ages : ∀ f, ∀ a ∈ age f, a < now
  single : ∀ f g, ∀ s ∈ q.stamp f, s ∈ q.stamp g → f = g
  stamped : ∀ f ∈ q.order, q.stamp f ≠ none
  sorted : q.order.Pairwise (before q.stamp)

variable {age : FrameId → Option ℕ} {now : ℕ} {q : Queue}

theorem aged_empty : Aged (fun _ => none) 0 Queue.empty := by
  constructor <;> simp [Queue.empty,before]

namespace Aged

theorem later (h : Aged age now q) : Aged age (now + 1) q :=
  { h with ages := fun f a ha => Nat.lt_succ_of_lt (h.ages f a ha) }

theorem drop (h : Aged age now q) (f : FrameId) : Aged age now (q.drop f) :=
  { h with
    stamped := fun g hg => h.stamped g (List.mem_filter.mp hg).1
    sorted := h.sorted.filter _ }

/-- A frame outside the queue becomes the youngest. -/
theorem touch (h : Aged age now q) {f : FrameId} (hf : f ∉ q.order) :
    Aged (Function.update age f (some now)) (now + 1) (q.touch f) where
  same g g' := by
    simp only [Queue.touch,before_update_newest h.stamps,before_update_newest h.ages,h.same,
      ne_eq,h.known]
  known g := by
    by_cases hg : g = f
    · simp [Queue.touch,hg]
    · simp [Queue.touch,hg,h.known]
  stamps g s hs := by
    by_cases hg : g = f
    · subst hg
      simp only [Queue.touch,Function.update_self,Option.mem_some_iff] at hs ⊢
      omega
    · simp only [Queue.touch,Function.update_of_ne hg] at hs ⊢
      exact Nat.lt_succ_of_lt (h.stamps g s hs)
  ages g a ha := by
    by_cases hg : g = f
    · subst hg
      simp only [Function.update_self,Option.mem_some_iff] at ha
      omega
    · simp only [Function.update_of_ne hg] at ha
      exact Nat.lt_succ_of_lt (h.ages g a ha)
  single g g' s hs hs' := by
    have hstamps := h.stamps
    by_cases hg : g = f <;> by_cases hg' : g' = f
    · exact hg.trans hg'.symm
    · simp only [Queue.touch,hg,Function.update_self,Function.update_of_ne hg',
        Option.mem_some_iff] at hs hs'
      exact absurd (hstamps g' s hs') (by omega)
    · simp only [Queue.touch,hg',Function.update_self,Function.update_of_ne hg,
        Option.mem_some_iff] at hs hs'
      exact absurd (hstamps g s hs) (by omega)
    · simp only [Queue.touch,Function.update_of_ne hg,Function.update_of_ne hg'] at hs hs'
      exact h.single g g' s hs hs'
  stamped g hg := by
    have hne : g ≠ f := fun he => hf (he ▸ hg)
    simpa [Queue.touch,hne] using h.stamped g hg
  sorted := by
    refine h.sorted.imp_of_mem fun {g g'} hg hg' hlt => ?_
    have hne : g ≠ f := fun he => hf (he ▸ hg)
    have hne' : g' ≠ f := fun he => hf (he ▸ hg')
    exact (before_update_newest h.stamps f g g').mpr ⟨hne,.inl ⟨hne',hlt⟩⟩

/-- Only a frame without a stamp gets one. -/
theorem touchNew (h : Aged age now q) (f : FrameId) :
    Aged (Function.update age f (some ((age f).getD now))) (now + 1) (q.touchNew f) := by
  unfold Queue.touchNew
  split
  · next s hs =>
    have hne : age f ≠ none := fun he => by simp [(h.known f).mpr he] at hs
    obtain ⟨a,ha⟩ := Option.ne_none_iff_exists'.mp hne
    rw [ha,Option.getD_some,← ha,Function.update_eq_self]
    exact h.later
  · next hs =>
    rw [(h.known f).mp hs]
    exact h.touch fun hf => h.stamped f hf hs

theorem forget (h : Aged age now q) (f : FrameId) :
    Aged (Function.update age f none) (now + 1) (q.forget f) where
  same g g' := by simp only [Queue.forget,before_update_none,h.same]
  known g := by
    by_cases hg : g = f
    · simp [Queue.forget,hg]
    · simp [Queue.forget,hg,h.known]
  stamps g s hs := by
    by_cases hg : g = f
    · simp [Queue.forget,hg] at hs
    · simp only [Queue.forget,Function.update_of_ne hg] at hs
      exact h.stamps g s hs
  ages g a ha := by
    by_cases hg : g = f
    · simp [hg] at ha
    · simp only [Function.update_of_ne hg] at ha
      exact Nat.lt_succ_of_lt (h.ages g a ha)
  single g g' s hs hs' := by
    by_cases hg : g = f
    · simp [Queue.forget,hg] at hs
    by_cases hg' : g' = f
    · simp [Queue.forget,hg'] at hs'
    simp only [Queue.forget,Function.update_of_ne hg,Function.update_of_ne hg'] at hs hs'
    exact h.single g g' s hs hs'
  stamped g hg := by
    obtain ⟨hmem,hne⟩ := List.mem_filter.mp hg
    simpa [Queue.forget,of_decide_eq_true hne] using h.stamped g hmem
  sorted := by
    refine (h.sorted.filter _).imp_of_mem fun {g g'} hg hg' hlt => ?_
    have hne := of_decide_eq_true (List.mem_filter.mp hg).2
    have hne' := of_decide_eq_true (List.mem_filter.mp hg').2
    exact (before_update_none q.stamp f g g').mpr ⟨hne,hne',hlt⟩

/-- Walking past the smaller stamps finds the place of a frame. -/
theorem insertAt_sorted {stamp : FrameId → Option ℕ} {f : FrameId} {s : ℕ} (hf : stamp f = some s)
    {l : List FrameId} (hl : ∀ g ∈ l, ∃ t, stamp g = some t ∧ t ≠ s)
    (hs : l.Pairwise (before stamp)) : (Queue.insertAt stamp f l).Pairwise (before stamp) := by
  induction l with
  | nil => exact List.pairwise_singleton _ f
  | cons g gs ih =>
    obtain ⟨t,ht,hne⟩ := hl g List.mem_cons_self
    obtain ⟨hg,hgs⟩ := List.pairwise_cons.mp hs
    simp only [Queue.insertAt,ht,hf,Option.getD_some]
    split
    · next hle =>
      refine List.pairwise_cons.mpr ⟨fun x hx => ?_,
        ih (fun x hx => hl x (List.mem_cons_of_mem g hx)) hgs⟩
      rcases List.mem_cons.mp ((Queue.insertAt_perm stamp f gs).mem_iff.mp hx) with rfl | hx
      · exact ⟨t,ht,s,hf,by omega⟩
      · exact hg x hx
    · next hle =>
      have hfg : before stamp f g := ⟨s,hf,t,ht,by omega⟩
      refine List.pairwise_cons.mpr ⟨fun x hx => ?_,hs⟩
      rcases List.mem_cons.mp hx with rfl | hx
      · exact hfg
      · obtain ⟨a,ha,b,hb,hab⟩ := hg x hx
        obtain rfl := Option.some.inj (ht.symm.trans ha)
        exact ⟨s,hf,b,hb,by omega⟩

theorem enqueue (h : Aged age now q) {f : FrameId} (hf : q.stamp f ≠ none) :
    Aged age now (q.enqueue f) := by
  unfold Queue.enqueue
  split
  · exact h
  · next hout =>
    obtain ⟨s,hs⟩ := Option.ne_none_iff_exists'.mp hf
    refine { h with stamped := ?_, sorted := insertAt_sorted hs (fun g hg => ?_) h.sorted }
    · intro g hg
      rcases List.mem_cons.mp ((Queue.insertAt_perm q.stamp f q.order).mem_iff.mp hg) with rfl | hg
      · exact hf
      · exact h.stamped g hg
    · obtain ⟨t,ht⟩ := Option.ne_none_iff_exists'.mp (h.stamped g hg)
      exact ⟨t,ht,fun he => hout (h.single g f t ht (he ▸ hs) ▸ hg)⟩

theorem popFront (h : Aged age now q) {f : FrameId} {q' : Queue} (hq : q.popFront = some (f,q')) :
    Aged age now q' ∧ ∀ g ∈ q.order, g ≠ f → before age f g := by
  unfold Queue.popFront at hq
  split at hq
  · simp at hq
  · next x xs hx =>
    simp only [Option.some.injEq,Prod.mk.injEq] at hq
    obtain ⟨rfl,rfl⟩ := hq
    obtain ⟨hfirst,hrest⟩ := List.pairwise_cons.mp (hx ▸ h.sorted)
    refine ⟨{ h with
      stamped := fun g hg => h.stamped g (hx ▸ List.mem_cons_of_mem x hg)
      sorted := hrest },fun g hg hne => ?_⟩
    rw [hx] at hg
    rcases List.mem_cons.mp hg with rfl | hg
    · exact absurd rfl hne
    · exact (h.same x g).mp (hfirst g hg)

end Aged

/-! ### FIFO and LRU -/

theorem lastAccess_used (f : FrameId) (h : List Event) {e : Event}
    (he : e = .pin f ∨ e = .recordAccess f) :
    (lastAccess · (e::h)) = Function.update (lastAccess · h) f (some h.length) := by
  funext g
  by_cases hg : g = f
  · rcases he with rfl | rfl <;> simp [lastAccess,hg]
  · rcases he with rfl | rfl <;> simp [lastAccess,hg,Ne.symm hg]

theorem lastAccess_unpin (f : FrameId) (h : List Event) :
    (lastAccess · (.unpin f::h)) =
      Function.update (lastAccess · h) f (some ((lastAccess f h).getD h.length)) := by
  funext g
  by_cases hg : g = f
  · simp [lastAccess,hg]
  · simp [lastAccess,hg,Ne.symm hg]

theorem lastAccess_remove (f : FrameId) (h : List Event) :
    (lastAccess · (.remove f::h)) = Function.update (lastAccess · h) f none := by
  funext g
  by_cases hg : g = f
  · simp [lastAccess,hg]
  · simp [lastAccess,hg,Ne.symm hg]

theorem firstSeen_seen (f : FrameId) (h : List Event) {e : Event}
    (he : e = .recordAccess f ∨ e = .unpin f) :
    (firstSeen · (e::h)) =
      Function.update (firstSeen · h) f (some ((firstSeen f h).getD h.length)) := by
  funext g
  by_cases hg : g = f
  · rcases he with rfl | rfl <;> simp [firstSeen,hg]
  · rcases he with rfl | rfl <;> simp [firstSeen,hg,Ne.symm hg]

theorem firstSeen_remove (f : FrameId) (h : List Event) :
    (firstSeen · (.remove f::h)) = Function.update (firstSeen · h) f none := by
  funext g
  by_cases hg : g = f
  · simp [firstSeen,hg]
  · simp [firstSeen,hg,Ne.symm hg]

theorem victim_ok {r r' : ρ} {f : FrameId} (h : victim r = (.ok f,r')) :
    Replacer.victim r = some (f,r') := by
  unfold victim at h
  split at h
  next x hx =>
    obtain ⟨hf,rfl⟩ := Prod.mk.inj h
    obtain rfl := Except.ok.inj hf
    exact hx
  next => simp [fail] at h

theorem victim_error {r r' : ρ} {e : Failure} (h : victim r = (.error e,r')) :
    r' = r ∧ Replacer.victim r = none := by
  unfold victim at h
  split at h
  next => simp at h
  next hx => exact ⟨(Prod.mk.inj h).2.symm,hx⟩

theorem Aged.unpin (h : Aged age now q) (f : FrameId) :
    Aged (Function.update age f (some ((age f).getD now))) (now + 1)
      ((q.touchNew f).enqueue f) := by
  have hq := h.touchNew f
  exact hq.enqueue fun he => by simpa using (hq.known f).mp he

/-- `Unpin` of a candidate is refused and leaves the queue as it is. -/
theorem Aged.refused (h : Aged age now q) {f : FrameId} (hf : f ∈ q.order) :
    (q.touchNew f).enqueue f = q := by
  obtain ⟨s,hs⟩ := Option.ne_none_iff_exists'.mp (h.stamped f hf)
  rw [Queue.touchNew,hs,Queue.enqueue,dif_pos hf]

/-- What FIFO does keeps its queue in the order of the frames' first appearances. -/
theorem step_fifo {capacity : ℕ} {t : Trace FIFOReplacer}
    (h : Aged (firstSeen · t.history) t.history.length t.replacer.queue) (c : Call) :
    Aged (firstSeen · (step victim capacity t c).history) (step victim capacity t c).history.length
      (step victim capacity t c).replacer.queue := by
  have hstep := stepped victim capacity t c
  generalize step victim capacity t c = t' at hstep ⊢
  cases hstep with
  | refused => exact h
  | @pin f _ =>
    have hage : (firstSeen · (.pin f::t.history)) = (firstSeen · t.history) := by
      funext g
      simp [firstSeen]
    exact hage ▸ (h.drop f).later
  | @unpin f _ => exact firstSeen_seen f t.history (.inr rfl) ▸ h.unpin f
  | @recordAccess f _ => exact firstSeen_seen f t.history (.inl rfl) ▸ h.touchNew f
  | @remove f _ => exact firstSeen_remove f t.history ▸ h.forget f
  | notFound hv =>
    rw [(victim_error hv).1]
    exact h
  | taken hv =>
    obtain ⟨x,hx,he⟩ := Option.map_eq_some_iff.mp (victim_ok hv)
    obtain ⟨rfl,rfl⟩ := Prod.mk.inj he
    have hage : (firstSeen · (.victim x.1::t.history)) = (firstSeen · t.history) := by
      funext g
      simp [firstSeen]
    exact hage ▸ (h.popFront hx).1.later

/-- What LRU does keeps its queue in the order of the frames' last accesses. -/
theorem step_lru {capacity : ℕ} {t : Trace LRUReplacer}
    (h : Aged (lastAccess · t.history) t.history.length t.replacer.queue) (c : Call) :
    Aged (lastAccess · (step victim capacity t c).history) (step victim capacity t c).history.length
      (step victim capacity t c).replacer.queue := by
  have hdrop : ∀ f, f ∉ (t.replacer.queue.drop f).order := by simp [Queue.drop]
  have hstep := stepped victim capacity t c
  generalize step victim capacity t c = t' at hstep ⊢
  cases hstep with
  | refused => exact h
  | @pin f _ => exact lastAccess_used f t.history (.inl rfl) ▸ (h.drop f).touch (hdrop f)
  | @unpin f _ => exact lastAccess_unpin f t.history ▸ h.unpin f
  | @recordAccess f _ =>
    show Aged (lastAccess · (.recordAccess f::t.history)) _
      (if t.replacer.queue.evictable f then LRUReplacer.mk _ else LRUReplacer.mk _).queue
    rw [lastAccess_used f t.history (.inr rfl)]
    by_cases hin : t.replacer.queue.evictable f
    · rw [if_pos hin]
      have hq := (h.drop f).touch (hdrop f)
      exact hq.enqueue fun he => by simpa using (hq.known f).mp he
    · rw [if_neg hin]
      exact h.touch (by simpa [Queue.evictable] using hin)
  | @remove f _ => exact lastAccess_remove f t.history ▸ h.forget f
  | notFound hv =>
    rw [(victim_error hv).1]
    exact h
  | taken hv =>
    obtain ⟨x,hx,he⟩ := Option.map_eq_some_iff.mp (victim_ok hv)
    obtain ⟨rfl,rfl⟩ := Prod.mk.inj he
    have hage : (lastAccess · (.victim x.1::t.history)) = (lastAccess · t.history) := by
      funext g
      simp [lastAccess]
    exact hage ▸ (h.popFront hx).1.later

theorem popFront_eq_none {q : Queue} (h : q.popFront = none) : q.order = [] := by
  unfold Queue.popFront at h
  split at h
  next hx => exact hx
  next => simp at h

/-- The front of a queue in the order of the ages is what the history picks. -/
theorem picks_of_aged {age : FrameId → List Event → Option ℕ} {t : Trace ρ} {q : Queue}
    {mk : Queue → ρ} {now : ℕ} (hagree : Agrees t)
    (he : ∀ f, Replacer.isEvictable t.replacer f = q.evictable f)
    (hv : Replacer.victim t.replacer = q.popFront.map fun x => (x.1,mk x.2))
    (haged : Aged (age · t.history) now q) : Picks age t.history (victim t.replacer).1 := by
  have hmem : ∀ f, evictable f t.history ↔ f ∈ q.order := fun f => by
    rw [← hagree f,he f,Queue.evictable,decide_eq_true_iff]
  rcases hp : q.popFront with - | x
  · have hempty := popFront_eq_none hp
    rw [hp] at hv
    have hans : (victim t.replacer).1 =
        fail .notFound (Replacer.name ρ ++ " 没有可淘汰的 frame") := by rw [victim,hv]; rfl
    rw [hans]
    refine ⟨⟨fun ⟨f,hf⟩ => by simp [fail] at hf,fun ⟨f,hf⟩ => ?_⟩,fun f hf => by simp [fail] at hf⟩
    have := (hmem f).mp hf
    simp [hempty] at this
  · obtain ⟨f,q'⟩ := x
    rw [hp] at hv
    have hans : (victim t.replacer).1 = .ok f := by rw [victim,hv]; rfl
    have hin := (hmem f).mpr (Queue.popFront_mem hp).1
    rw [hans]
    refine ⟨⟨fun _ => ⟨f,hin⟩,fun _ => ⟨f,rfl⟩⟩,fun g hg => ?_⟩
    obtain rfl := Except.ok.inj hg
    exact ⟨hin,fun g' hg' hne => (haged.popFront hp).2 g' ((hmem g').mp hg') hne⟩

theorem steps_fifo {capacity : ℕ} (calls : List Call) {t : Trace FIFOReplacer}
    (h : Aged (firstSeen · t.history) t.history.length t.replacer.queue) :
    Aged (firstSeen · (calls.foldl (step victim capacity) t).history)
      (calls.foldl (step victim capacity) t).history.length
      (calls.foldl (step victim capacity) t).replacer.queue := by
  induction calls generalizing t with
  | nil => exact h
  | cons c calls ih => exact ih (step_fifo h c)

theorem steps_lru {capacity : ℕ} (calls : List Call) {t : Trace LRUReplacer}
    (h : Aged (lastAccess · t.history) t.history.length t.replacer.queue) :
    Aged (lastAccess · (calls.foldl (step victim capacity) t).history)
      (calls.foldl (step victim capacity) t).history.length
      (calls.foldl (step victim capacity) t).replacer.queue := by
  induction calls generalizing t with
  | nil => exact h
  | cons c calls ih => exact ih (step_lru h c)

theorem victim_run_agrees (capacity : ℕ) (calls : List Call) :
    Agrees (run victim capacity calls : Trace ρ) :=
  run_agrees capacity (fun _ _ _ => victim_ok) (fun _ _ _ h g => by rw [(victim_error h).1]) calls

/-- Both policies take a frame whenever there is a candidate, and they take the oldest one: LRU by
its last access since its last `Remove`, FIFO by its first appearance since then. -/
theorem run_policies (capacity : ℕ) (calls : List Call) :
    (let t : Trace LRUReplacer := run victim capacity calls
     Picks lastAccess t.history (victim t.replacer).1) ∧
    (let t : Trace FIFOReplacer := run victim capacity calls
     Picks firstSeen t.history (victim t.replacer).1) :=
  ⟨picks_of_aged (victim_run_agrees capacity calls) (fun _ => rfl) rfl (steps_lru calls aged_empty),
    picks_of_aged (victim_run_agrees capacity calls) (fun _ => rfl) rfl
      (steps_fifo calls aged_empty)⟩

/-- `Remove` makes LRU forget an access: frame 0 was used first, and frame 1 is taken. -/
theorem lru_forgets : ¬ ∀ capacity calls,
    let t : Trace LRUReplacer := run victim capacity calls
    Picks lastUse t.history (victim t.replacer).1 := by
  intro h
  obtain ⟨-,hpick⟩ := h 2 [.recordAccess 0,.unpin 0,.remove 0,.recordAccess 1,.unpin 1,.unpin 0]
  obtain ⟨-,hold⟩ := hpick 1 (by decide +kernel)
  obtain ⟨s,hs,t,ht,hlt⟩ := hold 0 (by decide +kernel) (by decide)
  have h1 : some 3 = some s := (by decide +kernel : some 3 = lastUse 1 _).trans hs
  have h0 : some 0 = some t := (by decide +kernel : some 0 = lastUse 0 _).trans ht
  obtain rfl := Option.some.inj h1
  obtain rfl := Option.some.inj h0
  omega

end Policy
end Buffer
end OurSql
