import Mathlib.Data.Finset.Card
import OurSql.Buffer.Policy

/-! CLOCK over whole runs: its flags and its count agree, and two turns of the hand are enough to
find a frame whenever there is a candidate. -/
namespace OurSql
namespace Buffer
namespace ClockReplacer

/-- The loop of `Victim`, which keeps what it has done to the bits when it finds no frame. -/
def sweep : ℕ → ClockReplacer → Option FrameId × ClockReplacer
  | 0, r => (none,r)
  | steps+1, r =>
    let f := r.hand
    let r := { r with hand := (r.hand + 1) % r.capacity }
    if !r.active f || !r.evictable f then sweep steps r
    else if r.referenceBits f then
      sweep steps { r with referenceBits := Function.update r.referenceBits f false }
    else (some f,{ r.clear f with active := Function.update r.active f false })

def victim (r : ClockReplacer) : Result FrameId × ClockReplacer :=
  if r.evictableCount = 0 || r.capacity = 0 then
    (fail .notFound "CLOCK 没有可淘汰的 frame",r)
  else
    let swept := sweep (r.capacity * 2) r
    match swept.1 with
    | some f => (.ok f,swept.2)
    | none => (fail .notFound "CLOCK 扫描后没有可淘汰的 frame",swept.2)

theorem scan_eq (steps : ℕ) (r : ClockReplacer) :
    scan steps r = (sweep steps r).1.map fun f => (f,(sweep steps r).2) := by
  induction steps generalizing r with
  | zero => rfl
  | succ steps ih =>
    simp only [scan,sweep]
    split
    · exact ih _
    · split
      · exact ih _
      · rfl

theorem victim_ok {r r' : ClockReplacer} {f : FrameId} (h : victim r = (.ok f,r')) :
    Replacer.victim r = some (f,r') := by
  show (if r.evictableCount = 0 || r.capacity = 0 then none else scan (r.capacity * 2) r) = _
  unfold victim at h
  split at h
  · simp [fail] at h
  · next hcount =>
    rw [if_neg hcount,scan_eq]
    dsimp only at h
    split at h
    · next g hg =>
      obtain ⟨hf,rfl⟩ := Prod.mk.inj h
      obtain rfl := Except.ok.inj hf
      rw [hg,Option.map_some]
    · simp [fail] at h

theorem sweep_none {steps : ℕ} {r : ClockReplacer} (h : (sweep steps r).1 = none) (f : FrameId) :
    (sweep steps r).2.evictable f = r.evictable f := by
  induction steps generalizing r with
  | zero => rfl
  | succ steps ih =>
    simp only [sweep] at h ⊢
    split at h
    · next hskip =>
      rw [if_pos hskip]
      exact ih h
    · next hskip =>
      rw [if_neg hskip]
      split at h
      · next hbit =>
        rw [if_pos hbit]
        exact ih h
      · simp at h

theorem victim_error {r r' : ClockReplacer} {e : Failure} (h : victim r = (.error e,r'))
    (f : FrameId) : r'.evictable f = r.evictable f := by
  unfold victim at h
  split at h
  · rw [← (Prod.mk.inj h).2]
  · dsimp only at h
    split at h
    · simp at h
    · next hnone =>
      rw [← (Prod.mk.inj h).2]
      exact sweep_none hnone f

/-! ### The flags and the count -/

/-- The candidates among the frames. -/
def candidates (r : ClockReplacer) : Finset FrameId :=
  (Finset.range r.capacity).filter fun f => r.evictable f

structure Consistent (r : ClockReplacer) : Prop where
  inRange : ∀ f, r.evictable f → f < r.capacity
  active : ∀ f, r.evictable f → r.active f
  count : r.evictableCount = r.candidates.card
  hand : 0 < r.capacity → r.hand < r.capacity

variable {r : ClockReplacer}

@[simp] theorem clear_capacity (r : ClockReplacer) (f : FrameId) :
    (r.clear f).capacity = r.capacity := by
  unfold clear
  split <;> rfl

@[simp] theorem clear_hand (r : ClockReplacer) (f : FrameId) : (r.clear f).hand = r.hand := by
  unfold clear
  split <;> rfl

theorem mem_candidates {f : FrameId} :
    f ∈ r.candidates ↔ f < r.capacity ∧ r.evictable f := by
  simp [candidates]

theorem clear_candidates (r : ClockReplacer) (f : FrameId) :
    (r.clear f).candidates = r.candidates.erase f := by
  ext g
  simp only [mem_candidates,Finset.mem_erase,clear_capacity,clear_evictable,Bool.and_eq_true,
    decide_eq_true_eq]
  tauto

theorem Consistent.clear_count (h : r.Consistent) (f : FrameId) :
    (r.clear f).evictableCount = (r.candidates.erase f).card := by
  by_cases hf : r.evictable f
  · have hmem := mem_candidates.mpr ⟨h.inRange f hf,hf⟩
    rw [Finset.card_erase_of_mem hmem,← h.count,clear,if_pos hf]
  · have hmem : f ∉ r.candidates := fun hm => hf (mem_candidates.mp hm).2
    rw [Finset.erase_eq_of_notMem hmem,← h.count,clear,if_neg hf]

theorem Consistent.clear (h : r.Consistent) (f : FrameId) {active bits : FrameId → Bool}
    (hactive : ∀ g, r.active g → g ≠ f → active g) :
    Consistent { r.clear f with active := active, referenceBits := bits } where
  inRange g hg := by
    simp only [clear_evictable,Bool.and_eq_true] at hg
    simpa using h.inRange g hg.1
  active g hg := by
    simp only [clear_evictable,Bool.and_eq_true,decide_eq_true_eq] at hg
    exact hactive g (h.active g hg.1) hg.2
  count := (h.clear_count f).trans (congrArg Finset.card (clear_candidates r f).symm)
  hand := by simpa using h.hand

theorem Consistent.unpin (h : r.Consistent) {f : FrameId} (hf : f < r.capacity) :
    (Replacer.unpin r f).Consistent := by
  show Consistent (if r.evictable f then ClockReplacer.mk .. else ClockReplacer.mk ..)
  have hactive : ∀ g, r.evictable g → Function.update r.active f true g := fun g hg => by
    by_cases hgf : g = f
    · simp [hgf]
    · simpa [hgf] using h.active g hg
  by_cases hin : r.evictable f
  · rw [if_pos hin]
    exact ⟨h.inRange,hactive,h.count,h.hand⟩
  · rw [if_neg hin]
    have hmem : f ∉ r.candidates := fun hm => hin (mem_candidates.mp hm).2
    refine ⟨fun g hg => ?_,fun g hg => ?_,?_,h.hand⟩
    · by_cases hgf : g = f
      · exact hgf ▸ hf
      · exact h.inRange g (by simpa [hgf] using hg)
    · by_cases hgf : g = f
      · simp [hgf]
      · exact hactive g (by simpa [hgf] using hg)
    · show r.evictableCount + 1 = Finset.card _
      rw [h.count,← Finset.card_insert_of_notMem hmem]
      congr 1
      ext g
      simp only [mem_candidates,Finset.mem_insert]
      by_cases hgf : g = f
      · simp [hgf,hf]
      · simp [hgf]

theorem Consistent.sweep (h : r.Consistent) (steps : ℕ) : (sweep steps r).2.Consistent := by
  induction steps generalizing r with
  | zero => exact h
  | succ steps ih =>
    have hnext : Consistent { r with hand := (r.hand + 1) % r.capacity } :=
      ⟨h.inRange,h.active,h.count,fun hc => Nat.mod_lt _ hc⟩
    simp only [ClockReplacer.sweep]
    split
    · exact ih hnext
    · split
      · exact ih ⟨hnext.inRange,hnext.active,hnext.count,hnext.hand⟩
      · exact hnext.clear r.hand fun g hg hne => by simpa [hne] using hg

theorem sweep_capacity (steps : ℕ) (r : ClockReplacer) :
    (ClockReplacer.sweep steps r).2.capacity = r.capacity := by
  induction steps generalizing r with
  | zero => rfl
  | succ steps ih =>
    simp only [ClockReplacer.sweep]
    split
    · exact ih _
    · split
      · exact ih _
      · exact clear_capacity _ _

theorem victim_capacity (r : ClockReplacer) : (ClockReplacer.victim r).2.capacity = r.capacity := by
  unfold ClockReplacer.victim
  split
  · rfl
  · dsimp only
    split <;> exact sweep_capacity _ r

theorem Consistent.victim (h : r.Consistent) : (victim r).2.Consistent := by
  unfold ClockReplacer.victim
  split
  · exact h
  · have hswept := h.sweep (r.capacity * 2)
    dsimp only
    split <;> exact hswept

open Policy in
theorem step_consistent {capacity : ℕ} {t : Trace ClockReplacer}
    (h : t.replacer.capacity = capacity ∧ t.replacer.Consistent) (c : Call) :
    (step victim capacity t c).replacer.capacity = capacity ∧
      (step victim capacity t c).replacer.Consistent := by
  obtain ⟨hcap,h⟩ := h
  have hstep := stepped victim capacity t c
  generalize step victim capacity t c = t' at hstep ⊢
  have hanswer {answer : Result FrameId} {r' : ClockReplacer}
      (hv : victim t.replacer = (answer,r')) : r'.capacity = capacity ∧ r'.Consistent := by
    obtain rfl : (victim t.replacer).2 = r' := congrArg Prod.snd hv
    exact ⟨(victim_capacity _).trans hcap,h.victim⟩
  cases hstep with
  | refused => exact ⟨hcap,h⟩
  | @pin f _ =>
    exact ⟨(clear_capacity _ f).trans hcap,h.clear f fun g hg hne => by simpa [hne] using hg⟩
  | @unpin f hf =>
    refine ⟨?_,h.unpin (hcap ▸ hf)⟩
    show (if t.replacer.evictable f then ClockReplacer.mk .. else ClockReplacer.mk ..).capacity = _
    split <;> exact hcap
  | @recordAccess f _ =>
    refine ⟨hcap,h.inRange,fun g hg => ?_,h.count,h.hand⟩
    by_cases hgf : g = f
    · exact hgf ▸ Function.update_self ..
    · exact (Function.update_of_ne hgf ..).trans (h.active g hg)
  | @remove f _ =>
    exact ⟨(clear_capacity _ f).trans hcap,h.clear f fun g hg hne => by simpa [hne] using hg⟩
  | notFound hv => exact hanswer hv
  | taken hv => exact hanswer hv

/-! ### Two turns of the hand -/

/-- The frame the hand stands at after `i` steps. -/
def handAt (r : ClockReplacer) (i : ℕ) : ℕ := (r.hand + i) % r.capacity

/-- A candidate whose reference bit is clear. -/
def ready (r : ClockReplacer) (f : FrameId) : Bool := r.evictable f && !r.referenceBits f

/-- The first frame of a kind in the order of the hand. -/
def firstAt (r : ClockReplacer) (p : FrameId → Bool) : Option FrameId :=
  ((List.range r.capacity).map r.handAt).find? p

theorem handAt_ne {i j : ℕ} (hhand : r.hand < r.capacity) (hij : i < j) (hj : j < r.capacity) :
    r.handAt i ≠ r.handAt j := by
  have hturn : ∀ k, k < r.capacity → r.handAt k =
      if r.hand + k < r.capacity then r.hand + k else r.hand + k - r.capacity := fun k hk => by
    unfold handAt
    split
    · next hlt => exact Nat.mod_eq_of_lt hlt
    · next hge =>
      rw [Nat.mod_eq_sub_mod (by omega),Nat.mod_eq_of_lt (by omega)]
  have hi := hturn i (by omega)
  have hj' := hturn j hj
  split at hi <;> split at hj' <;> omega

theorem exists_handAt {f : ℕ} (hhand : r.hand < r.capacity) (hf : f < r.capacity) :
    ∃ i < r.capacity, r.handAt i = f := by
  by_cases h : r.hand ≤ f
  · refine ⟨f - r.hand,by omega,?_⟩
    rw [handAt,show r.hand + (f - r.hand) = f by omega,Nat.mod_eq_of_lt hf]
  · refine ⟨f + r.capacity - r.hand,by omega,?_⟩
    rw [handAt,show r.hand + (f + r.capacity - r.hand) = f + r.capacity by omega,
      Nat.add_mod_right,Nat.mod_eq_of_lt hf]

theorem firstAt_eq_some {p : FrameId → Bool} {f : FrameId} (h : r.firstAt p = some f) :
    ∃ i < r.capacity, r.handAt i = f ∧ p f ∧ ∀ j < i, p (r.handAt j) = false := by
  rw [firstAt,List.find?_map] at h
  obtain ⟨i,hi,rfl⟩ := Option.map_eq_some_iff.mp h
  obtain ⟨hp,hmem,hbefore⟩ := List.find?_range_eq_some.mp hi
  exact ⟨i,List.mem_range.mp hmem,rfl,hp,fun j hj => by simpa using hbefore j hj⟩

theorem firstAt_eq_none {p : FrameId → Bool} (h : r.firstAt p = none) :
    ∀ i < r.capacity, p (r.handAt i) = false := by
  intro i hi
  have := List.find?_eq_none.mp h (r.handAt i)
    (List.mem_map.mpr ⟨i,List.mem_range.mpr hi,rfl⟩)
  simpa using this

/-- The state after `k` steps that found no frame: the bits of the candidates passed are clear. -/
def passed (r : ClockReplacer) (k : ℕ) : ClockReplacer :=
  { r with
    hand := r.handAt k
    referenceBits := fun f =>
      r.referenceBits f && !(r.evictable f && decide (∃ i < k, r.handAt i = f)) }

theorem handAt_succ (r : ClockReplacer) (k : ℕ) :
    (r.handAt k + 1) % r.capacity = r.handAt (k + 1) := by
  rw [handAt,Nat.mod_add_mod,Nat.add_assoc,handAt]

theorem passed_zero (h : r.Consistent) : r.passed 0 = r := by
  have hhand : r.handAt 0 = r.hand := by
    rcases Nat.eq_zero_or_pos r.capacity with hc | hc
    · simp [handAt,hc]
    · exact Nat.mod_eq_of_lt (h.hand hc)
  simp [passed,hhand]

theorem passed_succ_bits (r : ClockReplacer) (k : ℕ) (f : FrameId) :
    (r.passed (k + 1)).referenceBits f =
      ((r.passed k).referenceBits f && !(r.evictable f && decide (r.handAt k = f))) := by
  have hsplit : (∃ i < k + 1, r.handAt i = f) ↔ (∃ i < k, r.handAt i = f) ∨ r.handAt k = f := by
    constructor
    · rintro ⟨i,hi,he⟩
      rcases Nat.lt_succ_iff_lt_or_eq.mp hi with hlt | rfl
      · exact .inl ⟨i,hlt,he⟩
      · exact .inr he
    · rintro (⟨i,hi,he⟩ | he)
      · exact ⟨i,Nat.lt_succ_of_lt hi,he⟩
      · exact ⟨k,Nat.lt_succ_self k,he⟩
  simp only [passed,hsplit,Bool.decide_or]
  cases r.evictable f <;> simp [Bool.and_assoc]

/-- Within the first turn the hand passes the frames that are not ready. -/
theorem sweep_passed (h : r.Consistent) {k : ℕ} (hk : k ≤ r.capacity)
    (hnone : ∀ i < k, r.ready (r.handAt i) = false) (steps : ℕ) :
    sweep (k + steps) r = sweep steps (r.passed k) := by
  induction k generalizing steps with
  | zero => rw [passed_zero h,Nat.zero_add]
  | succ k ih =>
    have hhand := h.hand (by omega)
    have hfresh : ¬∃ i < k, r.handAt i = r.handAt k :=
      fun ⟨i,hi,he⟩ => handAt_ne hhand hi (by omega) he
    rw [show k + 1 + steps = k + (steps + 1) by omega,ih (by omega) fun i hi => hnone i (by omega)]
    have hbits : (r.passed (k + 1)).referenceBits =
        if r.evictable (r.handAt k) then
          Function.update (r.passed k).referenceBits (r.handAt k) false
        else (r.passed k).referenceBits := by
      funext f
      rw [passed_succ_bits]
      by_cases hf : r.handAt k = f
      · subst hf
        cases r.evictable (r.handAt k) <;> simp
      · cases r.evictable (r.handAt k) <;> simp [hf,Ne.symm hf]
    have hnext : r.passed (k + 1) = { r.passed k with
        hand := ((r.passed k).hand + 1) % r.capacity
        referenceBits := (r.passed (k + 1)).referenceBits } := by
      simp only [passed,handAt_succ]
    rw [hnext,hbits,sweep]
    have hready := hnone k (Nat.lt_succ_self k)
    by_cases hev : r.evictable (r.handAt k)
    · have hact : (r.passed k).active (r.passed k).hand := h.active _ hev
      have hev' : (r.passed k).evictable (r.passed k).hand := hev
      have hbit : (r.passed k).referenceBits (r.passed k).hand := by
        have hr : r.referenceBits (r.handAt k) := by simpa [ready,hev] using hready
        simp [passed,hr,hfresh]
      rw [if_neg (by simp [hact,hev']),if_pos hbit,if_pos hev]
      rfl
    · have hev' : (r.passed k).evictable (r.passed k).hand = false := by simpa [passed] using hev
      rw [if_pos (by simp [hev']),if_neg hev]
      rfl

theorem sweep_ready (h : r.Consistent) {i steps : ℕ} (hi : i < r.capacity) (hsteps : i < steps)
    (hready : r.ready (r.handAt i)) (hnone : ∀ j < i, r.ready (r.handAt j) = false) :
    (sweep steps r).1 = some (r.handAt i) := by
  obtain ⟨n,rfl⟩ := Nat.exists_eq_add_of_lt hsteps
  rw [show i + n + 1 = i + (n + 1) by omega,sweep_passed h hi.le hnone,sweep]
  simp only [ready,Bool.and_eq_true,Bool.not_eq_true'] at hready
  have hact : (r.passed i).active (r.passed i).hand := h.active _ hready.1
  have hev : (r.passed i).evictable (r.passed i).hand := hready.1
  have hbit : (r.passed i).referenceBits (r.passed i).hand = false := by simp [passed,hready.2]
  rw [if_neg (by simp [hact,hev]),if_neg (by simp [hbit])]
  rfl

/-- After a whole turn the hand is back, and every candidate is ready. -/
theorem ready_passed (h : r.Consistent) {i : ℕ} (hi : i < r.capacity) :
    (r.passed r.capacity).handAt i = r.handAt i ∧
      (r.passed r.capacity).ready (r.handAt i) = r.evictable (r.handAt i) := by
  have hhand := h.hand (by omega)
  have hback : (r.passed r.capacity).hand = r.hand := by
    simp [passed,handAt,Nat.mod_eq_of_lt hhand]
  refine ⟨by simp only [handAt,hback]; rfl,?_⟩
  have hpassed : ∃ j < r.capacity, r.handAt j = r.handAt i := ⟨i,hi,rfl⟩
  simp only [ready,passed,hpassed,decide_true,Bool.and_true]
  cases r.evictable (r.handAt i) <;> simp

theorem Consistent.passed (h : r.Consistent) (k : ℕ) : (r.passed k).Consistent :=
  ⟨h.inRange,h.active,h.count,fun hc => Nat.mod_lt _ hc⟩

theorem not_evictable_of_card (h : r.Consistent) (hc : r.candidates.card = 0) (f : FrameId) :
    r.evictable f = false := by
  by_contra hf
  have hf : r.evictable f := by simpa using hf
  have hmem := mem_candidates.mpr ⟨h.inRange f hf,hf⟩
  simp [Finset.card_eq_zero.mp hc] at hmem

theorem firstAt_of_never {p : FrameId → Bool} (hp : ∀ f, p f = false) : r.firstAt p = none :=
  List.find?_eq_none.mpr fun f _ => by simp [hp f]

/-- In the second turn every candidate is ready. -/
theorem sweep_turns (h : r.Consistent) {f : FrameId} (hnone : r.firstAt r.ready = none)
    (hf : r.firstAt r.evictable = some f) : (sweep (r.capacity * 2) r).1 = some f := by
  rw [Nat.mul_two,sweep_passed h le_rfl (firstAt_eq_none hnone)]
  obtain ⟨i,hi,rfl,hev,hbefore⟩ := firstAt_eq_some hf
  obtain ⟨hat,hready⟩ := ready_passed h hi
  have hearlier : ∀ j < i, (r.passed r.capacity).ready ((r.passed r.capacity).handAt j) = false := by
    intro j hj
    obtain ⟨hat,hready⟩ := ready_passed h (hj.trans hi)
    rw [hat,hready]
    exact hbefore j hj
  rw [sweep_ready (h.passed r.capacity) hi hi (by rw [hat,hready]; exact hev) hearlier,hat]

theorem sweep_first (h : r.Consistent) (hcapacity : 0 < r.capacity) (hc : r.candidates.card ≠ 0) :
    (sweep (r.capacity * 2) r).1 = (r.firstAt r.ready).or (r.firstAt r.evictable) := by
  rcases hfirst : r.firstAt r.ready with - | f
  · rcases hany : r.firstAt r.evictable with - | f
    · obtain ⟨f,hf⟩ := Finset.card_pos.mp (Nat.pos_of_ne_zero hc)
      obtain ⟨hlt,hev⟩ := mem_candidates.mp hf
      obtain ⟨i,hi,rfl⟩ := exists_handAt (h.hand hcapacity) hlt
      simp [firstAt_eq_none hany i hi] at hev
    · exact sweep_turns h hfirst hany
  · obtain ⟨i,hi,rfl,hready,hbefore⟩ := firstAt_eq_some hfirst
    rw [sweep_ready h hi (by omega) hready hbefore]
    rfl

/-- `Victim` finds the first ready frame, or else the first candidate. -/
theorem victim_first (h : r.Consistent) :
    (victim r).1.toOption = (r.firstAt r.ready).or (r.firstAt r.evictable) := by
  unfold victim
  split
  · next hcount =>
    have hc : r.candidates.card = 0 := by
      simp only [Bool.or_eq_true,decide_eq_true_eq] at hcount
      rcases hcount with hcount | hcap
      · exact h.count ▸ hcount
      · simp [candidates,hcap]
    have hnever := not_evictable_of_card h hc
    rw [firstAt_of_never hnever,firstAt_of_never fun f => by simp [ready,hnever f]]
    rfl
  · next hcount =>
    simp only [Bool.or_eq_true,decide_eq_true_eq,not_or,h.count] at hcount
    dsimp only
    rw [← sweep_first h (Nat.pos_of_ne_zero hcount.2) hcount.1]
    rcases (sweep (r.capacity * 2) r).1 with - | f <;> rfl

open Policy in
theorem steps_consistent {capacity : ℕ} (calls : List Call) {t : Trace ClockReplacer}
    (h : t.replacer.capacity = capacity ∧ t.replacer.Consistent) :
    (calls.foldl (step victim capacity) t).replacer.capacity = capacity ∧
      (calls.foldl (step victim capacity) t).replacer.Consistent := by
  induction calls generalizing t with
  | nil => exact h
  | cons c calls ih => exact ih (step_consistent h c)

theorem create_consistent (capacity : ℕ) :
    (Replacer.create capacity : ClockReplacer).Consistent := by
  refine ⟨fun f hf => ?_,fun f hf => ?_,?_,fun hc => hc⟩
  · simp [Replacer.create] at hf
  · simp [Replacer.create] at hf
  · simp [Replacer.create,candidates]

open Policy in
/-- In every run the candidates are active and counted, the candidates are those of the history,
and `Victim` takes the first candidate with a clear bit in the order of the hand, the first
candidate at all if every bit is set, and fails only if there is none. -/
theorem run_clock (capacity : ℕ) (calls : List Call) :
    let t := run ClockReplacer.victim capacity calls
    let r := t.replacer
    (∀ f, r.evictable f → f < capacity ∧ r.active f) ∧
    r.evictableCount = ((Finset.range capacity).filter fun f => r.evictable f).card ∧
    (∀ f, r.evictable f = Policy.evictable f t.history) ∧
    ((∃ f, r.victim.1 = .ok f) ↔ ∃ f, r.evictable f) ∧
    r.victim.1.toOption = (r.firstAt r.ready).or (r.firstAt r.evictable) := by
  intro t r
  obtain ⟨hcap,h⟩ : r.capacity = capacity ∧ r.Consistent :=
    steps_consistent calls ⟨rfl,create_consistent capacity⟩
  have hfirst := victim_first h
  refine ⟨fun f hf => ⟨hcap ▸ h.inRange f hf,h.active f hf⟩,?_,
    run_agrees capacity (fun _ _ _ => victim_ok) (fun _ _ _ => victim_error) calls,?_,hfirst⟩
  · rw [h.count,candidates,hcap]
  · constructor
    · rintro ⟨f,hf⟩
      exact ⟨f,(Replacer.victim_evictable r f _ (victim_ok (Prod.ext hf rfl))).1⟩
    · rintro ⟨f,hf⟩
      have hlt := h.inRange f hf
      obtain ⟨i,hi,rfl⟩ := exists_handAt (h.hand (Nat.zero_lt_of_lt hlt)) hlt
      rcases hv : r.victim.1 with e | g
      · rw [hv] at hfirst
        have hnone := (Option.or_eq_none_iff.mp hfirst.symm).2
        simp [firstAt_eq_none hnone i hi] at hf
      · exact ⟨g,rfl⟩

end ClockReplacer
end Buffer
end OurSql
