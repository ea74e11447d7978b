import Mathlib
import OurSql.Buffer.Serial

/-! The frames between complete operations: one place for each, one frame for a page,
and the new page that takes the number of a cached one. -/
namespace OurSql
namespace Buffer

set_option linter.unusedSectionVars false

variable {β ρ : Type} [Zero β] [DecidableEq β] [Replacer ρ]

/-- Where a frame can be between operations. -/
inductive Place
  | free | candidate | pinned | reserved
  deriving DecidableEq, Repr

namespace Threads

/-- A page that is reserved by its last user stays reserved, whether he has let go of it
or not. -/
def IsIn (s : Threads β ρ) (f : FrameId) : Place → Prop
  | .free => f ∈ s.pool.freeFrames
  | .candidate => s.evictable f
  | .pinned => (s.frame f).pinCount ≠ 0 ∧ (s.frame f).state ≠ .deletePending
  | .reserved => (s.frame f).state = .deletePending

structure Bookkeeping (n : ℕ) (s : Threads β ρ) : Prop where
  injective : ∀ p q f, s.pool.pageTable p = some f → s.pool.pageTable q = some f → p = q
  agrees : ∀ p f, s.pool.pageTable p = some f ↔ p ≠ invalidPageId ∧ (s.frame f).pageId = p
  nodup : s.pool.freeFrames.Nodup
  place : ∀ f, f < n → ∃! k, s.IsIn f k
  outside : ∀ f, n ≤ f → ∀ k, ¬ s.IsIn f k
  candidate : ∀ f, s.evictable f ↔ (s.frame f).state = .valid ∧ (s.frame f).pinCount = 0 ∧
    s.pool.deletePending (s.frame f).pageId = false
  pins : ∑ f ∈ Finset.range n, (s.frame f).pinCount = s.guards.length

/-- A pool of `n` frames over a database that is opened. -/
def Opened (n : ℕ) (s : Threads β ρ) : Prop := ∃ policy lsn, s = initial n policy lsn

section Runs

variable {n : ℕ} {s s' : Threads β ρ}

theorem Placed.unrestored (h : s.Placed n) (f : FrameId) : s.Unrestored f := by
  intro o ho hr
  have hp := (h.sole ho).2.1
  cases o <;> simp_all [Op.isRestore, Op.Placed]

theorem initial_placed (n : ℕ) (policy : FlushPolicy) (lsn : Lsn) :
    (initial n policy lsn : Threads β ρ).Placed n where
  at_ f := by
    refine ⟨?_,fun hs => absurd rfl hs,fun _ => ⟨rfl,rfl⟩,fun hs => absurd rfl hs,
      fun hp => absurd rfl hp,?_,?_⟩
    · simp [initial, BufferPool.create, Frame.free]
    · intro q hq
      cases hq
    · simp [initial, BufferPool.create, Frame.free]
  turn := fun _ => id

theorem reach_placed (h : Transition.Reach (Opened n) FreshStep s) :
    s.Inv ∧ s.WaitsValid ∧ s.Placed n := by
  refine h.invariant (P := fun s => s.Inv ∧ s.WaitsValid ∧ s.Placed n) ?_ ?_
  · rintro s ⟨policy,lsn,rfl⟩
    exact ⟨initial_inv n policy lsn,fun o hx => absurd hx List.not_mem_nil,
      initial_placed n policy lsn⟩
  · intro s a s' ⟨hi,hw,hp⟩ hstep
    exact ⟨next_inv hi hw (fun f _ => hp.unrestored f) hstep.2.2.2,
      next_allOps hw (allows_waitsValid a) hstep.2.2.2,next_placed hp hi hstep⟩

/-- Guards are counted frame by frame. -/
theorem sum_guardsAt {gs : List (Guard β)} (h : ∀ g ∈ gs, g.frame < n) :
    ∑ f ∈ Finset.range n, (gs.filter fun g => g.frame = f).length = gs.length := by
  induction gs with
  | nil => simp
  | cons g gs ih =>
    have hg := h g List.mem_cons_self
    have hstep : ∀ f, ((g::gs).filter fun x => x.frame = f).length =
        (gs.filter fun x => x.frame = f).length + if g.frame = f then 1 else 0 := fun f => by
      by_cases hf : g.frame = f <;> simp [hf]
    simp only [hstep]
    rw [Finset.sum_add_distrib,ih fun x hx => h x (List.mem_cons_of_mem _ hx),
      Finset.sum_ite_eq]
    simp [hg]

/-- With nobody inside the pool, the tables say everything. -/
theorem Placed.bookkeeping (h : s.Placed n) (hi : s.Inv) (ho : s.ops = []) :
    s.Bookkeeping n := by
  have hmap : ∀ p f, s.pool.pageTable p = some f → (s.frame f).pageId = p ∧ p ≠ invalidPageId :=
    fun p f hp => Placed.mapped hi ho hp
  have hpins : ∀ f, (s.frame f).pinCount = (s.guardsAt f).length := fun f => by
    have hp := (hi.at_ f).pins
    have hnil : s.opsAt f = [] := by simp [opsAt, ho]
    rw [hnil] at hp
    exact hp
  have hheld : ∀ f, (s.frame f).pinCount ≠ 0 → f < n := fun f hz =>
    (h.at_ f).held fun hs => hz ((h.at_ f).blank hs).2
  refine ⟨fun p q f hp hq => (hmap p f hp).1.symm.trans (hmap q f hq).1,fun p f => ?_,
    hi.freeNodup,fun f hf => ?_,fun f hf k hk => ?_,fun f => ?_,?_⟩
  · constructor
    · exact fun hp => ⟨(hmap p f hp).2,(hmap p f hp).1⟩
    · rintro ⟨hne,rfl⟩
      exact (h.at_ f).owns hne
  · have hfree : s.IsIn f .free ↔ f < n ∧ (s.frame f).state = .empty := (h.at_ f).free
    have hcand : s.IsIn f .candidate ↔ (s.frame f).state = .valid ∧ (s.frame f).pinCount = 0 :=
      (h.at_ f).candidate
    by_cases hs : (s.frame f).state = .empty
    · have hz : (s.frame f).pinCount = 0 := ((h.at_ f).blank hs).2
      refine ⟨.free,hfree.mpr ⟨hf,hs⟩,fun k hk => ?_⟩
      cases k with
      | free => rfl
      | candidate => simp [hcand, hs] at hk
      | pinned => exact absurd hz hk.1
      | reserved => simp [IsIn, hs] at hk
    · rcases h.resting ho hs with hv | hd
      · have hv' : (s.frame f).state = .valid := hv
        by_cases hz : (s.frame f).pinCount = 0
        · refine ⟨.candidate,hcand.mpr ⟨hv',hz⟩,fun k hk => ?_⟩
          cases k with
          | free => exact absurd (hfree.mp hk).2 hs
          | candidate => rfl
          | pinned => exact absurd hz hk.1
          | reserved => simp [IsIn, hv'] at hk
        · refine ⟨.pinned,⟨hz,by simp [hv']⟩,fun k hk => ?_⟩
          cases k with
          | free => exact absurd (hfree.mp hk).2 hs
          | candidate => exact absurd (hcand.mp hk).2 hz
          | pinned => rfl
          | reserved => simp [IsIn, hv'] at hk
      · have hd' : (s.frame f).state = .deletePending := hd
        refine ⟨.reserved,hd',fun k hk => ?_⟩
        cases k with
        | free => exact absurd (hfree.mp hk).2 hs
        | candidate => simp [hcand, hd'] at hk
        | pinned => exact absurd hd' hk.2
        | reserved => rfl
  · refine absurd hf (Nat.not_le_of_lt ?_)
    cases k with
    | free => exact ((h.at_ f).free.mp hk).1
    | candidate => exact (h.at_ f).held (by simp [((h.at_ f).candidate.mp hk).1])
    | pinned => exact hheld f hk.1
    | reserved => exact (h.at_ f).held (by simp [show (s.pool.frames f).state = _ from hk])
  · have hcand : s.evictable f ↔ (s.frame f).state = .valid ∧ (s.frame f).pinCount = 0 :=
      (h.at_ f).candidate
    rw [hcand]
    refine and_congr_right fun hv => ⟨fun hz => ⟨hz,?_⟩,And.left⟩
    have hv' : (s.pool.frames f).state = .valid := hv
    have hname := (h.at_ f).named (by simp [hv']) (by simp [hv'])
    exact h.not_pending (by simp [hv']) ((h.at_ f).owns hname)
  · simp only [hpins]
    refine sum_guardsAt fun g hg => hheld g.frame ?_
    exact hi.live_pinned hg

end Runs

/-! ### A new page with the number of a cached one -/

section Reused

def scribe : Access := ⟨true,false⟩

def guardOn (f : FrameId) (p : PageId) (hold : Hold) (before : Option ℕ) : Guard ℕ :=
  ⟨f,p,scribe,hold,false,before⟩

/-- A guard taken, latched and given back. -/
def letGo (f : FrameId) (p : PageId) : List (Action ℕ) :=
  [.latch (guardOn f p .waiting none),.unlatch (guardOn f p .latched (some 0)),
    .release (guardOn f p .closed (some 0))]

def takeNew (f : FrameId) (p : PageId) : List (Action ℕ) :=
  [.newPage scribe,.newIo ⟨f,true⟩ invalidPageId scribe (.ok ()) (.ok ()) (.ok p),
    .newDone ⟨f,true⟩ invalidPageId scribe (.ok p)]

/-- Page 1 is made, deleted, and fetched although it is free. -/
def fetchDeleted : List (Action ℕ) :=
  takeNew 0 1 ++ letGo 0 1 ++
  [.beginDeletion 1 0,.finalize 1,.finalizeIo 1 0 (.ok ()) (.ok ()) (.ok ()),
    .finalizeDone 1 0 (.ok ()),.fetch 1 scribe,
    .loadIo 1 ⟨1,true⟩ invalidPageId scribe (.ok ()) (.ok ()) (.ok 0),
    .loadDone 1 ⟨1,true⟩ invalidPageId scribe (.ok ())] ++ letGo 1 1

def serialNext (s : Threads ℕ FIFOReplacer) (a : Action ℕ) : Option (Threads ℕ FIFOReplacer) :=
  if (a.starts = true → s.ops = []) ∧ a.isRestore = false then s.next a else none

theorem serialNext_step {s s' : Threads ℕ FIFOReplacer} {a : Action ℕ}
    (h : serialNext s a = some s') : SerialStep s a s' := by
  simp only [serialNext] at h
  split at h
  · next hc => exact ⟨hc.1,hc.2,h⟩
  · cases h

/-- The disk hands page 1 out again, and two frames hold it. -/
theorem newPage_of_cached : (Transition.exec serialNext
    (initial 2 .writeBack 0 : Threads ℕ FIFOReplacer) (fetchDeleted ++ takeNew 0 1)).map
      (fun s => (s.ops,s.pool.pageTable 1,(s.frame 0).pageId,(s.frame 1).pageId)) =
        some ([],some 0,1,1) := by
  decide

theorem page_in_two_frames : ¬ ∀ (n : ℕ) (s : Threads ℕ FIFOReplacer),
    Transition.Reach (Opened n) SerialStep s → s.ops = [] → s.Bookkeeping n := by
  intro h
  obtain ⟨s,hx,hs⟩ := Option.map_eq_some_iff.mp newPage_of_cached
  simp only [Prod.mk.injEq] at hs
  have hreach : Transition.Reach (Opened 2) (Transition.StepOf serialNext) s :=
    Transition.exec_reach (.init ⟨.writeBack,0,rfl⟩) hx
  have hserial : Transition.Reach (Opened 2) SerialStep s :=
    hreach.mono fun t a t' hstep => serialNext_step hstep
  have htab := ((h 2 s hserial hs.1).agrees 1 1).mpr ⟨by decide,hs.2.2.2⟩
  rw [hs.2.1] at htab
  cases htab

/-- A new page is refused when its number is in use. -/
def freshNext (s : Threads ℕ FIFOReplacer) (a : Action ℕ) : Option (Threads ℕ FIFOReplacer) :=
  match a with
  | .newDone _ _ _ (.ok p) =>
    if s.pool.pageTable p = none ∧ s.pool.deletePending p = false then serialNext s a else none
  | _ => serialNext s a

theorem freshNext_step {s s' : Threads ℕ FIFOReplacer} {a : Action ℕ}
    (h : freshNext s a = some s') : FreshStep s a s' := by
  unfold freshNext at h
  split at h
  · split at h
    · next hc =>
      refine ⟨⟨fun f hf => ?_,hc.2⟩,serialNext_step h⟩
      rw [hc.1] at hf
      cases hf
    · cases h
  · next hne =>
    refine ⟨?_,serialNext_step h⟩
    cases a with
    | newDone sel oldPage k outcome =>
      cases outcome with
      | ok p => exact absurd rfl (hne sel oldPage k p)
      | error e => trivial
    | _ => trivial

/-- In every run of whole operations in which new pages get fresh numbers, the books are
right whenever nobody is inside the pool. -/
theorem frames_accounted {n : ℕ} {s : Threads β ρ}
    (h : Transition.Reach (Opened n) FreshStep s) (ho : s.ops = []) :
    s.Bookkeeping n := by
  obtain ⟨hi,-,hp⟩ := reach_placed h
  exact hp.bookkeeping hi ho

theorem frames_accounted_fetchDeleted : ∃ s : Threads ℕ FIFOReplacer,
    s.guards = [guardOn 0 2 .waiting none] ∧ s.pool.pageTable 1 = some 1 ∧ s.Bookkeeping 2 := by
  have hrun : (Transition.exec freshNext (initial 2 .writeBack 0)
      (fetchDeleted ++ takeNew 0 2)).map (fun s => (s.ops,s.guards,s.pool.pageTable 1)) =
        some ([],[guardOn 0 2 .waiting none],some 1) := by decide
  obtain ⟨s,hx,hs⟩ := Option.map_eq_some_iff.mp hrun
  simp only [Prod.mk.injEq] at hs
  refine ⟨s,hs.2.1,hs.2.2,frames_accounted ?_ hs.1⟩
  have hreach : Transition.Reach (Opened 2) (Transition.StepOf freshNext) s :=
    Transition.exec_reach (.init ⟨.writeBack,0,rfl⟩) hx
  exact hreach.mono fun t a t' hstep => freshNext_step hstep

end Reused

end Threads
end Buffer
end OurSql
