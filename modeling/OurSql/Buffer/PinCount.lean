import Mathlib
import OurSql.Buffer.Steps

/-! Whole runs of the buffer pool: what the pins promise to the holder of a guard, and
the page restore that breaks it. -/
namespace OurSql
namespace Buffer

set_option linter.unusedSectionVars false

open BufferPool (Fetch Flush Release Finalize Restore)

variable {β ρ : Type} [Zero β] [DecidableEq β] [Replacer ρ]

/-- `RestorePage`. -/
def Action.isRestore : Action β → Bool
  | .restorePage _ _ | .restoreIo _ _ _ | .restoreDone _ _ => true
  | _ => false

namespace Threads

/-- A property of operations that every step may assume of the ones it adds: a fetch
waits only for a page number that passed `ValidateDataPageId`. -/
structure Allows (a : Action β) (P : Op β → Prop) : Prop where
  waits : ∀ p k, p ≠ invalidPageId → P (.fetchWait p k)
  restores : a.isRestore = true → ∀ o, o.isRestore = true → P o
  others : ∀ o, (∀ p k, o ≠ .fetchWait p k) → o.isRestore = false → P o

def AllOps (s : Threads β ρ) (P : Op β → Prop) : Prop := ∀ o ∈ s.ops, P o

section Ops

variable {s s' : Threads β ρ} {P : Op β → Prop} {a : Action β}

theorem AllOps.of_sub (h : s.AllOps P) {o : Op β} (ho : P o)
    (hsub : ∀ x ∈ s'.ops, x = o ∨ x ∈ s.ops) : s'.AllOps P := by
  intro x hx
  rcases hsub x hx with rfl | hm
  · exact ho
  · exact h x hm

theorem AllOps.of_subset (h : s.AllOps P) (hsub : s'.ops ⊆ s.ops) : s'.AllOps P :=
  fun x hx => h x (hsub hx)

theorem dropOp_allOps (h : s.AllOps P) (o : Op β) : (s.dropOp o).AllOps P :=
  h.of_subset fun _ hx => List.mem_of_mem_erase hx

theorem AllOps.turns (h : s.AllOps P) {o q : Op β} {b : BufferPool β ρ} (ht : Turns s s' o q b)
    (hq : P q) : s'.AllOps P :=
  h.of_sub hq fun _ hx => (List.mem_cons.mp (ht.ops ▸ hx)).imp id List.mem_of_mem_erase

theorem Allows.other (hp : Allows a P) (o : Op β) (hw : ∀ p k, o ≠ .fetchWait p k := by simp)
    (hr : o.isRestore = false := by rfl) : P o := hp.others o hw hr

theorem fetched_allOps (h : s.AllOps P) (ha : Allows a P) {p : PageId} {k : Access}
    {x : Fetch × BufferPool β ρ} (hp : x.1 = .wait → P (.fetchWait p k)) :
    (s.fetched p k x).AllOps P := by
  obtain ⟨o,b⟩ := x
  cases o with
  | failed e => exact h
  | hit f => exact h
  | wait => exact h.of_sub (hp rfl) fun x hx => List.mem_cons.mp hx
  | load sel oldPage =>
    exact h.of_sub (ha.other (.load p sel oldPage k)) fun x hx => List.mem_cons.mp hx

theorem flushed_allOps (h : s.AllOps P) (ha : Allows a P) {p : PageId}
    {x : Flush × BufferPool β ρ} : (s.flushed p x).AllOps P := by
  obtain ⟨o,b⟩ := x
  cases o with
  | done st => exact h
  | blocked f => exact h.of_sub (ha.other (.flushBlocked p f)) fun x hx => List.mem_cons.mp hx
  | waiting f => exact h.of_sub (ha.other (.flushing p f)) fun x hx => List.mem_cons.mp hx

theorem fetchPage_wait {b b' : BufferPool β ρ} {p : PageId} (h : b.fetchPage p = (.wait,b')) :
    p ≠ invalidPageId := by
  intro he
  simp [BufferPool.fetchPage, BufferPool.validateDataPageId, he, fail] at h

theorem next_allOps (h : s.AllOps P) (ha : Allows a P) (hn : s.next a = some s') :
    s'.AllOps P := by
  cases a with
  | fetch p k =>
    obtain rfl := Option.some.inj hn
    exact fetched_allOps h ha fun hx => ha.waits p k (fetchPage_wait (Prod.ext hx rfl))
  | wakeFetch p k =>
    simp only [next] at hn
    split at hn
    · next hc =>
      obtain rfl := Option.some.inj hn
      exact fetched_allOps (dropOp_allOps h _) ha fun _ => h _ hc.1
    · simp at hn
  | flushPage p =>
    obtain rfl := Option.some.inj hn
    exact flushed_allOps h ha
  | wakeFlush p f =>
    simp only [next] at hn
    split at hn
    · obtain rfl := Option.some.inj hn
      exact flushed_allOps (dropOp_allOps h _) ha
    · simp at hn
  | loadIo p sel oldPage k wal write loaded =>
    obtain ⟨status,ht⟩ := next_loadIo hn
    exact h.turns ht (ha.other _)
  | newIo sel oldPage k wal write allocated =>
    obtain ⟨-,status,ht⟩ := next_newIo hn
    exact h.turns ht (ha.other _)
  | flushIo p f wal write =>
    rcases next_flushIo hn with ⟨-,-,rfl⟩ | ⟨-,status,ht⟩
    · exact dropOp_allOps h _
    · exact h.turns ht (ha.other _)
  | writeThroughIo p f wal write =>
    obtain ⟨status,ht⟩ := next_writeThroughIo hn
    exact h.turns ht (ha.other _)
  | finalizeIo p f wal write deallocate =>
    obtain ⟨status,ht⟩ := next_finalizeIo hn
    exact h.turns ht (ha.other _)
  | newPage k =>
    simp only [next] at hn
    split at hn
    · next sel oldPage b he =>
      obtain rfl := Option.some.inj hn
      exact h.of_sub (ha.other (.alloc sel oldPage k)) fun x hx => List.mem_cons.mp hx
    · obtain rfl := Option.some.inj hn
      exact h
  | restoreIo f image write =>
    exact h.turns (next_restoreIo hn) (ha.restores rfl (.restored f write) rfl)
  | restorePage p image =>
    simp only [next] at hn
    split at hn
    · next f b he =>
      obtain rfl := Option.some.inj hn
      exact h.of_sub (ha.restores rfl (.restoring f image) rfl) fun x hx => List.mem_cons.mp hx
    · obtain rfl := Option.some.inj hn
      exact h
  | finalize p =>
    simp only [next] at hn
    split at hn
    · obtain rfl := Option.some.inj hn
      exact h
    · obtain rfl := Option.some.inj hn
      exact h.of_sub (ha.other (.finalizingUncached p)) fun x hx => List.mem_cons.mp hx
    · next f b he =>
      obtain rfl := Option.some.inj hn
      exact h.of_sub (ha.other (.finalizing p f)) fun x hx => List.mem_cons.mp hx
  | release g =>
    simp only [next] at hn
    split at hn
    · split at hn
      · obtain rfl := Option.some.inj hn
        exact h
      · obtain rfl := Option.some.inj hn
        exact h.of_sub (ha.other (.writeThrough g.page g.frame)) fun x hx =>
          List.mem_cons.mp hx
    · simp at hn
  | beginDeletion p expectedPins =>
    obtain rfl := Option.some.inj hn
    exact h
  | cancelDeletion p =>
    obtain rfl := Option.some.inj hn
    exact h
  | _ =>
    -- the other steps only drop operations
    refine h.of_subset ?_
    simp only [next] at hn
    repeat' split at hn
    all_goals first
      | (obtain rfl := Option.some.inj hn
         first | exact List.Subset.refl _ | exact List.erase_subset)
      | simp at hn

end Ops

/-! ### Steps and runs -/

/-- The step puts a pin on the frame of a cached page, or reserves it for deletion. -/
def Joins (s : Threads β ρ) (f : FrameId) : Action β → Prop
  | .fetch p _ => s.pool.pageTable p = some f ∧ s.pool.deletePending p = false
  | .wakeFetch p _ => s.pool.pageTable p = some f ∧ s.pool.deletePending p = false ∧
      s.pool.loadFailures p = none
  | .flushPage p => s.pool.pageTable p = some f ∧ (s.frame f).isDirty = true
  | .wakeFlush _ f' => f' = f ∧ (s.frame f).isDirty = true
  | .beginDeletion p expectedPins =>
      s.pool.pageTable p = some f ∧ (s.frame f).pinCount = expectedPins
  | _ => False

/-- Nobody joins a frame between the two sections of a page restore. -/
def Steady (s : Threads β ρ) (a : Action β) : Prop := ∀ f, s.Joins f a → s.Unrestored f

def SteadyStep (s : Threads β ρ) (a : Action β) (s' : Threads β ρ) : Prop :=
  s.Steady a ∧ s.next a = some s'

def Initial (s : Threads β ρ) : Prop :=
  ∃ poolSize policy lsn, s = initial poolSize policy lsn

/-- Nobody waits for `INVALID_PAGE_ID`. -/
def WaitsValid (s : Threads β ρ) : Prop :=
  s.AllOps fun o => ∀ p k, o = .fetchWait p k → p ≠ invalidPageId

theorem allows_waitsValid (a : Action β) :
    Allows a fun o => ∀ p k, o = .fetchWait p k → p ≠ invalidPageId where
  waits p k hp q k' he := by
    cases he
    exact hp
  restores _ o ho p k he := by
    subst he
    cases ho
  others o ho _ p k he := absurd he (ho p k)

theorem next_inv {s s' : Threads β ρ} (h : s.Inv) (hw : s.WaitsValid) {a : Action β}
    (hr : s.Steady a) (hn : s.next a = some s') : s'.Inv := by
  cases a with
  | fetch p k => exact fetch_inv h (fun f hf hd => hr f ⟨hf,hd⟩) hn
  | wakeFetch p k =>
    by_cases hmem : Op.fetchWait p k ∈ s.ops
    · exact wakeFetch_inv h (hw _ hmem p k rfl) (fun f hf hd hl => hr f ⟨hf,hd,hl⟩) hn
    · simp [next, hmem] at hn
  | loadIo p sel oldPage k wal write loaded => exact loadIo_inv h hn
  | loadDone p sel oldPage k outcome => exact loadDone_inv h hn
  | newPage k => exact newPage_inv h hn
  | newIo sel oldPage k wal write allocated => exact newIo_inv h hn
  | newDone sel oldPage k outcome => exact newDone_inv h hn
  | latch g => exact latch_inv h hn
  | write g page => exact write_inv h hn
  | markDirty g => exact markDirty_inv h hn
  | append g works => exact append_inv h hn
  | record g lsn => exact record_inv h hn
  | unlatch g => exact unlatch_inv h hn
  | release g => exact release_inv h hn
  | flushPage p => exact flushPage_inv h (fun f hf hd => hr f ⟨hf,hd⟩) hn
  | wakeFlush p f => exact wakeFlush_inv h (fun hd => hr f ⟨rfl,hd⟩) hn
  | flushIo p f wal write => exact flushIo_inv h hn
  | writeThroughIo p f wal write => exact writeThroughIo_inv h hn
  | flushDone f outcome => exact flushDone_inv h hn
  | beginDeletion p expectedPins => exact beginDeletion_inv h (fun f hf hp => hr f ⟨hf,hp⟩) hn
  | cancelDeletion p => exact cancelDeletion_inv h hn
  | finalize p => exact finalize_inv h hn
  | finalizeIo p f wal write deallocate => exact finalizeIo_inv h hn
  | finalizeDone p f outcome => exact finalizeDone_inv h hn
  | finalizeUncached p deallocate => exact finalizeUncached_inv h hn
  | restorePage p image => exact restorePage_inv h hn
  | restoreIo f image write => exact restoreIo_inv h hn
  | restoreDone f outcome => exact restoreDone_inv h hn

theorem initial_inv (poolSize : ℕ) (policy : FlushPolicy) (lsn : Lsn) :
    (initial poolSize policy lsn : Threads β ρ).Inv where
  at_ f := by
    have hnot : ¬ (initial poolSize policy lsn : Threads β ρ).evictable f := by
      simp [evictable, initial, BufferPool.create]
    refine ⟨rfl,?_,?_,?_,?_,fun he => absurd he hnot,fun _ => ⟨rfl,rfl,hnot⟩⟩
    · exact fun _ => Nat.zero_le 1
    · exact fun o ho => absurd ho List.not_mem_nil
    · exact fun g hg => absurd hg List.not_mem_nil
    · intro p hp
      simp [initial, BufferPool.create] at hp
  freeNodup := List.nodup_range

theorem reach_inv {s : Threads β ρ} (h : Transition.Reach Initial SteadyStep s) :
    s.Inv ∧ s.WaitsValid := by
  refine h.invariant (P := fun s => s.Inv ∧ s.WaitsValid) ?_ ?_
  · rintro s ⟨n,policy,lsn,rfl⟩
    exact ⟨initial_inv n policy lsn,fun o hx => absurd hx List.not_mem_nil⟩
  · intro s a s' hs hstep
    exact ⟨next_inv hs.1 hs.2 hstep.1 hstep.2,next_allOps hs.2 (allows_waitsValid a) hstep.2⟩

/-- What a pin promises. -/
structure Protected (s : Threads β ρ) : Prop where
  pins : ∀ f, (s.frame f).pinCount =
    s.guards.countP (fun g => g.frame = f) + s.ops.countP (fun o => o.frame? = some f)
  victim : ∀ g ∈ s.guards, ∀ f r, Replacer.victim s.pool.replacer = some (f,r) → f ≠ g.frame
  selected : ∀ g ∈ s.guards, ∀ sel b, s.pool.selectFrame = (.ok sel,b) → sel.frameId ≠ g.frame
  page : ∀ g ∈ s.guards, (s.frame g.frame).pageId = g.page
  release : ∀ g ∈ s.guards, ∀ dirty, ∀ e,
    (s.pool.releaseGuard g.frame g.page dirty).1 = .done (.error e) →
      e ≠ ⟨.internalError,"PageGuard 对应的 frame 已失效"⟩ ∧
      e ≠ ⟨.invalidArgument,"页面 pin_count 已经为 0: " ++ toString g.page⟩

theorem unpinFrame_error {b : BufferPool β ρ} {f : FrameId} {e : Failure}
    (h : (b.unpinFrame f).1 = .error e) : e.code = .alreadyExists := by
  simp only [BufferPool.unpinFrame] at h
  split at h
  · simp only [unpinStatus] at h
    split at h
    · obtain rfl := Except.error.inj h
      rfl
    · cases h
  · cases h

theorem Inv.live_pinned {s : Threads β ρ} (h : s.Inv) {g : Guard β} (hg : g ∈ s.guards) :
    (s.frame g.frame).pinCount ≠ 0 := by
  have hpos := List.length_pos_of_mem (mem_guardsAt.mpr ⟨hg,rfl⟩)
  have hpins := (h.at_ g.frame).pins
  intro hz
  rw [hz] at hpins
  omega

theorem Inv.selected {s : Threads β ρ} (h : s.Inv) {g : Guard β} (hg : g ∈ s.guards)
    {sel : FrameSelection} {b : BufferPool β ρ} (hs : s.pool.selectFrame = (.ok sel,b)) :
    sel.frameId ≠ g.frame := by
  have hpin := h.live_pinned hg
  rcases selectFrame_cases s.pool with ⟨_,_,he,-⟩ | ⟨f,rest,hf,-,he⟩ | ⟨f,r,-,-,hz,-,-,he⟩ <;>
    rw [hs] at he
  · simp at he
  · obtain rfl := Except.ok.inj (Prod.mk.inj he).1
    rintro rfl
    have hmem : g.frame ∈ s.pool.freeFrames := by simp [hf]
    exact hpin ((h.at_ _).unused hmem).1
  · obtain rfl := Except.ok.inj (Prod.mk.inj he).1
    rintro rfl
    exact hpin hz

theorem Inv.protected {s : Threads β ρ} (h : s.Inv) : s.Protected where
  pins f := by
    have hpins := (h.at_ f).pins
    rw [guardsAt,opsAt,← List.countP_eq_length_filter,← List.countP_eq_length_filter] at hpins
    exact hpins
  victim g hg f r hv := by
    rintro rfl
    have he : s.evictable g.frame := (Replacer.victim_evictable _ _ _ hv).1
    exact h.live_pinned hg ((h.at_ _).candidate he).1
  selected g hg sel b hs := h.selected hg hs
  page g hg := (h.at_ _).guarded g (mem_guardsAt.mpr ⟨hg,rfl⟩)
  release g hg dirty e he := by
    have hpage : (s.pool.frames g.frame).pageId = g.page :=
      (h.at_ _).guarded g (mem_guardsAt.mpr ⟨hg,rfl⟩)
    obtain ⟨x,-,-,⟨-,-,hx⟩ | hx⟩ := releaseGuard_cases (d := dirty) hpage (h.live_pinned hg)
    · rw [hx] at he
      cases he
    · rw [hx] at he
      have hcode := unpinFrame_error (Release.done.inj he)
      constructor <;> rintro rfl <;> cases hcode

/-! ### A fetch during a page restore -/

section Restored

def reader : Access := ⟨false,false⟩

def guardOf (hold : Hold) (before : Option ℕ) : Guard ℕ := ⟨0,5,reader,hold,false,before⟩

/-- Page 5 is cached and unpinned; a restore of it begins, another thread fetches it,
and the restore ends. -/
def fetchUnderRestore : List (Action ℕ) :=
  [.fetch 5 reader,.loadIo 5 ⟨0,true⟩ invalidPageId reader (.ok ()) (.ok ()) (.ok 7),
    .loadDone 5 ⟨0,true⟩ invalidPageId reader (.ok ()),.latch (guardOf .waiting none),
    .unlatch (guardOf .latched (some 7)),.release (guardOf .closed (some 7)),
    .restorePage 5 8,.fetch 5 reader,.restoreIo 0 8 (.ok ()),.restoreDone 0 (.ok ())]

theorem fetchUnderRestore_runs :
    (Transition.exec next (initial 1 .writeBack 0 : Threads ℕ FIFOReplacer) fetchUnderRestore).map
      (fun s => (s.guards,(s.frame 0).pinCount)) = some ([guardOf .waiting none],0) := by
  decide

theorem restore_drops_live_pin : ¬ ∀ s : Threads ℕ FIFOReplacer,
    Transition.Reach Initial (Transition.StepOf next) s → s.Protected := by
  intro h
  obtain ⟨s,hx,hs⟩ := Option.map_eq_some_iff.mp fetchUnderRestore_runs
  have hp := (h s (Transition.exec_reach (.init ⟨1,.writeBack,0,rfl⟩) hx)).pins 0
  simp only [Prod.mk.injEq] at hs
  rw [hs.1,hs.2] at hp
  have hpos : 0 < List.countP (fun g : Guard ℕ => decide (g.frame = 0)) [guardOf .waiting none] :=
    by decide
  omega

/-- In every run in which nobody joins a frame under a page restore, pins protect frames. -/
theorem pins_protect {s : Threads β ρ} (h : Transition.Reach Initial SteadyStep s) :
    s.Protected := (reach_inv h).1.protected

/-- The same restore with nobody in between. -/
def fetchAfterRestore : List (Action ℕ) :=
  fetchUnderRestore.take 7 ++ [.restoreIo 0 8 (.ok ()),.restoreDone 0 (.ok ()),.fetch 5 reader]

/-- A step is taken only if it joins no frame, or there is no page restore at all. -/
def calmNext (s : Threads ℕ FIFOReplacer) (a : Action ℕ) : Option (Threads ℕ FIFOReplacer) :=
  match a with
  | .restoreIo _ _ _ | .restoreDone _ _ => s.next a
  | _ => if s.ops.all fun o => !o.isRestore then s.next a else none

theorem calmNext_steady {s s' : Threads ℕ FIFOReplacer} {a : Action ℕ}
    (h : calmNext s a = some s') : SteadyStep s a s' := by
  have hcalm : (s.ops.all fun o => !o.isRestore) = true → s.next a = some s' →
      SteadyStep s a s' := fun hall hn => by
    refine ⟨fun f _ o ho hr => ?_,hn⟩
    have := List.all_eq_true.mp hall o ho
    simp [hr] at this
  cases a
  case restoreIo => exact ⟨fun f hj => hj.elim,h⟩
  case restoreDone => exact ⟨fun f hj => hj.elim,h⟩
  all_goals
    simp only [calmNext] at h
    split at h
    · next hall => exact hcalm hall h
    · cases h

theorem pins_protect_afterRestore : ∃ s : Threads ℕ FIFOReplacer,
    s.guards = [guardOf .waiting none] ∧ (s.frame 0).page = 8 ∧ s.Protected := by
  have hrun : (Transition.exec calmNext (initial 1 .writeBack 0) fetchAfterRestore).map
      (fun s => (s.guards,(s.frame 0).page)) = some ([guardOf .waiting none],8) := by decide
  obtain ⟨s,hx,hs⟩ := Option.map_eq_some_iff.mp hrun
  simp only [Prod.mk.injEq] at hs
  refine ⟨s,hs.1,hs.2,pins_protect ?_⟩
  have hreach : Transition.Reach Initial (Transition.StepOf calmNext) s :=
    Transition.exec_reach (.init ⟨1,.writeBack,0,rfl⟩) hx
  exact hreach.mono fun t a t' hstep => calmNext_steady hstep

end Restored

end Threads
end Buffer
end OurSql
