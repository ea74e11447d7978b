import OurSql.Buffer.PinCount

/-! Loads that failed: for whom a failure is recorded, and when the record is gone. -/
namespace OurSql
namespace Buffer

set_option linter.unusedSectionVars false

open BufferPool (Fetch Flush Release Finalize Restore)

variable {β ρ : Type} [Zero β] [DecidableEq β] [Replacer ρ]

namespace BufferPool

/-- `load_failures_` and `loading_waiters_`. -/
def records (b : BufferPool β ρ) : (PageId → Option Failure) × (PageId → Option ℕ) :=
  (b.loadFailures,b.loadingWaiters)

section Records

variable (b : BufferPool β ρ) (p : PageId) (f : FrameId)

@[simp] theorem records_setFrame (x : Frame β) : (b.setFrame f x).records = b.records := rfl
@[simp] theorem records_map : (b.map p f).records = b.records := rfl
@[simp] theorem records_unmap : (b.unmap p).records = b.records := rfl
@[simp] theorem records_mapReplacer (g : ρ → ρ) : (b.mapReplacer g).records = b.records := rfl
@[simp] theorem records_setPending (x : Bool) : (b.setPending p x).records = b.records := rfl
@[simp] theorem records_unevict : (b.unevict f).records = b.records := rfl
@[simp] theorem records_install : (b.install f p).records = b.records := rfl

@[simp] theorem records_selectFrame : b.selectFrame.2.records = b.records := by
  unfold selectFrame
  split
  · dsimp only
    split <;> rfl
  · split
    · rfl
    · dsimp only
      split <;> rfl

@[simp] theorem records_returnFreeFrame : (b.returnFreeFrame f).2.records = b.records := by
  unfold returnFreeFrame
  repeat' split
  all_goals rfl

@[simp] theorem records_evictIo (sel : FrameSelection) (write : Status) :
    (b.evictIo sel write).2.records = b.records := by
  unfold evictIo
  dsimp only
  repeat' split
  all_goals rfl

@[simp] theorem records_loadIo (sel : FrameSelection) (write : Status) (loaded : Result β) :
    (b.loadIo sel write loaded).2.records = b.records := by
  have he := records_evictIo b sel write
  unfold loadIo
  rcases hev : b.evictIo sel write with ⟨e | _,b₁⟩ <;> rw [hev] at he
  · exact he
  · cases loaded with
    | ok page => exact he
    | error e =>
      dsimp only
      split <;> exact he

@[simp] theorem records_newPage : b.newPage.2.records = b.records := by
  have he := records_selectFrame b
  unfold newPage
  rcases hsel : b.selectFrame with ⟨e | sel,b₁⟩ <;> rw [hsel] at he
  · exact he
  · dsimp only
    split <;> exact he

@[simp] theorem records_newIo (sel : FrameSelection) (write : Status) (allocated : Result PageId) :
    (b.newIo sel write allocated).2.records = b.records := by
  have he := records_evictIo b sel write
  unfold newIo
  rcases hev : b.evictIo sel write with ⟨e | _,b₁⟩ <;> rw [hev] at he
  · exact he
  · cases allocated with
    | ok q => exact he
    | error e =>
      dsimp only
      split <;> exact he

@[simp] theorem records_finishNew (sel : FrameSelection) (oldPage : PageId)
    (outcome : Result PageId) : (b.finishNew sel oldPage outcome).2.records = b.records := by
  cases outcome with
  | ok q =>
    simp only [finishNew]
    split <;> rfl
  | error e =>
    simp only [finishNew]
    split
    · simp
    · rfl

@[simp] theorem records_unpinFrame : (b.unpinFrame f).2.records = b.records := by
  unfold unpinFrame
  dsimp only
  split <;> rfl

@[simp] theorem records_releaseGuard (dirty : Bool) :
    (b.releaseGuard f p dirty).2.records = b.records := by
  unfold releaseGuard
  dsimp only
  repeat' split
  all_goals simp

@[simp] theorem records_finishFlush (write : Status) :
    (b.finishFlush f write).records = b.records := by
  simp [finishFlush]

@[simp] theorem records_flushPin : (b.flushPin f).2.records = b.records := by
  unfold flushPin
  dsimp only
  split <;> split <;> rfl

@[simp] theorem records_flushPage : (b.flushPage p).2.records = b.records := by
  unfold flushPage
  repeat' split
  all_goals simp

@[simp] theorem records_flushWake : (b.flushWake p f).2.records = b.records := by
  unfold flushWake
  repeat' split
  all_goals simp

@[simp] theorem records_beginPageDeletion (expectedPins : ℕ) :
    (b.beginPageDeletion p expectedPins).2.records = b.records := by
  unfold beginPageDeletion
  dsimp only
  repeat' split
  all_goals rfl

@[simp] theorem records_cancelPageDeletion : (b.cancelPageDeletion p).2.records = b.records := by
  unfold cancelPageDeletion
  dsimp only
  repeat' split
  all_goals rfl

@[simp] theorem records_finalizePageDeletion :
    (b.finalizePageDeletion p).2.records = b.records := by
  unfold finalizePageDeletion
  dsimp only
  repeat' split
  all_goals rfl

@[simp] theorem records_finishUncached (deallocate : Status) :
    (b.finishUncached p deallocate).2.records = b.records := by
  unfold finishUncached
  split <;> rfl

@[simp] theorem records_finalizeIo (write deallocate : Status) :
    (b.finalizeIo f write deallocate).2.records = b.records := by
  unfold finalizeIo
  dsimp only
  split <;> rfl

@[simp] theorem records_finishFinalize (outcome : Status) :
    (b.finishFinalize p f outcome).2.records = b.records := by
  cases outcome with
  | ok _ => simp [finishFinalize]
  | error e => rfl

@[simp] theorem records_restorePage : (b.restorePage p).2.records = b.records := by
  unfold restorePage
  dsimp only
  repeat' split
  all_goals rfl

@[simp] theorem records_restoreIo (image : β) (write : Status) :
    (b.restoreIo f image write).records = b.records := by
  cases write <;> rfl

@[simp] theorem records_finishRestore (write : Status) :
    (b.finishRestore f write).records = b.records := rfl

end Records

end BufferPool

/-- The operation is a fetch that waits for the page. -/
def Op.waitsFor (p : PageId) : Op β → Bool
  | .fetchWait q _ => q = p
  | _ => false

/-- Only these steps look at the records of failed loads. -/
def Action.looksUp : Action β → Bool
  | .fetch _ _ | .wakeFetch _ _ | .loadDone _ _ _ _ _ => true
  | _ => false

namespace Threads

/-- How many fetches wait for the page. -/
def waiting (s : Threads β ρ) (p : PageId) : ℕ := s.ops.countP (Op.waitsFor p)

/-- A step that has nothing to do with failed loads. -/
structure SameRecords (s s' : Threads β ρ) : Prop where
  records : s'.pool.records = s.pool.records
  waiting : ∀ p, s'.waiting p = s.waiting p

section Waiting

variable {s s' : Threads β ρ} {p : PageId} {o : Op β}

theorem waiting_addOp (h : ∀ p, o.waitsFor p = false) : (s.addOp o).waiting p = s.waiting p := by
  simp [waiting,addOp,h]

theorem waiting_dropOp (h : ∀ p, o.waitsFor p = false) :
    (s.dropOp o).waiting p = s.waiting p := by
  unfold waiting dropOp
  by_cases ho : o ∈ s.ops
  · rw [(List.perm_cons_erase ho).countP_eq]
    simp [h]
  · rw [List.erase_of_not_mem ho]

theorem SameRecords.of_ops (hr : s'.pool.records = s.pool.records) (ho : s'.ops = s.ops) :
    SameRecords s s' := ⟨hr,fun p => congrArg (List.countP (Op.waitsFor p)) ho⟩

/-- An operation of another kind begins, ends or gives way to the next one. -/
theorem SameRecords.begins (hr : s'.pool.records = s.pool.records) (ho : s'.ops = o::s.ops)
    (h : ∀ p, o.waitsFor p = false := by exact fun _ => rfl) : SameRecords s s' :=
  ⟨hr,fun p => (congrArg (List.countP (Op.waitsFor p)) ho).trans (waiting_addOp h)⟩

theorem SameRecords.ends (hr : s'.pool.records = s.pool.records) (ho : s'.ops = s.ops.erase o)
    (h : ∀ p, o.waitsFor p = false := by exact fun _ => rfl) : SameRecords s s' :=
  ⟨hr,fun p => (congrArg (List.countP (Op.waitsFor p)) ho).trans (waiting_dropOp h)⟩

theorem SameRecords.turns {q : Op β} (hr : s'.pool.records = s.pool.records)
    (ho : s'.ops = q::s.ops.erase o) (h : ∀ p, o.waitsFor p = false := by exact fun _ => rfl)
    (hq : ∀ p, q.waitsFor p = false := by exact fun _ => rfl) : SameRecords s s' := by
  refine ⟨hr,fun p => ?_⟩
  have hturn : s'.waiting p = ((s.dropOp o).addOp q).waiting p :=
    congrArg (List.countP (Op.waitsFor p)) ho
  rw [hturn,waiting_addOp hq,waiting_dropOp h]

theorem SameRecords.of_turns {q : Op β} {b : BufferPool β ρ} (ht : Turns s s' o q b)
    (hr : b.records = s.pool.records) (h : ∀ p, o.waitsFor p = false := by exact fun _ => rfl)
    (hq : ∀ p, q.waitsFor p = false := by exact fun _ => rfl) : SameRecords s s' :=
  .turns ((congrArg BufferPool.records ht.pool).trans hr) ht.ops h hq

end Waiting

section Steps

variable {s s' : Threads β ρ} {a : Action β}

theorem flushed_records {p : PageId} {x : Flush × BufferPool β ρ}
    (hx : x.2.records = s.pool.records) : SameRecords s (s.flushed p x) := by
  obtain ⟨o,b⟩ := x
  cases o with
  | done st => exact .of_ops hx rfl
  | blocked f => exact .begins hx rfl
  | waiting f => exact .begins hx rfl

theorem SameRecords.trans {s'' : Threads β ρ} (h : SameRecords s s') (h' : SameRecords s' s'') :
    SameRecords s s'' :=
  ⟨h'.records.trans h.records,fun p => (h'.waiting p).trans (h.waiting p)⟩

theorem next_records (ha : a.looksUp = false) (hn : s.next a = some s') : SameRecords s s' := by
  cases a with
  | fetch p k => cases ha
  | wakeFetch p k => cases ha
  | loadDone p sel oldPage k outcome => cases ha
  | loadIo p sel oldPage k wal write loaded =>
    obtain ⟨status,ht⟩ := next_loadIo hn
    exact .of_turns ht (by simp)
  | newIo sel oldPage k wal write allocated =>
    obtain ⟨-,status,ht⟩ := next_newIo hn
    exact .of_turns ht (by simp)
  | flushIo p f wal write =>
    rcases next_flushIo hn with ⟨-,-,rfl⟩ | ⟨-,status,ht⟩
    · exact .ends (o := .flushing p f) rfl rfl
    · exact .of_turns ht rfl
  | writeThroughIo p f wal write =>
    obtain ⟨status,ht⟩ := next_writeThroughIo hn
    exact .of_turns ht rfl
  | finalizeIo p f wal write deallocate =>
    obtain ⟨status,ht⟩ := next_finalizeIo hn
    exact .of_turns ht (by simp)
  | newPage k =>
    have hb := BufferPool.records_newPage s.pool
    simp only [next] at hn
    split at hn
    · next sel oldPage b he =>
      obtain rfl := Option.some.inj hn
      rw [he] at hb
      exact .begins (o := .alloc sel oldPage k) hb rfl
    · next e b he =>
      obtain rfl := Option.some.inj hn
      rw [he] at hb
      exact .of_ops hb rfl
  | newDone sel oldPage k outcome =>
    have hb := BufferPool.records_finishNew s.pool sel oldPage outcome
    rcases he : s.pool.finishNew sel oldPage outcome with ⟨r,b⟩
    rw [he] at hb
    simp only [next] at hn
    rw [show (s.dropOp (.allocated sel oldPage k outcome)).pool.finishNew sel oldPage outcome =
      (r,b) from he] at hn
    split at hn
    · cases outcome with
      | ok q =>
        obtain rfl := Option.some.inj hn
        exact .ends (o := .allocated sel oldPage k (.ok q)) hb rfl
      | error e =>
        obtain rfl := Option.some.inj hn
        exact .ends (o := .allocated sel oldPage k (.error e)) hb rfl
    · simp at hn
  | append g works =>
    simp only [next] at hn
    split at hn
    · split at hn <;> obtain rfl := Option.some.inj hn <;> exact .of_ops rfl rfl
    · simp at hn
  | record g lsn =>
    simp only [next] at hn
    split at hn
    · split at hn <;> obtain rfl := Option.some.inj hn <;> exact .of_ops rfl rfl
    · simp at hn
  | latch g | write g page | markDirty g | unlatch g =>
    simp only [next] at hn
    split at hn
    · obtain rfl := Option.some.inj hn
      exact .of_ops rfl rfl
    · simp at hn
  | release g =>
    have hb := BufferPool.records_releaseGuard s.pool g.page g.frame g.dirty
    simp only [next] at hn
    split at hn
    · split at hn
      · next st b he =>
        obtain rfl := Option.some.inj hn
        have he' : s.pool.releaseGuard g.frame g.page g.dirty = (.done st,b) := he
        rw [he'] at hb
        exact .of_ops hb rfl
      · next b he =>
        obtain rfl := Option.some.inj hn
        have he' : s.pool.releaseGuard g.frame g.page g.dirty = (.writeThrough,b) := he
        rw [he'] at hb
        exact .begins (o := .writeThrough g.page g.frame) hb rfl
    · simp at hn
  | flushPage p =>
    obtain rfl := Option.some.inj hn
    exact flushed_records (by simp)
  | wakeFlush p f =>
    simp only [next] at hn
    split at hn
    · obtain rfl := Option.some.inj hn
      have hd : SameRecords s (s.dropOp (.flushBlocked p f)) := .ends (o := .flushBlocked p f) rfl rfl
      exact hd.trans (flushed_records (s := s.dropOp (.flushBlocked p f))
        (BufferPool.records_flushWake s.pool p f))
    · simp at hn
  | flushDone f outcome =>
    simp only [next] at hn
    split at hn
    · obtain rfl := Option.some.inj hn
      exact .ends (o := .flushed f outcome) (by simp [setPool]) rfl
    · simp at hn
  | beginDeletion p expectedPins =>
    obtain rfl := Option.some.inj hn
    exact .of_ops (by simp [setPool]) rfl
  | cancelDeletion p =>
    obtain rfl := Option.some.inj hn
    exact .of_ops (by simp [setPool]) rfl
  | finalize p =>
    have hb := BufferPool.records_finalizePageDeletion s.pool p
    simp only [next] at hn
    split at hn
    · next st b he =>
      obtain rfl := Option.some.inj hn
      rw [he] at hb
      exact .of_ops hb rfl
    · next b he =>
      obtain rfl := Option.some.inj hn
      rw [he] at hb
      exact .begins (o := .finalizingUncached p) hb rfl
    · next f b he =>
      obtain rfl := Option.some.inj hn
      rw [he] at hb
      exact .begins (o := .finalizing p f) hb rfl
  | finalizeDone p f outcome =>
    simp only [next] at hn
    split at hn
    · obtain rfl := Option.some.inj hn
      exact .ends (o := .finalized p f outcome) (by simp [setPool]) rfl
    · simp at hn
  | finalizeUncached p deallocate =>
    simp only [next] at hn
    split at hn
    · obtain rfl := Option.some.inj hn
      exact .ends (o := .finalizingUncached p) (by simp [setPool]) rfl
    · simp at hn
  | restorePage p image =>
    have hb := BufferPool.records_restorePage s.pool p
    rcases he : s.pool.restorePage p with ⟨r,b⟩
    rw [he] at hb
    simp only [next,he] at hn
    cases r with
    | cached f =>
      obtain rfl := Option.some.inj hn
      exact .begins (o := .restoring f image) hb rfl
    | done st =>
      obtain rfl := Option.some.inj hn
      exact .of_ops hb rfl
    | uncached =>
      obtain rfl := Option.some.inj hn
      exact .of_ops hb rfl
  | restoreIo f image write =>
    exact .of_turns (next_restoreIo hn) (by simp)
  | restoreDone f outcome =>
    simp only [next] at hn
    split at hn
    · obtain rfl := Option.some.inj hn
      exact .ends (o := .restored f outcome) rfl rfl
    · simp at hn

end Steps

/-! ### What a fetch finds -/

section Fetching

variable {b : BufferPool β ρ} {s s' : Threads β ρ} {p : PageId}

/-- A lookup leaves the records alone, or begins a wait, or takes a failure for which nobody
waits off the record. -/
theorem lookup_records (b : BufferPool β ρ) (p : PageId) :
    (b.lookup p).1 ≠ .wait ∧ (b.lookup p).2.records = b.records ∨
    b.lookup p = (.wait,b.setWaiters p (some ((b.loadingWaiters p).getD 0 + 1))) ∨
    ∃ e, b.loadFailures p = some e ∧ b.loadingWaiters p = none ∧
      b.lookup p = (.failed e,b.setFailure p none) := by
  unfold BufferPool.lookup
  by_cases hd : b.deletePending p = true
  · rw [if_pos hd]
    exact .inl ⟨by simp,rfl⟩
  rw [if_neg hd]
  cases ht : b.pageTable p with
  | some f =>
    cases hs : (b.frames f).state with
    | valid => exact .inl ⟨by simp [hs],by simp [hs]⟩
    | deletePending => exact .inl ⟨by simp [hs],by simp [hs]⟩
    | empty | loading | evicting | flushing => exact .inr (.inl (by simp [hs]))
  | none =>
    cases hl : b.loadFailures p with
    | some e =>
      by_cases hw : b.loadingWaiters p = none
      · exact .inr (.inr ⟨e,rfl,hw,by simp [hw]⟩)
      · exact .inl ⟨by simp,by simp [hw]⟩
    | none =>
      have hr := BufferPool.records_selectFrame b
      rcases hsel : b.selectFrame with ⟨e | sel,b₁⟩ <;> rw [hsel] at hr
      · exact .inl ⟨by simp,hr⟩
      · refine .inl ⟨by simp,?_⟩
        dsimp only
        split <;> exact hr

theorem wake_failed {n : ℕ} {e : Failure} (hw : b.loadingWaiters p = some n)
    (hl : b.loadFailures p = some e) : b.wake p = (.failed e,
      if n - 1 = 0 then (b.setWaiters p none).setFailure p none
      else b.setWaiters p (some (n - 1))) := by
  unfold BufferPool.wake
  rw [hl,hw]
  by_cases hn : n - 1 = 0
  · simp [hn]
  · simp [hn]

theorem wake_again {n : ℕ} (hw : b.loadingWaiters p = some n) (hl : b.loadFailures p = none) :
    b.wake p = (b.setWaiters p (some (n - 1))).lookup p := by
  unfold BufferPool.wake
  rw [hl,hw]
  rfl

theorem fetched_records {k : Access} {x : Fetch × BufferPool β ρ} (hne : x.1 ≠ .wait)
    (hr : x.2.records = s.pool.records) : SameRecords s (s.fetched p k x) := by
  obtain ⟨o,b⟩ := x
  cases o with
  | failed e => exact .of_ops hr rfl
  | hit f => exact .of_ops hr rfl
  | wait => exact absurd rfl hne
  | load sel oldPage => exact .begins hr rfl

theorem waiting_addWait (s : Threads β ρ) (p : PageId) (k : Access) (q : PageId) :
    (s.addOp (.fetchWait p k)).waiting q = s.waiting q + if p = q then 1 else 0 := by
  simp [waiting,addOp,List.countP_cons,Op.waitsFor]

theorem waiting_dropWait {k : Access} (hm : .fetchWait p k ∈ s.ops) (q : PageId) :
    (s.dropOp (.fetchWait p k)).waiting q + (if p = q then 1 else 0) = s.waiting q := by
  have hperm := (List.perm_cons_erase hm).countP_eq (Op.waitsFor q)
  rw [waiting,waiting,dropOp,hperm]
  simp [List.countP_cons,Op.waitsFor]

theorem waiting_pos {k : Access} (hm : .fetchWait p k ∈ s.ops) : 0 < s.waiting p :=
  List.countP_pos_iff.mpr ⟨_,hm,by simp [Op.waitsFor]⟩

/-- Whoever waits is counted. -/
def Counted (s : Threads β ρ) : Prop := ∀ p, (s.pool.loadingWaiters p).getD 0 = s.waiting p

theorem Counted.waiters (h : s.Counted) (hp : 0 < s.waiting p) :
    s.pool.loadingWaiters p = some (s.waiting p) := by
  have hc := h p
  cases hw : s.pool.loadingWaiters p with
  | none =>
    rw [hw] at hc
    exact absurd hc hp.ne
  | some n =>
    rw [hw] at hc
    exact congrArg some hc

theorem Counted.keep (h : s.Counted) (hw : s'.pool.loadingWaiters = s.pool.loadingWaiters)
    (hs : ∀ q, s'.waiting q = s.waiting q) : s'.Counted := by
  intro q
  rw [hw,hs]
  exact h q

theorem Counted.same (h : s.Counted) (hs : SameRecords s s') : s'.Counted :=
  h.keep (congrArg Prod.snd hs.records) hs.waiting

theorem Counted.fetched (h : s.Counted) (p : PageId) (k : Access) :
    (s.fetched p k (s.pool.lookup p)).Counted := by
  rcases lookup_records s.pool p with ⟨hne,hr⟩ | he | ⟨e,-,hw,he⟩
  · exact h.same (fetched_records hne hr)
  · rw [he]
    intro q
    have hq : (Threads.fetched s p k
        (.wait,s.pool.setWaiters p (some ((s.pool.loadingWaiters p).getD 0 + 1)))).waiting q =
          s.waiting q + if p = q then 1 else 0 := waiting_addWait s p k q
    rw [hq,← h q]
    by_cases hpq : p = q
    · subst hpq
      simp [Threads.fetched,setPool,addOp,BufferPool.setWaiters]
    · simp [Threads.fetched,setPool,addOp,BufferPool.setWaiters,hpq,Ne.symm hpq]
  · rw [he]
    exact h.keep rfl fun _ => rfl

/-- A fetch that waited is about to look the page up once more. -/
def resume (s : Threads β ρ) (p : PageId) (k : Access) : Threads β ρ :=
  (s.dropOp (.fetchWait p k)).setPool (s.pool.setWaiters p (some (s.waiting p - 1)))

/-- A fetch that waited takes a failure from the record, the last one for good. -/
def giveUp (s : Threads β ρ) (p : PageId) (k : Access) : Threads β ρ :=
  (s.dropOp (.fetchWait p k)).setPool
    (if s.waiting p - 1 = 0 then (s.pool.setWaiters p none).setFailure p none
      else s.pool.setWaiters p (some (s.waiting p - 1)))

theorem wakeFetch_cases (h : s.Counted) {k : Access} (hn : s.next (.wakeFetch p k) = some s') :
    .fetchWait p k ∈ s.ops ∧
    ((∃ e, s.pool.loadFailures p = some e ∧ s' = s.giveUp p k) ∨
    s.pool.loadFailures p = none ∧
      s' = (s.resume p k).fetched p k ((s.resume p k).pool.lookup p)) := by
  simp only [next] at hn
  split at hn
  swap
  · simp at hn
  next hc =>
  obtain rfl := Option.some.inj hn
  have hw := h.waiters (waiting_pos hc.1)
  refine ⟨hc.1,?_⟩
  cases hl : s.pool.loadFailures p with
  | some e =>
    left
    refine ⟨e,rfl,?_⟩
    rw [wake_failed hw hl]
    rfl
  | none =>
    right
    refine ⟨rfl,?_⟩
    rw [wake_again hw hl]
    rfl

theorem Counted.drop (h : s.Counted) {k : Access} (hm : .fetchWait p k ∈ s.ops)
    {b : BufferPool β ρ} (hp : (b.loadingWaiters p).getD 0 = s.waiting p - 1)
    (hne : ∀ q, q ≠ p → b.loadingWaiters q = s.pool.loadingWaiters q) :
    ((s.dropOp (.fetchWait p k)).setPool b).Counted := by
  intro q
  have hq : ((s.dropOp (.fetchWait p k)).setPool b).waiting q =
    (s.dropOp (.fetchWait p k)).waiting q := rfl
  have hdrop := waiting_dropWait hm q
  rw [hq]
  by_cases hpq : q = p
  · subst hpq
    rw [if_pos rfl] at hdrop
    change (b.loadingWaiters q).getD 0 = _
    omega
  · rw [if_neg (Ne.symm hpq)] at hdrop
    change (b.loadingWaiters q).getD 0 = _
    rw [hne q hpq,h q]
    omega

theorem Counted.resume (h : s.Counted) {k : Access} (hm : .fetchWait p k ∈ s.ops) :
    (s.resume p k).Counted :=
  h.drop hm (by simp [BufferPool.setWaiters]) fun q hq => by simp [BufferPool.setWaiters,hq]

theorem Counted.giveUp (h : s.Counted) {k : Access} (hm : .fetchWait p k ∈ s.ops) :
    (s.giveUp p k).Counted := by
  refine h.drop hm ?_ fun q hq => ?_
  · split
    · next hz => simp [BufferPool.setWaiters,BufferPool.setFailure,hz]
    · simp [BufferPool.setWaiters]
  · split <;> simp [BufferPool.setWaiters,BufferPool.setFailure,hq]

end Fetching

/-! ### Runs -/

section Runs

variable {s s' : Threads β ρ} {p : PageId} {a : Action β}

theorem finishLoad_ok_records (b : BufferPool β ρ) (p : PageId) (sel : FrameSelection)
    (oldPage : PageId) : (b.finishLoad p sel oldPage (.ok ())).2.records = b.records := by
  simp only [BufferPool.finishLoad]
  split <;> rfl

theorem finishLoad_error_records (b : BufferPool β ρ) (p : PageId) (sel : FrameSelection)
    (oldPage : PageId) (e : Failure) :
    (b.finishLoad p sel oldPage (.error e)).2.records =
      (Function.update b.loadFailures p (some e),b.loadingWaiters) := by
  have hcongr : ∀ x : BufferPool β ρ, x.records = b.records →
      (x.setFailure p (some e)).records =
        (Function.update b.loadFailures p (some e),b.loadingWaiters) := by
    intro x hx
    obtain ⟨hf,hw⟩ := Prod.mk.inj hx
    simp [BufferPool.records,BufferPool.setFailure,hf,hw]
  simp only [BufferPool.finishLoad]
  apply hcongr
  split
  · simp
  · rfl

/-- Only a load that fails puts a failure on the record. -/
theorem loadDone_records {sel : FrameSelection} {oldPage : PageId} {k : Access}
    {outcome : Status} (hn : s.next (.loadDone p sel oldPage k outcome) = some s') :
    (∀ q, s'.waiting q = s.waiting q) ∧ s'.pool.loadingWaiters = s.pool.loadingWaiters ∧
    (s'.pool.loadFailures = s.pool.loadFailures ∨
      ∃ e, outcome = .error e ∧
        s'.pool.loadFailures = Function.update s.pool.loadFailures p (some e)) := by
  rcases he : s.pool.finishLoad p sel oldPage outcome with ⟨r,b⟩
  simp only [next] at hn
  rw [show (s.dropOp (.loaded p sel oldPage k outcome)).pool.finishLoad p sel oldPage outcome =
    (r,b) from he] at hn
  split at hn
  swap
  · simp at hn
  have hs : s'.ops = s.ops.erase (.loaded p sel oldPage k outcome) ∧ s'.pool = b := by
    cases r with
    | ok f =>
      obtain rfl := Option.some.inj hn
      exact ⟨rfl,rfl⟩
    | error e =>
      obtain rfl := Option.some.inj hn
      exact ⟨rfl,rfl⟩
  obtain ⟨hops,rfl⟩ := hs
  have hwaits : ∀ q, s'.waiting q = s.waiting q := fun q =>
    (congrArg (List.countP (Op.waitsFor q)) hops).trans (waiting_dropOp fun _ => rfl)
  refine ⟨hwaits,?_⟩
  cases outcome with
  | ok _ =>
    have hr := finishLoad_ok_records s.pool p sel oldPage
    rw [he] at hr
    exact ⟨congrArg Prod.snd hr,.inl (congrArg Prod.fst hr)⟩
  | error e =>
    have hr := finishLoad_error_records s.pool p sel oldPage e
    rw [he] at hr
    exact ⟨congrArg Prod.snd hr,.inr ⟨e,rfl,congrArg Prod.fst hr⟩⟩

theorem next_fetch {k : Access} (hn : s.next (.fetch p k) = some s') :
    SameRecords s s' ∨ s' = s.fetched p k (s.pool.lookup p) := by
  obtain rfl := Option.some.inj hn
  unfold BufferPool.fetchPage
  cases BufferPool.validateDataPageId p with
  | error e => exact .inl (.of_ops rfl rfl)
  | ok _ => exact .inr rfl

theorem Counted.next (h : s.Counted) (hn : s.next a = some s') : s'.Counted := by
  cases ha : a.looksUp with
  | false => exact h.same (next_records ha hn)
  | true =>
    cases a with
    | fetch p k =>
      rcases next_fetch hn with hs | rfl
      · exact h.same hs
      · exact h.fetched p k
    | wakeFetch p k =>
      obtain ⟨hm,⟨e,-,rfl⟩ | ⟨-,rfl⟩⟩ := wakeFetch_cases h hn
      · exact h.giveUp hm
      · exact (h.resume hm).fetched p k
    | loadDone p sel oldPage k outcome =>
      obtain ⟨hwaits,hw,-⟩ := loadDone_records hn
      exact h.keep hw hwaits
    | _ => cases ha

theorem reach_counted (h : Transition.Reach Initial (Transition.StepOf next) s) : s.Counted := by
  refine h.invariant (P := Counted) ?_ fun s a s' hs hn => hs.next hn
  rintro s ⟨n,policy,lsn,rfl⟩ p
  rfl

/-- A fetch that waits for the page resumes only when a failure to load it is recorded. -/
def ResumeFails (p : PageId) (s : Threads β ρ) (a : Action β) (s' : Threads β ρ) : Prop :=
  (∀ k, a = .wakeFetch p k → s.pool.loadFailures p ≠ none) ∧ s.next a = some s'

theorem lookup_waiters (b : BufferPool β ρ) (q : PageId) (h : b.loadingWaiters p ≠ some 0) :
    (b.lookup q).2.loadingWaiters p ≠ some 0 := by
  rcases lookup_records b q with ⟨-,hr⟩ | he | ⟨e,-,-,he⟩
  · rw [show (b.lookup q).2.loadingWaiters = b.loadingWaiters from congrArg Prod.snd hr]
    exact h
  · rw [he]
    by_cases hpq : p = q
    · subst hpq
      simp [BufferPool.setWaiters]
    · simpa [BufferPool.setWaiters,hpq] using h
  · rw [he]
    exact h

theorem fetched_pool (s : Threads β ρ) (p : PageId) (k : Access) (x : Fetch × BufferPool β ρ) :
    (s.fetched p k x).pool = x.2 := by
  obtain ⟨o,b⟩ := x
  cases o <;> rfl

/-- In such a run no count of waiting fetches is left over at zero. -/
theorem ResumeFails.waiters (hc : s.Counted) (h : s.pool.loadingWaiters p ≠ some 0)
    (hstep : ResumeFails p s a s') : s'.pool.loadingWaiters p ≠ some 0 := by
  obtain ⟨hfail,hn⟩ := hstep
  cases ha : a.looksUp with
  | false =>
    rw [show s'.pool.loadingWaiters = _ from congrArg Prod.snd (next_records ha hn).records]
    exact h
  | true =>
    cases a with
    | fetch q k =>
      rcases next_fetch hn with hs | rfl
      · rw [show s'.pool.loadingWaiters = _ from congrArg Prod.snd hs.records]
        exact h
      · rw [fetched_pool]
        exact lookup_waiters s.pool q h
    | wakeFetch q k =>
      obtain ⟨hm,⟨e,-,rfl⟩ | ⟨hl,rfl⟩⟩ := wakeFetch_cases hc hn
      · by_cases hpq : p = q
        · subst hpq
          simp only [giveUp,setPool]
          split
          · simp [BufferPool.setWaiters,BufferPool.setFailure]
          · next hz => simpa [BufferPool.setWaiters] using hz
        · simp only [giveUp,setPool]
          split <;> simpa [BufferPool.setWaiters,BufferPool.setFailure,hpq] using h
      · have hpq : p ≠ q := by
          rintro rfl
          exact hfail k rfl hl
        rw [fetched_pool]
        refine lookup_waiters _ q ?_
        simpa [resume,setPool,BufferPool.setWaiters,hpq] using h
    | loadDone q sel oldPage k outcome =>
      rw [(loadDone_records hn).2.1]
      exact h
    | _ => cases ha

theorem reach_resumeFails (h : Transition.Reach Initial (ResumeFails p) s) :
    s.Counted ∧ s.pool.loadingWaiters p ≠ some 0 := by
  refine h.invariant (P := fun s => s.Counted ∧ s.pool.loadingWaiters p ≠ some 0) ?_
    fun s a s' hs hstep => ⟨hs.1.next hstep.2,hstep.waiters hs.1 hs.2⟩
  rintro s ⟨n,policy,lsn,rfl⟩
  exact ⟨fun q => rfl,by simp [initial,BufferPool.create]⟩

end Runs

/-! ### Who gets the failure -/

section Answers

variable {b : BufferPool β ρ} {s s' : Threads β ρ} {p : PageId} {a : Action β} {e : Failure}

theorem lookup_failures {q : PageId} (h : (b.lookup q).2.loadFailures p = some e) :
    b.loadFailures p = some e := by
  rcases lookup_records b q with ⟨-,hr⟩ | he | ⟨e',-,-,he⟩
  · rw [show (b.lookup q).2.loadFailures = b.loadFailures from congrArg Prod.fst hr] at h
    exact h
  · rw [he] at h
    exact h
  · rw [he] at h
    by_cases hpq : p = q
    · subst hpq
      simp [BufferPool.setFailure] at h
    · simpa [BufferPool.setFailure,hpq] using h

theorem recorded_by_load (hc : s.Counted) (hn : s.next a = some s')
    (h : s'.pool.loadFailures p = some e) : s.pool.loadFailures p = some e ∨
      ∃ sel oldPage k, a = .loadDone p sel oldPage k (.error e) := by
  cases ha : a.looksUp with
  | false =>
    rw [show s'.pool.loadFailures = _ from congrArg Prod.fst (next_records ha hn).records] at h
    exact .inl h
  | true =>
    cases a with
    | fetch q k =>
      rcases next_fetch hn with hs | rfl
      · rw [show s'.pool.loadFailures = _ from congrArg Prod.fst hs.records] at h
        exact .inl h
      · rw [fetched_pool] at h
        exact .inl (lookup_failures h)
    | wakeFetch q k =>
      obtain ⟨hm,⟨e',-,rfl⟩ | ⟨hl,rfl⟩⟩ := wakeFetch_cases hc hn
      · left
        simp only [giveUp,setPool] at h
        split at h
        · by_cases hpq : p = q
          · subst hpq
            simp [BufferPool.setFailure] at h
          · simpa [BufferPool.setWaiters,BufferPool.setFailure,hpq] using h
        · exact h
      · rw [fetched_pool] at h
        exact .inl (lookup_failures (b := (s.resume q k).pool) h)
    | loadDone q sel oldPage k outcome =>
      rcases (loadDone_records hn).2.2 with hf | ⟨e',rfl,hf⟩
      · rw [hf] at h
        exact .inl h
      · rw [hf] at h
        by_cases hpq : p = q
        · subst hpq
          rw [Function.update_self] at h
          obtain rfl := Option.some.inj h
          exact .inr ⟨sel,oldPage,k,rfl⟩
        · rw [Function.update_of_ne hpq] at h
          exact .inl h
    | _ => cases ha

/-- The page is being deleted, or no frame can be had for it. -/
def Unavailable (b : BufferPool β ρ) (p : PageId) (e : Failure) : Prop :=
  b.deletePending p = true ∨ (∃ f, b.pageTable p = some f ∧ (b.frames f).state = .deletePending) ∨
    b.pageTable p = none ∧ b.selectFrame.1 = .error e

theorem lookup_unavailable (hl : b.loadFailures p = none) (h : (b.lookup p).1 = .failed e) :
    Unavailable b p e := by
  unfold BufferPool.lookup at h
  by_cases hd : b.deletePending p = true
  · exact .inl hd
  rw [if_neg hd] at h
  cases ht : b.pageTable p with
  | some f =>
    refine .inr (.inl ⟨f,ht,?_⟩)
    rw [ht] at h
    cases hs : (b.frames f).state <;> simp [hs] at h
    rfl
  | none =>
    refine .inr (.inr ⟨ht,?_⟩)
    rw [ht,hl] at h
    rcases hsel : b.selectFrame with ⟨e' | sel,b₁⟩ <;> rw [hsel] at h
    · simpa using h
    · simp at h

theorem lookup_hit {f : FrameId} (h : (b.lookup p).1 = .hit f) :
    b.pageTable p = some f ∧ (b.frames f).state = .valid := by
  rcases lookup_cases b p with ⟨e,b',he,-⟩ | ⟨b',he,-⟩ | ⟨g,ht,hs,he⟩ | ⟨sel,b₁,-,-,he⟩ <;>
    rw [he] at h
  · cases h
  · cases h
  · cases h
    exact ⟨ht,hs⟩
  · cases h

theorem unavailable_setWaiters {n : Option ℕ} (h : Unavailable (b.setWaiters p n) p e) :
    Unavailable b p e := by
  have hsel : (b.setWaiters p n).selectFrame.1 = b.selectFrame.1 := by
    unfold BufferPool.selectFrame
    simp only [BufferPool.setWaiters]
    cases b.freeFrames with
    | cons f rest => by_cases hx : (b.frames f).pageId = invalidPageId <;> simp [hx]
    | nil =>
      cases Replacer.victim b.replacer with
      | none => rfl
      | some v =>
        by_cases hx : (b.frames v.1).pinCount ≠ 0 ∨ (b.frames v.1).pageId = invalidPageId ∨
          (b.frames v.1).state ≠ .valid <;> simp [hx]
  unfold Unavailable at h
  rw [hsel] at h
  exact h

/-- What earlier failures to load a page mean for the fetches of it. -/
structure HandedOn (s : Threads β ρ) (p : PageId) : Prop where
  recorded : ∀ a s' e, s.next a = some s' → s'.pool.loadFailures p = some e →
    s.pool.loadFailures p = some e ∨ ∃ sel oldPage k, a = .loadDone p sel oldPage k (.error e)
  -- nothing on the record
  fetched : s.pool.loadFailures p = none → ∀ e, (s.pool.fetchPage p).1 = .failed e →
    BufferPool.validateDataPageId p = .error e ∨ Unavailable s.pool p e
  woken : s.pool.loadFailures p = none → 0 < s.waiting p → ∀ e, (s.pool.wake p).1 = .failed e →
    Unavailable s.pool p e
  cached : ∀ f, (s.pool.fetchPage p).1 = .hit f →
    s.pool.pageTable p = some f ∧ (s.frame f).state = .valid
  read : ∀ sel oldPage k page, .load p sel oldPage k ∈ s.ops → s.latchFree sel.frameId = true →
    ∃ s', s.next (.loadIo p sel oldPage k (.ok ()) (.ok ()) (.ok page)) = some s' ∧
      .loaded p sel oldPage k (.ok ()) ∈ s'.ops ∧ (s'.frame sel.frameId).page = page
  returned : ∀ sel oldPage k, .loaded p sel oldPage k (.ok ()) ∈ s.ops →
    ∃ s', s.next (.loadDone p sel oldPage k (.ok ())) = some s' ∧
      newGuard sel.frameId p k ∈ s'.guards ∧ (s'.frame sel.frameId).pageId = p ∧
      (s'.frame sel.frameId).state = .valid
  -- a failure on the record
  waited : ∀ e, s.pool.loadFailures p = some e → 0 < s.waiting p →
    (s.pool.wake p).1 = .failed e ∧
      ((s.pool.wake p).2.loadFailures p = none ↔ s.waiting p = 1)
  once : Transition.Reach Initial (ResumeFails p) s → ∀ e, s.pool.loadFailures p = some e →
    BufferPool.validateDataPageId p = .ok () → s.pool.deletePending p = false →
    s.pool.pageTable p = none → s.pool.fetchPage p =
      (.failed e,if s.waiting p = 0 then s.pool.setFailure p none else s.pool)

theorem fetched_unavailable (hl : b.loadFailures p = none) (h : (b.fetchPage p).1 = .failed e) :
    BufferPool.validateDataPageId p = .error e ∨ Unavailable b p e := by
  unfold BufferPool.fetchPage at h
  cases hv : BufferPool.validateDataPageId p with
  | error e' =>
    rw [hv] at h
    cases h
    exact .inl rfl
  | ok _ =>
    rw [hv] at h
    exact .inr (lookup_unavailable hl h)

theorem fetchPage_hit {f : FrameId} (h : (b.fetchPage p).1 = .hit f) :
    b.pageTable p = some f ∧ (b.frames f).state = .valid := by
  unfold BufferPool.fetchPage at h
  cases hv : BufferPool.validateDataPageId p with
  | error e' =>
    rw [hv] at h
    cases h
  | ok _ =>
    rw [hv] at h
    exact lookup_hit h

theorem loadIo_ok (b : BufferPool β ρ) (sel : FrameSelection) (page : β) :
    (b.loadIo sel (.ok ()) (.ok page)).1 = .ok () ∧
      ((b.loadIo sel (.ok ()) (.ok page)).2.frames sel.frameId).page = page := by
  unfold BufferPool.loadIo BufferPool.evictIo
  by_cases hd : (!sel.fromFreeList && (b.frames sel.frameId).isDirty) = true
  · simp [hd,BufferPool.setFrame]
  · simp [hd,BufferPool.setFrame]

theorem flushVictim_ok (s : Threads β ρ) (sel : FrameSelection) (oldPage : PageId) :
    (s.flushVictim sel oldPage (.ok ()) (.ok ())).1 = .ok () := by
  unfold flushVictim flushFrameToDisk
  split
  · dsimp only
    split
    · next e he => split at he <;> cases he
    · rfl
  · rfl

theorem read_ok {sel : FrameSelection} {oldPage : PageId} {k : Access} {page : β}
    (hm : .load p sel oldPage k ∈ s.ops) (hfree : s.latchFree sel.frameId = true) :
    ∃ s', s.next (.loadIo p sel oldPage k (.ok ()) (.ok ()) (.ok page)) = some s' ∧
      .loaded p sel oldPage k (.ok ()) ∈ s'.ops ∧ (s'.frame sel.frameId).page = page := by
  have hflush := flushVictim_ok (s.dropOp (.load p sel oldPage k)) sel oldPage
  simp only [next]
  rw [if_pos ⟨hm,hfree⟩]
  generalize (s.dropOp (.load p sel oldPage k)).flushVictim sel oldPage (.ok ()) (.ok ()) = y
    at hflush
  obtain ⟨hok,hpage⟩ := loadIo_ok y.2.pool sel page
  refine ⟨_,rfl,?_,?_⟩
  · rw [hflush,hok]
    exact List.mem_cons_self
  · rw [hflush]
    exact hpage

theorem returned_ok {sel : FrameSelection} {oldPage : PageId} {k : Access}
    (hm : .loaded p sel oldPage k (.ok ()) ∈ s.ops) :
    ∃ s', s.next (.loadDone p sel oldPage k (.ok ())) = some s' ∧
      newGuard sel.frameId p k ∈ s'.guards ∧ (s'.frame sel.frameId).pageId = p ∧
      (s'.frame sel.frameId).state = .valid := by
  simp only [next,BufferPool.finishLoad]
  rw [if_pos hm]
  refine ⟨_,rfl,List.mem_cons_self,?_,?_⟩ <;>
    simp [frame,addGuard,setPool,BufferPool.install,BufferPool.setFrame,BufferPool.mapReplacer]

end Answers

/-! ### A load that fails, and nobody waits -/

section FailedLoad

def readFailure : Failure := ⟨.ioError,"页面读取失败"⟩

def failedLoad : List (Action ℕ) :=
  [.fetch 5 reader,.loadIo 5 ⟨0,true⟩ invalidPageId reader (.ok ()) (.ok ()) (.error readFailure),
    .loadDone 5 ⟨0,true⟩ invalidPageId reader (.error readFailure)]

/-- Nobody who waited looks once more. -/
def noWake (s : Threads ℕ FIFOReplacer) (a : Action ℕ) : Option (Threads ℕ FIFOReplacer) :=
  match a with
  | .wakeFetch _ _ => none
  | _ => s.next a

theorem noWake_step {s s' : Threads ℕ FIFOReplacer} {a : Action ℕ} (h : noWake s a = some s') :
    ResumeFails 5 s a s' := by
  unfold noWake at h
  split at h
  · cases h
  · next hne => exact ⟨fun k he => absurd he (hne 5 k),h⟩

theorem failedLoad_runs : (Transition.exec noWake (initial 1 .writeBack 0) failedLoad).map
    (fun s => ((s.ops,s.guards,s.pool.freeFrames),s.pool.loadFailures 5,s.pool.deletePending 5,
      s.pool.pageTable 5)) = some (([],[],[0]),some readFailure,false,none) := by
  rfl

end FailedLoad

end Threads
end Buffer
end OurSql
