import OurSql.Buffer.Transit

/-! Pins protect frames: every step keeps the invariant as long as nobody takes a
pin on a frame a page restore is writing. -/
namespace OurSql
namespace Buffer

set_option linter.unusedSectionVars false

open BufferPool (Fetch Flush Release Finalize Restore)

variable {β ρ : Type} [Zero β] [DecidableEq β] [Replacer ρ]

namespace Threads

/-! ### Reading and writing back -/

/-- Only the bytes, the LSN and the dirty bit of one frame changed. -/
structure Overwrites (b b' : BufferPool β ρ) (f : FrameId) : Prop where
  pageTable : b'.pageTable = b.pageTable
  replacer : b'.replacer = b.replacer
  freeFrames : b'.freeFrames = b.freeFrames
  others : ∀ g, g ≠ f → b'.frames g = b.frames g
  same : SameFrame (b.frames f) (b'.frames f)

theorem Overwrites.refl (b : BufferPool β ρ) (f : FrameId) : Overwrites b b f :=
  ⟨rfl,rfl,rfl,fun _ _ => rfl,rfl,rfl,rfl⟩

theorem overwrites_setFrame {b b' : BufferPool β ρ} {f : FrameId} (h : Overwrites b b' f)
    {x : Frame β} (hx : SameFrame (b'.frames f) x) : Overwrites b (b'.setFrame f x) f := by
  refine ⟨h.pageTable,h.replacer,h.freeFrames,
    fun g hg => (Function.update_of_ne hg _ _).trans (h.others g hg),?_⟩
  have hself : (b'.setFrame f x).frames f = x := Function.update_self _ _ _
  rw [hself]
  exact ⟨hx.1.trans h.same.1,hx.2.1.trans h.same.2.1,hx.2.2.trans h.same.2.2⟩

theorem evictIo_overwrites (b : BufferPool β ρ) (sel : FrameSelection) (write : Status) :
    Overwrites b (b.evictIo sel write).2 sel.frameId := by
  by_cases hc : (!sel.fromFreeList && (b.frames sel.frameId).isDirty) = true
  · cases write with
    | ok u =>
      simp only [BufferPool.evictIo, hc, if_true]
      exact overwrites_setFrame (.refl b _) ⟨rfl,rfl,rfl⟩
    | error e =>
      simp only [BufferPool.evictIo, hc, if_true]
      exact .refl b _
  · simp only [BufferPool.evictIo, hc]
    exact .refl b _

theorem loadIo_overwrites (b : BufferPool β ρ) (sel : FrameSelection) (write : Status)
    (loaded : Result β) : Overwrites b (b.loadIo sel write loaded).2 sel.frameId := by
  have he := evictIo_overwrites b sel write
  unfold BufferPool.loadIo
  rcases hev : b.evictIo sel write with ⟨e | _,b₁⟩ <;> rw [hev] at he
  · exact he
  · cases loaded with
    | ok page => exact overwrites_setFrame he ⟨rfl,rfl,rfl⟩
    | error e =>
      cases sel.fromFreeList
      · exact he
      · exact overwrites_setFrame he ⟨rfl,rfl,rfl⟩

theorem newIo_overwrites (b : BufferPool β ρ) (sel : FrameSelection) (write : Status)
    (allocated : Result PageId) : Overwrites b (b.newIo sel write allocated).2 sel.frameId := by
  have he := evictIo_overwrites b sel write
  unfold BufferPool.newIo
  rcases hev : b.evictIo sel write with ⟨e | _,b₁⟩ <;> rw [hev] at he
  · exact he
  · cases allocated with
    | ok p => exact he
    | error e =>
      cases sel.fromFreeList
      · exact he
      · exact overwrites_setFrame he ⟨rfl,rfl,rfl⟩

theorem finalizeIo_overwrites (b : BufferPool β ρ) (f : FrameId) (write deallocate : Status) :
    Overwrites b (b.finalizeIo f write deallocate).2 f := by
  simp only [BufferPool.finalizeIo]
  split
  · exact overwrites_setFrame (.refl b f) ⟨rfl,rfl,rfl⟩
  · exact .refl b f

theorem restoreIo_overwrites (b : BufferPool β ρ) (f : FrameId) (image : β) (write : Status) :
    Overwrites b (b.restoreIo f image write) f := by
  cases write with
  | ok u => exact overwrites_setFrame (.refl b f) ⟨rfl,rfl,rfl⟩
  | error e => exact .refl b f

theorem newIo_outcome {b : BufferPool β ρ} {s : FrameSelection} {w : Status}
    {allocated : Result PageId} (h : allocated ≠ .ok invalidPageId) :
    (b.newIo s w allocated).1 ≠ .ok invalidPageId := by
  unfold BufferPool.newIo
  rcases b.evictIo s w with ⟨e | _,b₁⟩
  · simp
  · cases allocated with
    | ok p => exact h
    | error e => simp

/-- A write-back moves only the log, the data file and the ghosts. -/
structure WritesBack (s s' : Threads β ρ) : Prop where
  pool : s'.pool = s.pool
  guards : s'.guards = s.guards
  ops : s'.ops = s.ops

theorem flushFrameToDisk_writesBack (s : Threads β ρ) (p : PageId) (f : FrameId)
    (wal write : Status) : WritesBack s (s.flushFrameToDisk p f wal write).2 := by
  cases write <;> simp only [flushFrameToDisk] <;> split <;> exact ⟨rfl,rfl,rfl⟩

theorem flushVictim_writesBack (s : Threads β ρ) (sel : FrameSelection) (oldPage : PageId)
    (wal write : Status) : WritesBack s (s.flushVictim sel oldPage wal write).2 := by
  simp only [flushVictim]
  split
  · exact flushFrameToDisk_writesBack s oldPage sel.frameId wal write
  · exact ⟨rfl,rfl,rfl⟩

theorem flushDirty_writesBack (s : Threads β ρ) (p : PageId) (f : FrameId) (wal write : Status) :
    WritesBack s (s.flushDirty p f wal write).2 := by
  simp only [flushDirty]
  split
  · exact flushFrameToDisk_writesBack s p f wal write
  · exact ⟨rfl,rfl,rfl⟩

/-- A step that takes an operation to the next one of its call, with `b` for the pool. -/
structure Turns (s s' : Threads β ρ) (o q : Op β) (b : BufferPool β ρ) : Prop where
  mem : o ∈ s.ops
  pool : s'.pool = b
  guards : s'.guards = s.guards
  ops : s'.ops = q::s.ops.erase o

section Inversion

variable {s s' : Threads β ρ} {p oldPage : PageId} {f : FrameId} {sel : FrameSelection}
  {k : Access} {wal write deallocate : Status} {loaded : Result β} {allocated : Result PageId}
  {image : β}

theorem next_loadIo (hn : s.next (.loadIo p sel oldPage k wal write loaded) = some s') :
    ∃ status, Turns s s' (.load p sel oldPage k)
      (.loaded p sel oldPage k (s.pool.loadIo sel status loaded).1)
      (s.pool.loadIo sel status loaded).2 := by
  simp only [next] at hn
  obtain ⟨hc,hn⟩ := Option.ite_none_right_eq_some.mp hn
  have hw := flushVictim_writesBack (s.dropOp (.load p sel oldPage k)) sel oldPage wal write
  generalize (s.dropOp (.load p sel oldPage k)).flushVictim sel oldPage wal write = x at hn hw
  obtain rfl := Option.some.inj hn
  have hx : x.2.pool = s.pool := hw.pool
  refine ⟨x.1,?_⟩
  rw [← hx]
  refine ⟨hc.1,by simp [addOp,setPool],?_,?_⟩
  · simp only [addOp,setPool]
    split <;> exact hw.guards
  · simp only [addOp,setPool]
    split <;> exact congrArg _ hw.ops

theorem next_newIo (hn : s.next (.newIo sel oldPage k wal write allocated) = some s') :
    allocated ≠ .ok invalidPageId ∧ ∃ status, Turns s s' (.alloc sel oldPage k)
      (.allocated sel oldPage k (s.pool.newIo sel status allocated).1)
      (s.pool.newIo sel status allocated).2 := by
  simp only [next] at hn
  obtain ⟨hal,hn⟩ := Option.ite_none_left_eq_some.mp hn
  obtain ⟨hc,hn⟩ := Option.ite_none_right_eq_some.mp hn
  have hw := flushVictim_writesBack (s.dropOp (.alloc sel oldPage k)) sel oldPage wal write
  generalize (s.dropOp (.alloc sel oldPage k)).flushVictim sel oldPage wal write = x at hn hw
  obtain rfl := Option.some.inj hn
  have hx : x.2.pool = s.pool := hw.pool
  refine ⟨hal,x.1,?_⟩
  rw [← hx]
  exact ⟨hc.1,rfl,hw.guards,congrArg _ hw.ops⟩

/-- A flush whose frame has been taken away from it ends here. -/
theorem next_flushIo (hn : s.next (.flushIo p f wal write) = some s') :
    (.flushing p f ∈ s.ops ∧ (s.frame f).state ≠ .flushing ∧ s' = s.dropOp (.flushing p f)) ∨
    (s.frame f).pinCount = 1 ∧
      ∃ status, Turns s s' (.flushing p f) (.flushed f status) s.pool := by
  simp only [next] at hn
  obtain ⟨hc,hn⟩ := Option.ite_none_right_eq_some.mp hn
  by_cases hstate : (s.frame f).state ≠ .flushing
  · rw [if_pos hstate] at hn
    exact .inl ⟨hc.1,hstate,(Option.some.inj hn).symm⟩
  rw [if_neg hstate] at hn
  obtain ⟨hp,hn⟩ := Option.ite_none_right_eq_some.mp hn
  have hw := flushDirty_writesBack (s.dropOp (.flushing p f)) p f wal write
  obtain rfl := Option.some.inj hn
  exact .inr ⟨hp,_,hc.1,hw.pool,hw.guards,congrArg _ hw.ops⟩

theorem next_writeThroughIo (hn : s.next (.writeThroughIo p f wal write) = some s') :
    ∃ status, Turns s s' (.writeThrough p f) (.flushed f status) s.pool := by
  simp only [next] at hn
  obtain ⟨hc,hn⟩ := Option.ite_none_right_eq_some.mp hn
  have hw := flushFrameToDisk_writesBack (s.dropOp (.writeThrough p f)) p f wal write
  obtain rfl := Option.some.inj hn
  exact ⟨_,hc.1,hw.pool,hw.guards,congrArg _ hw.ops⟩

theorem next_finalizeIo (hn : s.next (.finalizeIo p f wal write deallocate) = some s') :
    ∃ status, Turns s s' (.finalizing p f)
      (.finalized p f (s.pool.finalizeIo f status deallocate).1)
      (s.pool.finalizeIo f status deallocate).2 := by
  simp only [next] at hn
  obtain ⟨hc,hn⟩ := Option.ite_none_right_eq_some.mp hn
  have hw := flushDirty_writesBack (s.dropOp (.finalizing p f)) p f wal write
  generalize (s.dropOp (.finalizing p f)).flushDirty p f wal write = x at hn hw
  obtain rfl := Option.some.inj hn
  have hx : x.2.pool = s.pool := hw.pool
  refine ⟨x.1,?_⟩
  rw [← hx]
  refine ⟨hc.1,by simp [addOp,setPool],?_,?_⟩
  · simp only [addOp,setPool]
    split <;> exact hw.guards
  · simp only [addOp,setPool]
    split <;> exact congrArg _ hw.ops

theorem next_restoreIo (hn : s.next (.restoreIo f image write) = some s') :
    Turns s s' (.restoring f image) (.restored f write) (s.pool.restoreIo f image write) := by
  simp only [next] at hn
  obtain ⟨hc,hn⟩ := Option.ite_none_right_eq_some.mp hn
  obtain rfl := Option.some.inj hn
  exact ⟨hc.1,rfl,rfl,rfl⟩

end Inversion

/-- `swapOp` for a step whose pool change is an overwrite. -/
theorem Inv.overwrite {s s' : Threads β ρ} (h : s.Inv) {o q : Op β} {f : FrameId}
    (ho : o ∈ s.ops) (hof : o.frame? = some f) (hoq : q.frame? = some f)
    (hops : s'.ops = q::s.ops.erase o) (hguards : s'.guards = s.guards)
    (hpool : Overwrites s.pool s'.pool f) (hfit : q.Fits (s'.frame f))
    (hloads : q.loads = o.loads) : s'.Inv :=
  h.swapOp ho hof hoq hops hguards hpool.pageTable hpool.replacer hpool.freeFrames hpool.others
    hpool.same hfit hloads

/-- The operation found its frame's facts when it entered `ops`. -/
theorem Inv.fits {s : Threads β ρ} (h : s.Inv) {o : Op β} {f : FrameId} (ho : o ∈ s.ops)
    (hof : o.frame? = some f) : o.Fits (s.frame f) :=
  (h.at_ f).fits o (mem_opsAt.mpr ⟨ho,hof⟩)

section InputOutput

variable {s s' : Threads β ρ}

theorem loadIo_inv (h : s.Inv) {p : PageId} {sel : FrameSelection} {oldPage : PageId}
    {k : Access} {wal write : Status} {loaded : Result β}
    (hn : s.next (.loadIo p sel oldPage k wal write loaded) = some s') : s'.Inv := by
  obtain ⟨status,ht⟩ := next_loadIo hn
  have hpool := loadIo_overwrites s.pool sel status loaded
  have hfit := hpool.same.fits (h.fits ht.mem rfl)
  rw [← ht.pool] at hpool hfit
  exact h.overwrite ht.mem rfl rfl ht.ops ht.guards hpool hfit rfl

theorem newIo_inv (h : s.Inv) {sel : FrameSelection} {oldPage : PageId} {k : Access}
    {wal write : Status} {allocated : Result PageId}
    (hn : s.next (.newIo sel oldPage k wal write allocated) = some s') : s'.Inv := by
  obtain ⟨hal,status,ht⟩ := next_newIo hn
  have hpool := newIo_overwrites s.pool sel status allocated
  have hfit := hpool.same.fits (h.fits ht.mem rfl)
  rw [← ht.pool] at hpool hfit
  exact h.overwrite ht.mem rfl rfl ht.ops ht.guards hpool
    ⟨hfit.1,hfit.2.1,hfit.2.2,newIo_outcome hal⟩ rfl

theorem flushIo_inv (h : s.Inv) {p : PageId} {f : FrameId} {wal write : Status}
    (hn : s.next (.flushIo p f wal write) = some s') : s'.Inv := by
  rcases next_flushIo hn with ⟨hmem,hstate,-⟩ | ⟨hpin,status,ht⟩
  · exact absurd (h.fits hmem rfl) hstate
  · have hpool := Overwrites.refl s.pool f
    have hfit : (s.frame f).state = .flushing := h.fits ht.mem rfl
    refine h.overwrite ht.mem rfl rfl ht.ops ht.guards (ht.pool ▸ hpool) ?_ rfl
    simp only [frame,ht.pool]
    exact ⟨hfit,hpin⟩

theorem writeThroughIo_inv (h : s.Inv) {p : PageId} {f : FrameId} {wal write : Status}
    (hn : s.next (.writeThroughIo p f wal write) = some s') : s'.Inv := by
  obtain ⟨status,ht⟩ := next_writeThroughIo hn
  have hfit := h.fits ht.mem rfl
  refine h.overwrite ht.mem rfl rfl ht.ops ht.guards (ht.pool ▸ .refl s.pool f) ?_ rfl
  simp only [frame,ht.pool]
  exact hfit

theorem finalizeIo_inv (h : s.Inv) {p : PageId} {f : FrameId} {wal write deallocate : Status}
    (hn : s.next (.finalizeIo p f wal write deallocate) = some s') : s'.Inv := by
  obtain ⟨status,ht⟩ := next_finalizeIo hn
  have hpool := finalizeIo_overwrites s.pool f status deallocate
  have hfit := hpool.same.fits (h.fits ht.mem rfl)
  rw [← ht.pool] at hpool hfit
  exact h.overwrite ht.mem rfl rfl ht.ops ht.guards hpool hfit rfl

theorem restoreIo_inv (h : s.Inv) {f : FrameId} {image : β} {write : Status}
    (hn : s.next (.restoreIo f image write) = some s') : s'.Inv := by
  have ht := next_restoreIo hn
  have hpool := restoreIo_overwrites s.pool f image write
  have hfit := hpool.same.fits (h.fits ht.mem rfl)
  rw [← ht.pool] at hpool hfit
  exact h.overwrite ht.mem rfl rfl ht.ops ht.guards hpool hfit rfl

/-! ### Taking a frame for a new page -/

theorem newPage_inv (h : s.Inv) {k : Access} (hn : s.next (.newPage k) = some s') : s'.Inv := by
  simp only [next, BufferPool.newPage] at hn
  rcases hsel : s.pool.selectFrame with ⟨e | sel,b₁⟩ <;> rw [hsel] at hn
  · obtain rfl := Option.some.inj hn
    rcases selectFrame_cases s.pool with ⟨e',b',he,hq⟩ | ⟨_,_,-,-,he⟩ | ⟨_,_,-,-,-,-,-,he⟩ <;>
      rw [hsel] at he
    · simp only [Prod.mk.injEq] at he
      exact h.setPool (he.2 ▸ hq)
    · simp at he
    · simp at he
  · obtain rfl := Option.some.inj hn
    have htable : b₁.pageTable = s.pool.pageTable := selectFrame_table hsel
    refine h.select hsel rfl ?_ ?_ ?_ (fun q hq => .inl ?_) (fun hz hs hf => ?_) fun hf => ?_
    · split
      · exact poolAt_setFrame _ _ _
      · exact ⟨fun _ _ => rfl,fun _ _ _ h => h,fun _ _ h => h,fun _ _ h => h⟩
    · cases sel.fromFreeList <;> rfl
    · cases sel.fromFreeList <;> rfl
    · rw [← htable]
      cases hfl : sel.fromFreeList <;> simpa [hfl, BufferPool.setFrame] using hq
    · cases hfl : sel.fromFreeList <;> simp only [hfl] at hz hs hf ⊢
      · exact ⟨by simpa using hz,.inr (by simpa using hs),by simpa using hz,by simp [hfl]⟩
      · refine ⟨by simp [BufferPool.setFrame],.inl (by simpa [BufferPool.setFrame] using hs),?_,?_⟩
        · simp [BufferPool.setFrame]
        · simpa [BufferPool.setFrame, hfl] using hf trivial
    · simp [hf]

end InputOutput

/-! ### Giving a frame out -/

/-- What can be mapped to a frame with a lone operation. -/
theorem Inv.mapped_solo {s : Threads β ρ} (h : s.Inv) {o : Op β} {f : FrameId} (ho : o ∈ s.ops)
    (hof : o.frame? = some f) (hp : (s.frame f).pinCount = 1) {q : PageId}
    (hq : s.pool.pageTable q = some f) :
    q ≠ invalidPageId ∧ ((s.frame f).pageId = q ∨ o.loads = some q) := by
  obtain ⟨hne,hor⟩ := (h.at_ f).mapped q hq
  refine ⟨hne,hor.imp id fun ⟨x,hx,hl⟩ => ?_⟩
  rw [((h.at_ f).solo (mem_opsAt.mpr ⟨ho,hof⟩) hp).2,List.mem_singleton] at hx
  exact hx ▸ hl

theorem Inv.not_free {s : Threads β ρ} (h : s.Inv) {f : FrameId}
    (hp : (s.frame f).pinCount = 1) : f ∉ s.pool.freeFrames ∧ ¬ s.evictable f := by
  refine ⟨fun hf => ?_,fun he => ?_⟩
  · have := ((h.at_ f).unused hf).1
    omega
  · have := ((h.at_ f).candidate he).1
    omega

theorem poolAt_unevict (b : BufferPool β ρ) (f : FrameId) : PoolAt b (b.unevict f) f :=
  (poolAt_setFrame _ _ _).trans (poolAt_unpin _ _)

theorem poolAt_install (b : BufferPool β ρ) (f : FrameId) (p : PageId) :
    PoolAt b (b.install f p) f := by
  refine (poolAt_setFrame _ _ _).trans (poolAt_replacer _ fun g hg he => ?_)
  simpa [hg] using he

section GivingOut

variable (b : BufferPool β ρ) (f : FrameId) (p : PageId)

theorem setFrame_self (x : Frame β) : (b.setFrame f x).frames f = x := Function.update_self _ _ _

theorem install_frame : (b.install f p).frames f =
    { b.frames f with
      pageId := p, pinCount := 1, isDirty := false, pageLsn := invalidLsn, state := .valid } :=
  Function.update_self _ _ _

theorem install_evictable : Replacer.isEvictable (b.install f p).replacer f = false := by
  simp [BufferPool.install, BufferPool.mapReplacer]

theorem unevict_frame : (b.unevict f).frames f =
    { b.frames f with pinCount := 0, state := .valid } := Function.update_self _ _ _

end GivingOut

section Done

variable {s s' : Threads β ρ}

theorem loadDone_inv (h : s.Inv) {p : PageId} {sel : FrameSelection} {oldPage : PageId}
    {k : Access} {outcome : Status}
    (hn : s.next (.loadDone p sel oldPage k outcome) = some s') : s'.Inv := by
  simp only [next] at hn
  split at hn
  swap
  · simp at hn
  next hc =>
  obtain ⟨-,hp,hpage⟩ := h.fits hc rfl
  obtain ⟨hnf,hne⟩ := h.not_free hp
  have hmap : ∀ q, s.pool.pageTable q = some sel.frameId → q ≠ invalidPageId ∧
      ((s.frame sel.frameId).pageId = q ∨ some p = some q) := fun q hq => h.mapped_solo hc rfl hp hq
  cases outcome with
  | error e =>
    simp only [BufferPool.finishLoad, pool_dropOp] at hn
    obtain rfl := Option.some.inj hn
    cases hfl : sel.fromFreeList <;> simp only [hfl] at hpage
    · refine h.give (G := []) hc rfl hp rfl rfl (by simp) ?_ h.freeNodup ?_ (by simp) ?_ ?_ ?_
      · exact ((poolAt_unmap _ p _).trans (poolAt_unevict _ _)).trans
          ⟨fun _ _ => rfl,fun _ _ _ h => h,fun _ _ h => h,fun _ _ h => h⟩
      · show ((BufferPool.unevict _ _).frames _).pinCount = 0
        rw [unevict_frame]
      · intro q hq
        obtain ⟨hqp,hq⟩ := unmap_mapped hq
        obtain ⟨hqi,hor⟩ := hmap q hq
        refine ⟨hqi,?_⟩
        show ((BufferPool.unevict _ _).frames _).pageId = q
        rw [unevict_frame]
        exact hor.resolve_right fun he => hqp (Option.some.inj he).symm
      · refine fun _ => ⟨rfl,?_⟩
        show ((BufferPool.unevict _ _).frames _).state ≠ .deletePending
        rw [unevict_frame]
        exact fun he => by cases he
      · exact fun hf => absurd hf hnf
    · have hret := returnFreeFrame_same ((s.pool.unmap p).setFrame sel.frameId
        { (s.pool.unmap p).frames sel.frameId with
          page := 0, pageId := invalidPageId, pinCount := 0, isDirty := false, state := .empty })
        sel.frameId
      refine h.give (G := []) hc rfl hp rfl rfl (by simp) ?_ ?_ ?_ (by simp) ?_ ?_ ?_
      · exact (((poolAt_unmap _ p _).trans (poolAt_setFrame _ _ _)).trans
          (returnFreeFrame_poolAt _ _)).trans
          ⟨fun _ _ => rfl,fun _ _ _ h => h,fun _ _ h => h,fun _ _ h => h⟩
      · refine returnFreeFrame_nodup ?_ _
        exact h.freeNodup
      · show ((BufferPool.returnFreeFrame _ _).2.frames _).pinCount = 0
        rw [hret.1,setFrame_self]
      · intro q hq
        have hq' : ((s.pool.unmap p).pageTable q) = some sel.frameId := by
          have : (BufferPool.returnFreeFrame _ _).2.pageTable q = some sel.frameId := hq
          rw [hret.2.2] at this
          exact this
        obtain ⟨hqp,hq'⟩ := unmap_mapped hq'
        rcases (hmap q hq').2 with hx | hx
        · exact absurd (hx.symm.trans hpage) hqp
        · exact absurd (Option.some.inj hx).symm hqp
      · refine fun he => absurd ?_ hne
        have : Replacer.isEvictable (BufferPool.returnFreeFrame _ _).2.replacer sel.frameId =
          true := he
        rw [hret.2.1] at this
        exact this
      · refine fun _ => ⟨rfl,?_,fun he => hne ?_⟩
        · show ((BufferPool.returnFreeFrame _ _).2.frames _).state = .empty
          rw [hret.1,setFrame_self]
        · have : Replacer.isEvictable (BufferPool.returnFreeFrame _ _).2.replacer sel.frameId =
            true := he
          rw [hret.2.1] at this
          exact this
  | ok u =>
    simp only [BufferPool.finishLoad, pool_dropOp] at hn
    obtain rfl := Option.some.inj hn
    refine h.give (G := [newGuard sel.frameId p k]) hc rfl hp rfl rfl (by simp [newGuard]) ?_ ?_
      ?_ ?_ ?_ ?_ ?_
    · refine PoolAt.trans ?_ (poolAt_install _ _ _)
      split
      · exact ⟨fun _ _ => rfl,fun _ _ _ h => h,fun _ _ h => h,fun _ _ h => h⟩
      · exact poolAt_unmap _ _ _
    · cases sel.fromFreeList <;> exact h.freeNodup
    · show ((BufferPool.install _ _ _).frames _).pinCount = 1
      rw [install_frame]
    · intro g hg
      rw [List.mem_singleton.mp hg]
      show ((BufferPool.install _ _ _).frames _).pageId = p
      rw [install_frame]
    · intro q hq
      show q ≠ invalidPageId ∧ ((BufferPool.install _ _ _).frames _).pageId = q
      rw [install_frame]
      cases hfl : sel.fromFreeList <;> simp only [hfl] at hpage
      · have hq' : (s.pool.unmap oldPage).pageTable q = some sel.frameId := by
          simpa [hfl, BufferPool.install, BufferPool.setFrame, BufferPool.mapReplacer] using hq
        obtain ⟨hqo,hq'⟩ := unmap_mapped hq'
        obtain ⟨hqi,hor⟩ := hmap q hq'
        refine ⟨hqi,?_⟩
        rcases hor with hx | hx
        · exact absurd (hx.symm.trans hpage) hqo
        · exact Option.some.inj hx
      · have hq' : s.pool.pageTable q = some sel.frameId := by
          simpa [hfl, BufferPool.install, BufferPool.setFrame, BufferPool.mapReplacer] using hq
        obtain ⟨hqi,hor⟩ := hmap q hq'
        refine ⟨hqi,?_⟩
        rcases hor with hx | hx
        · exact hpage.symm.trans hx
        · exact Option.some.inj hx
    · intro he
      have he' : Replacer.isEvictable (BufferPool.install _ _ _).replacer sel.frameId = true := he
      rw [install_evictable] at he'
      cases he'
    · intro hf
      refine absurd ?_ hnf
      cases hfl : sel.fromFreeList <;>
        simpa [hfl, BufferPool.install, BufferPool.setFrame, BufferPool.mapReplacer,
          BufferPool.unmap] using hf

theorem newDone_inv (h : s.Inv) {sel : FrameSelection} {oldPage : PageId} {k : Access}
    {outcome : Result PageId}
    (hn : s.next (.newDone sel oldPage k outcome) = some s') : s'.Inv := by
  simp only [next] at hn
  split at hn
  swap
  · simp at hn
  next hc =>
  obtain ⟨-,hp,hpage,hout⟩ := h.fits hc rfl
  obtain ⟨hnf,hne⟩ := h.not_free hp
  have hmap : ∀ q, s.pool.pageTable q = some sel.frameId →
      q ≠ invalidPageId ∧ (s.frame sel.frameId).pageId = q := fun q hq => by
    obtain ⟨hqi,hor⟩ := h.mapped_solo hc rfl hp hq
    exact ⟨hqi,hor.resolve_right (by simp [Op.loads])⟩
  cases outcome with
  | error e =>
    simp only [BufferPool.finishNew, pool_dropOp] at hn
    obtain rfl := Option.some.inj hn
    cases hfl : sel.fromFreeList <;> simp only [hfl] at hpage
    · refine h.give (G := []) hc rfl hp rfl rfl (by simp) (poolAt_unevict _ _) h.freeNodup ?_
        (by simp) ?_ ?_ ?_
      · show ((BufferPool.unevict _ _).frames _).pinCount = 0
        rw [unevict_frame]
      · intro q hq
        show q ≠ invalidPageId ∧ ((BufferPool.unevict _ _).frames _).pageId = q
        rw [unevict_frame]
        exact hmap q hq
      · refine fun _ => ⟨rfl,?_⟩
        show ((BufferPool.unevict _ _).frames _).state ≠ .deletePending
        rw [unevict_frame]
        exact fun he => by cases he
      · exact fun hf => absurd hf hnf
    · have hret := returnFreeFrame_same (s.pool.setFrame sel.frameId
        { s.pool.frames sel.frameId with
          pageId := invalidPageId, pinCount := 0, isDirty := false, state := .empty })
        sel.frameId
      refine h.give (G := []) hc rfl hp rfl rfl (by simp) ?_ ?_ ?_ (by simp) ?_ ?_ ?_
      · exact (poolAt_setFrame _ _ _).trans (returnFreeFrame_poolAt _ _)
      · refine returnFreeFrame_nodup ?_ _
        exact h.freeNodup
      · show ((BufferPool.returnFreeFrame _ _).2.frames _).pinCount = 0
        rw [hret.1,setFrame_self]
      · intro q hq
        have hq' : (BufferPool.returnFreeFrame _ _).2.pageTable q = some sel.frameId := hq
        rw [hret.2.2] at hq'
        obtain ⟨hqi,hx⟩ := hmap q hq'
        exact absurd (hx.symm.trans hpage) hqi
      · refine fun he => absurd ?_ hne
        have : Replacer.isEvictable (BufferPool.returnFreeFrame _ _).2.replacer sel.frameId =
          true := he
        rw [hret.2.1] at this
        exact this
      · refine fun _ => ⟨rfl,?_,fun he => hne ?_⟩
        · show ((BufferPool.returnFreeFrame _ _).2.frames _).state = .empty
          rw [hret.1,setFrame_self]
        · have : Replacer.isEvictable (BufferPool.returnFreeFrame _ _).2.replacer sel.frameId =
            true := he
          rw [hret.2.1] at this
          exact this
  | ok p =>
    simp only [BufferPool.finishNew, pool_dropOp] at hn
    obtain rfl := Option.some.inj hn
    have hpi : p ≠ invalidPageId := fun he => hout (by rw [he])
    refine h.give (G := [newGuard sel.frameId p { k with writer := true }]) hc rfl hp rfl rfl
      (by simp [newGuard]) ?_ ?_ ?_ ?_ ?_ ?_ ?_
    · refine PoolAt.trans (PoolAt.trans ?_ (poolAt_map _ p _)) (poolAt_install _ _ _)
      split
      · exact poolAt_setFrame _ _ _
      · exact (poolAt_setFrame _ _ _).trans (poolAt_unmap _ _ _)
    · cases sel.fromFreeList <;> exact h.freeNodup
    · show ((BufferPool.install _ _ _).frames _).pinCount = 1
      rw [install_frame]
    · intro g hg
      rw [List.mem_singleton.mp hg]
      show ((BufferPool.install _ _ _).frames _).pageId = p
      rw [install_frame]
    · intro q hq
      show q ≠ invalidPageId ∧ ((BufferPool.install _ _ _).frames _).pageId = q
      rw [install_frame]
      by_cases hqp : q = p
      · exact ⟨hqp ▸ hpi,hqp.symm⟩
      cases hfl : sel.fromFreeList <;> simp only [hfl] at hpage
      · have hq' : (s.pool.unmap oldPage).pageTable q = some sel.frameId := by
          simpa [hfl, BufferPool.install, BufferPool.setFrame, BufferPool.mapReplacer,
            BufferPool.map, BufferPool.unmap, hqp] using hq
        obtain ⟨hqo,hq'⟩ := unmap_mapped hq'
        exact absurd ((hmap q hq').2.symm.trans hpage) hqo
      · have hq' : s.pool.pageTable q = some sel.frameId := by
          simpa [hfl, BufferPool.install, BufferPool.setFrame, BufferPool.mapReplacer,
            BufferPool.map, hqp] using hq
        exact absurd ((hmap q hq').2.symm.trans hpage) (hmap q hq').1
    · intro he
      have he' : Replacer.isEvictable (BufferPool.install _ _ _).replacer sel.frameId = true := he
      rw [install_evictable] at he'
      cases he'
    · intro hf
      refine absurd ?_ hnf
      cases hfl : sel.fromFreeList <;>
        simpa [hfl, BufferPool.install, BufferPool.setFrame, BufferPool.mapReplacer,
          BufferPool.map, BufferPool.unmap] using hf

end Done

end Threads
end Buffer
end OurSql
