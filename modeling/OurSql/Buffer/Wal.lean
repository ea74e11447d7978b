import OurSql.Buffer.PinCount

/-! WAL before data: what the log must cover of each frame, and that the pages of the
data file never run ahead of the durable log. -/
namespace OurSql
namespace Buffer

set_option linter.unusedSectionVars false

open BufferPool (Fetch Flush Release Finalize Restore)

variable {β ρ : Type} [Zero β] [DecidableEq β] [Replacer ρ]

/-- The update of the guard is in the log and not yet in the frame's dirty bit. -/
def Guard.settled (g : Guard β) : Bool :=
  g.dirty && match g.hold with
    | .logged _ | .recorded | .closed => true
    | .waiting | .latched => false

/-- The frame whose bytes the operation knows to be covered by the durable log. -/
def Op.settles : Op β → Option FrameId
  | .load _ sel _ _ | .alloc sel _ _ | .allocated sel _ _ _ =>
    if sel.fromFreeList then some sel.frameId else none
  | .loaded _ sel _ _ outcome =>
    if sel.fromFreeList ∨ outcome = .ok () then some sel.frameId else none
  | .flushed f outcome | .finalized _ f outcome => if outcome = .ok () then some f else none
  | _ => none

namespace Threads

def Durable (s : Threads β ρ) (f : FrameId) : Prop := ∀ l ∈ s.included f, l ≤ s.durableLsn

structure Wal (s : Threads β ρ) : Prop where
  covered : ∀ f, ∀ l ∈ s.included f, l ≤ s.durableLsn ∨ l ≤ (s.frame f).pageLsn ∨
    ∃ g ∈ s.guards, g.frame = f ∧ g.hold = .logged l
  dirty : ∀ f, ∀ l ∈ s.included f, l ≤ s.durableLsn ∨ (s.frame f).isDirty = true ∨
    ∃ g ∈ s.guards, g.frame = f ∧ g.settled = true
  settled : ∀ o ∈ s.ops, ∀ f, o.settles = some f → s.Durable f
  free : ∀ f ∈ s.pool.freeFrames, s.Durable f
  onDisk : ∀ p, ∀ l ∈ s.onDisk p, l ≤ s.durableLsn
  lsns : ∀ f, (s.frame f).pageLsn ≤ s.appendLsn
  durable : s.durableLsn ≤ s.appendLsn
  logged : ∀ g ∈ s.guards, ∀ l, g.hold = .logged l →
    g.logs = true ∧ l ≤ s.appendLsn ∧ ∀ m ∈ s.included g.frame, m ≤ l
  latched : ∀ g ∈ s.guards, g.hold.hasLatch = true → g.access.writer = true →
    s.guards.countP (fun h => h.frame = g.frame && h.hold.hasLatch) ≤ 1

/-- The log and the data file are as they were. -/
structure SameLog (s s' : Threads β ρ) : Prop where
  appendLsn : s'.appendLsn = s.appendLsn
  durableLsn : s'.durableLsn = s.durableLsn
  onDisk : s'.onDisk = s.onDisk

/-- What a frame owes to the log is unchanged, or it owes nothing. -/
def Owes (s s' : Threads β ρ) (f : FrameId) : Prop :=
  s'.Durable f ∧ (s'.frame f).pageLsn ≤ s.appendLsn ∨
    s'.included f = s.included f ∧ (s'.frame f).pageLsn = (s.frame f).pageLsn ∧
      ((s.frame f).isDirty = true → (s'.frame f).isDirty = true)

section Steps

variable {s s' : Threads β ρ}

theorem Owes.durable {f : FrameId} (h : s.Owes s' f) (hl : s'.durableLsn = s.durableLsn)
    (hd : s.Durable f) : s'.Durable f := by
  rcases h with h | ⟨hi,-,-⟩
  · exact h.1
  · intro l hm
    rw [hi] at hm
    rw [hl]
    exact hd l hm

/-- A new guard still waits for the latch. -/
def Welcomes (s s' : Threads β ρ) : Prop :=
  s'.guards = s.guards ∨ ∃ g : Guard β, g.hold = .waiting ∧ s'.guards = g::s.guards

theorem Welcomes.mem (h : s.Welcomes s') {g : Guard β} (hg : g ∈ s'.guards) :
    g ∈ s.guards ∨ g.hold = .waiting := by
  rcases h with he | ⟨x,hx,he⟩ <;> rw [he] at hg
  · exact .inl hg
  · rcases List.mem_cons.mp hg with rfl | hg
    · exact .inr hx
    · exact .inl hg

theorem Welcomes.keep (h : s.Welcomes s') {g : Guard β} (hg : g ∈ s.guards) : g ∈ s'.guards := by
  rcases h with he | ⟨x,-,he⟩ <;> rw [he]
  · exact hg
  · exact List.mem_cons_of_mem x hg

theorem Welcomes.countP (h : s.Welcomes s') (f : FrameId) :
    s'.guards.countP (fun g => g.frame = f && g.hold.hasLatch) =
      s.guards.countP (fun g => g.frame = f && g.hold.hasLatch) := by
  rcases h with he | ⟨x,hx,he⟩ <;> rw [he]
  rw [List.countP_cons,hx]
  simp [Hold.hasLatch]

/-- The rule for every step that changes no guard. -/
theorem Wal.step (h : s.Wal) (hl : SameLog s s') (hf : ∀ f, s.Owes s' f)
    (hg : s.Welcomes s')
    (hops : ∀ o ∈ s'.ops, o ∈ s.ops ∨ ∀ f, o.settles = some f → s'.Durable f)
    (hfree : ∀ f ∈ s'.pool.freeFrames, f ∈ s.pool.freeFrames ∨ s'.Durable f)
    (hincl : ∀ g ∈ s.guards, ∀ m ∈ s'.included g.frame, m ∈ s.included g.frame) : s'.Wal where
  covered f l hm := by
    rcases hf f with ⟨hd,-⟩ | ⟨hi,hp,-⟩
    · exact .inl (hd l hm)
    · rw [hi] at hm
      rw [hl.durableLsn,hp]
      exact (h.covered f l hm).imp id fun hx => hx.imp id fun ⟨g,hmem,hx⟩ => ⟨g,hg.keep hmem,hx⟩
  dirty f l hm := by
    rcases hf f with ⟨hd,-⟩ | ⟨hi,-,hb⟩
    · exact .inl (hd l hm)
    · rw [hi] at hm
      rw [hl.durableLsn]
      exact (h.dirty f l hm).imp id fun hx => hx.imp hb fun ⟨g,hmem,hx⟩ => ⟨g,hg.keep hmem,hx⟩
  settled o ho f hs := by
    rcases hops o ho with hold | hnew
    · exact (hf f).durable hl.durableLsn (h.settled o hold f hs)
    · exact hnew f hs
  free f hmem := by
    rcases hfree f hmem with hold | hnew
    · exact (hf f).durable hl.durableLsn (h.free f hold)
    · exact hnew
  onDisk p l hm := by
    rw [hl.onDisk] at hm
    rw [hl.durableLsn]
    exact h.onDisk p l hm
  lsns f := by
    rw [hl.appendLsn]
    rcases hf f with ⟨-,hp⟩ | ⟨-,hp,-⟩
    · exact hp
    · rw [hp]
      exact h.lsns f
  durable := by
    rw [hl.appendLsn,hl.durableLsn]
    exact h.durable
  logged g hmem l hold := by
    rcases hg.mem hmem with hx | hx
    · obtain ⟨hlog,hle,hmax⟩ := h.logged g hx l hold
      rw [hl.appendLsn]
      exact ⟨hlog,hle,fun m hm => hmax m (hincl g hx m hm)⟩
    · rw [hx] at hold
      cases hold
  latched g hmem hlat hw := by
    rcases hg.mem hmem with hx | hx
    · rw [hg.countP]
      exact h.latched g hx hlat hw
    · rw [hx] at hlat
      cases hlat

/-- No frame's LSN and no dirty bit changed. -/
def SameMeta (b b' : BufferPool β ρ) : Prop :=
  ∀ f, (b'.frames f).pageLsn = (b.frames f).pageLsn ∧ (b'.frames f).isDirty = (b.frames f).isDirty

theorem SameMeta.refl (b : BufferPool β ρ) : SameMeta b b := fun _ => ⟨rfl,rfl⟩

theorem SameMeta.trans {b b' b'' : BufferPool β ρ} (h : SameMeta b b') (h' : SameMeta b' b'') :
    SameMeta b b'' := fun f => ⟨(h' f).1.trans (h f).1,(h' f).2.trans (h f).2⟩

theorem Quiet.sameMeta {b b' : BufferPool β ρ} (h : Quiet b b') : SameMeta b b' := fun f => by
  rw [h.frames]
  exact ⟨rfl,rfl⟩

theorem sameMeta_of_frames {b b' : BufferPool β ρ} (h : b'.frames = b.frames) : SameMeta b b' :=
  fun f => by rw [h]; exact ⟨rfl,rfl⟩

theorem sameMeta_setFrame {b b' : BufferPool β ρ} (h : SameMeta b b') {f : FrameId} {x : Frame β}
    (hp : x.pageLsn = (b.frames f).pageLsn) (hd : x.isDirty = (b.frames f).isDirty) :
    SameMeta b (b'.setFrame f x) := by
  intro g
  by_cases hg : g = f
  · rw [hg,setFrame_self]
    exact ⟨hp,hd⟩
  · rw [show (b'.setFrame f x).frames g = b'.frames g from Function.update_of_ne hg _ _]
    exact h g

/-- `Wal.step` for a section that only moves pins, states and tables. -/
theorem Wal.meta (h : s.Wal) {b : BufferPool β ρ} (hm : SameMeta s.pool b)
    (hfree : ∀ f ∈ b.freeFrames, f ∈ s.pool.freeFrames) : (s.setPool b).Wal :=
  h.step ⟨rfl,rfl,rfl⟩ (fun f => .inr ⟨rfl,(hm f).1,fun hd => (hm f).2.trans hd⟩) (.inl rfl)
    (fun _ ho => .inl ho) (fun f hf => .inl (hfree f hf)) fun _ _ _ hx => hx

theorem Wal.addOp (h : s.Wal) {o : Op β} (ho : ∀ f, o.settles = some f → s.Durable f) :
    (s.addOp o).Wal :=
  h.step ⟨rfl,rfl,rfl⟩ (fun _ => .inr ⟨rfl,rfl,id⟩) (.inl rfl)
    (fun _ hx => (List.mem_cons.mp hx).elim (fun he => .inr fun f hf => ho f (he ▸ hf)) .inl)
    (fun _ hf => .inl hf) fun _ _ _ hx => hx

theorem Wal.addFreeOp (h : s.Wal) {o : Op β} (ho : o.settles = none) : (s.addOp o).Wal :=
  h.addOp fun f hf => by simp [ho] at hf

theorem Wal.dropOp (h : s.Wal) (o : Op β) : (s.dropOp o).Wal :=
  h.step ⟨rfl,rfl,rfl⟩ (fun _ => .inr ⟨rfl,rfl,id⟩) (.inl rfl)
    (fun _ hx => .inl (List.mem_of_mem_erase hx)) (fun _ hf => .inl hf) fun _ _ _ hx => hx

theorem Wal.addGuard (h : s.Wal) {g : Guard β} (hg : g.hold = .waiting) : (s.addGuard g).Wal :=
  h.step ⟨rfl,rfl,rfl⟩ (fun _ => .inr ⟨rfl,rfl,id⟩) (.inr ⟨g,hg,rfl⟩) (fun _ hx => .inl hx)
    (fun _ hf => .inl hf) fun _ _ _ hx => hx

/-! ### Sections that move pins -/

theorem selectFrame_meta {b b₁ : BufferPool β ρ} {sel : FrameSelection}
    (h : b.selectFrame = (.ok sel,b₁)) : SameMeta b b₁ ∧ (∀ f ∈ b₁.freeFrames, f ∈ b.freeFrames) ∧
      (sel.fromFreeList = true → sel.frameId ∈ b.freeFrames) := by
  rcases selectFrame_cases b with ⟨_,_,he,-⟩ | ⟨f,rest,hf,-,he⟩ | ⟨f,r,-,-,-,-,-,he⟩ <;>
    rw [h] at he
  · simp at he
  · simp only [Prod.mk.injEq, Except.ok.injEq] at he
    obtain ⟨rfl,rfl⟩ := he
    refine ⟨sameMeta_setFrame (sameMeta_of_frames rfl) rfl rfl,fun g hg => ?_,fun _ => ?_⟩
    · rw [hf]
      exact List.mem_cons_of_mem _ hg
    · simp [hf]
  · simp only [Prod.mk.injEq, Except.ok.injEq] at he
    obtain ⟨rfl,rfl⟩ := he
    exact ⟨sameMeta_setFrame (sameMeta_of_frames rfl) rfl rfl,fun _ hg => hg,fun hx => by simp at hx⟩

theorem lookup_wal (h : s.Wal) (p : PageId) (k : Access) :
    (s.fetched p k (s.pool.lookup p)).Wal := by
  rcases lookup_cases s.pool p with ⟨e,b,he,hq⟩ | ⟨b,he,hq⟩ | ⟨f,-,-,he⟩ | ⟨sel,b₁,-,hsel,he⟩ <;>
    rw [he]
  · exact h.meta hq.sameMeta hq.free.subset
  · exact (h.meta hq.sameMeta hq.free.subset).addFreeOp rfl
  · show ((s.setPool _).addGuard (newGuard f p k)).Wal
    refine Wal.addGuard ?_ rfl
    refine h.meta (sameMeta_setFrame ?_ rfl rfl) fun _ hf => hf
    exact sameMeta_of_frames rfl
  · obtain ⟨hm,hsub,hmem⟩ := selectFrame_meta hsel
    have hpool : SameMeta s.pool ((if sel.fromFreeList then b₁.setFrame sel.frameId
        { b₁.frames sel.frameId with pageId := p, pinCount := 1 } else b₁).map p sel.frameId) := by
      split
      · exact sameMeta_setFrame hm (hm _).1 (hm _).2
      · exact hm
    refine (h.meta hpool fun f hf => hsub f ?_).addOp fun f hf => ?_
    · revert hf
      cases sel.fromFreeList <;> exact id
    · simp only [Op.settles] at hf
      split at hf
      · next hfl => exact Option.some.inj hf ▸ h.free _ (hmem hfl)
      · cases hf

theorem fetch_wal (h : s.Wal) {p : PageId} {k : Access} (hn : s.next (.fetch p k) = some s') :
    s'.Wal := by
  obtain rfl := Option.some.inj hn
  unfold BufferPool.fetchPage
  cases BufferPool.validateDataPageId p with
  | error e => exact h.meta (.refl _) fun _ hf => hf
  | ok u => exact lookup_wal h p k

theorem wakeFetch_wal (h : s.Wal) {p : PageId} {k : Access}
    (hn : s.next (.wakeFetch p k) = some s') : s'.Wal := by
  simp only [next] at hn
  split at hn
  swap
  · simp at hn
  obtain rfl := Option.some.inj hn
  have hd := h.dropOp (.fetchWait p k)
  rcases wake_cases s.pool p with ⟨e,b,he,hq⟩ | ⟨b,he,hq,-⟩ <;> rw [he]
  · exact hd.meta hq.sameMeta hq.free.subset
  · exact lookup_wal (hd.meta hq.sameMeta hq.free.subset) p k

theorem newPage_wal (h : s.Wal) {k : Access} (hn : s.next (.newPage k) = some s') : s'.Wal := by
  simp only [next, BufferPool.newPage] at hn
  rcases hsel : s.pool.selectFrame with ⟨e | sel,b₁⟩ <;> rw [hsel] at hn
  · obtain rfl := Option.some.inj hn
    rcases selectFrame_cases s.pool with ⟨e',b',he,hq⟩ | ⟨_,_,-,-,he⟩ | ⟨_,_,-,-,-,-,-,he⟩ <;>
      rw [hsel] at he
    · simp only [Prod.mk.injEq] at he
      exact h.meta (he.2 ▸ hq.sameMeta) (he.2 ▸ hq.free.subset)
    · simp at he
    · simp at he
  · obtain rfl := Option.some.inj hn
    obtain ⟨hm,hsub,hmem⟩ := selectFrame_meta hsel
    refine (h.meta ?_ fun f hf => hsub f ?_).addOp fun f hf => ?_
    · split
      · exact sameMeta_setFrame hm (hm _).1 (hm _).2
      · exact hm
    · revert hf
      cases sel.fromFreeList <;> exact id
    · simp only [Op.settles] at hf
      split at hf
      · next hfl => exact Option.some.inj hf ▸ h.free _ (hmem hfl)
      · cases hf

theorem flushPin_wal (h : s.Wal) (p : PageId) (f : FrameId) :
    (s.flushed p (s.pool.flushPin f)).Wal := by
  rcases flushPin_cases s.pool f with he | ⟨b,-,hframes,-,hfree,-,-,-,he⟩ <;> rw [he]
  · exact h.meta (.refl _) fun _ hf => hf
  · show ((s.setPool _).addOp (.flushing p f)).Wal
    refine Wal.addFreeOp ?_ rfl
    refine h.meta (sameMeta_setFrame ?_ rfl rfl) fun g hg => ?_
    · exact sameMeta_of_frames hframes
    · rw [← hfree]
      exact hg

theorem flushPage_wal (h : s.Wal) {p : PageId} (hn : s.next (.flushPage p) = some s') :
    s'.Wal := by
  obtain rfl := Option.some.inj hn
  unfold BufferPool.flushPage
  cases s.pool.pageTable p with
  | none => exact h.meta (.refl _) fun _ hf => hf
  | some f =>
    cases hs : (s.pool.frames f).state <;> simp only [hs]
    case valid => exact flushPin_wal h p f
    case deletePending => exact h.meta (.refl _) fun _ hf => hf
    all_goals exact (h.meta (.refl _) fun _ hf => hf).addFreeOp rfl

theorem wakeFlush_wal (h : s.Wal) {p : PageId} {f : FrameId}
    (hn : s.next (.wakeFlush p f) = some s') : s'.Wal := by
  simp only [next] at hn
  split at hn
  swap
  · simp at hn
  obtain rfl := Option.some.inj hn
  have hd := h.dropOp (.flushBlocked p f)
  unfold BufferPool.flushWake
  cases s.pool.pageTable p with
  | none => exact hd.meta (.refl _) fun _ hf => hf
  | some f' =>
    cases hs : (s.pool.frames f).state
    case valid => exact flushPin_wal hd p f
    case deletePending => exact hd.meta (.refl _) fun _ hf => hf
    all_goals exact (hd.meta (.refl _) fun _ hf => hf).addFreeOp rfl

theorem beginDeletion_wal (h : s.Wal) {p : PageId} {expectedPins : ℕ}
    (hn : s.next (.beginDeletion p expectedPins) = some s') : s'.Wal := by
  obtain rfl := Option.some.inj hn
  unfold BufferPool.beginPageDeletion
  cases BufferPool.validateDataPageId p with
  | error e => exact h.meta (.refl _) fun _ hf => hf
  | ok u =>
    simp only
    split
    · exact h.meta (.refl _) fun _ hf => hf
    cases s.pool.pageTable p with
    | none => exact h.meta (sameMeta_of_frames rfl) fun _ hf => hf
    | some f =>
      simp only
      split
      · exact h.meta (.refl _) fun _ hf => hf
      · exact h.meta (sameMeta_setFrame (sameMeta_of_frames rfl) rfl rfl) fun _ hf => hf

theorem cancelDeletion_wal (h : s.Wal) {p : PageId}
    (hn : s.next (.cancelDeletion p) = some s') : s'.Wal := by
  obtain rfl := Option.some.inj hn
  unfold BufferPool.cancelPageDeletion
  split
  · exact h.meta (.refl _) fun _ hf => hf
  cases s.pool.pageTable p with
  | none => exact h.meta (sameMeta_of_frames rfl) fun _ hf => hf
  | some f =>
    simp only
    split
    · exact h.meta (.refl _) fun _ hf => hf
    · exact h.meta (sameMeta_setFrame (sameMeta_of_frames rfl) rfl rfl) fun _ hf => hf

theorem finalize_wal (h : s.Wal) {p : PageId} (hn : s.next (.finalize p) = some s') :
    s'.Wal := by
  simp only [next, BufferPool.finalizePageDeletion] at hn
  by_cases hp : (!s.pool.deletePending p) = true
  · rw [if_pos hp] at hn
    obtain rfl := Option.some.inj hn
    exact h.meta (.refl _) fun _ hf => hf
  rw [if_neg hp] at hn
  cases ht : s.pool.pageTable p with
  | none =>
    rw [ht] at hn
    obtain rfl := Option.some.inj hn
    exact (h.meta (.refl _) fun _ hf => hf).addFreeOp rfl
  | some f =>
    simp only [ht] at hn
    by_cases hc : (s.pool.frames f).state ≠ .deletePending ∨ (s.pool.frames f).pinCount ≠ 0
    · rw [if_pos hc] at hn
      obtain rfl := Option.some.inj hn
      exact h.meta (.refl _) fun _ hf => hf
    · rw [if_neg hc] at hn
      obtain rfl := Option.some.inj hn
      show ((s.setPool _).addOp (.finalizing p f)).Wal
      refine Wal.addFreeOp ?_ rfl
      exact h.meta (sameMeta_setFrame (.refl _) rfl rfl) fun _ hf => hf

theorem finalizeUncached_wal (h : s.Wal) {p : PageId} {deallocate : Status}
    (hn : s.next (.finalizeUncached p deallocate) = some s') : s'.Wal := by
  simp only [next] at hn
  split at hn
  swap
  · simp at hn
  obtain rfl := Option.some.inj hn
  have hd := h.dropOp (.finalizingUncached p)
  simp only [BufferPool.finishUncached]
  split
  · exact hd.meta (sameMeta_of_frames rfl) fun _ hf => hf
  · exact hd.meta (.refl _) fun _ hf => hf

end Steps

end Threads
end Buffer
end OurSql
