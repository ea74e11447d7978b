import OurSql.Buffer.Threads

/-! Pins under concurrency. What must hold of a frame is said of that frame alone, so
a step is checked at the one frame it touches. -/
namespace OurSql
namespace Buffer

set_option linter.unusedSectionVars false

open BufferPool (Fetch Flush Release Finalize Restore)

variable {β ρ : Type} [Zero β] [DecidableEq β] [Replacer ρ]

namespace Threads

def guardsAt (s : Threads β ρ) (f : FrameId) : List (Guard β) :=
  s.guards.filter fun g => g.frame = f

def opsAt (s : Threads β ρ) (f : FrameId) : List (Op β) :=
  s.ops.filter fun o => o.frame? = some f

def evictable (s : Threads β ρ) (f : FrameId) : Prop :=
  Replacer.isEvictable s.pool.replacer f = true

end Threads

/-- The state and the pins of a frame an operation holds in transit. -/
def Op.Fits (x : Frame β) : Op β → Prop
  | .load p sel oldPage _ | .loaded p sel oldPage _ _ =>
    (x.state = .loading ∨ x.state = .evicting) ∧ x.pinCount = 1 ∧
      x.pageId = if sel.fromFreeList then p else oldPage
  | .alloc sel oldPage _ =>
    (x.state = .loading ∨ x.state = .evicting) ∧ x.pinCount = 1 ∧
      x.pageId = if sel.fromFreeList then invalidPageId else oldPage
  | .allocated sel oldPage _ outcome =>
    (x.state = .loading ∨ x.state = .evicting) ∧ x.pinCount = 1 ∧
      (x.pageId = if sel.fromFreeList then invalidPageId else oldPage) ∧
      outcome ≠ .ok invalidPageId
  | .flushing _ _ => x.state = .flushing
  | .writeThrough _ _ | .flushed _ _ => x.state = .flushing ∧ x.pinCount = 1
  | .finalizing p _ | .finalized p _ _ =>
    x.state = .deletePending ∧ x.pinCount = 1 ∧ x.pageId = p
  | .restoring _ _ | .restored _ _ => x.state = .valid ∧ x.pinCount = 1
  | .fetchWait _ _ | .flushBlocked _ _ | .finalizingUncached _ => True

def Op.loads : Op β → Option PageId
  | .load p _ _ _ | .loaded p _ _ _ _ => some p
  | _ => none

/-- What holds of one frame. -/
structure FrameInv (x : Frame β) (guards : List (Guard β)) (ops : List (Op β))
    (mapped : PageId → Prop) (evictable free : Prop) : Prop where
  pins : x.pinCount = guards.length + ops.length
  alone : x.state = .flushing → ops.length ≤ 1
  fits : ∀ o ∈ ops, o.Fits x
  guarded : ∀ g ∈ guards, x.pageId = g.page
  mapped : ∀ p, mapped p → p ≠ invalidPageId ∧ (x.pageId = p ∨ ∃ o ∈ ops, o.loads = some p)
  candidate : evictable → x.pinCount = 0 ∧ x.state ≠ .deletePending
  unused : free → x.pinCount = 0 ∧ x.state = .empty ∧ ¬ evictable

namespace Threads

def InvAt (s : Threads β ρ) (f : FrameId) : Prop :=
  FrameInv (s.frame f) (s.guardsAt f) (s.opsAt f) (fun p => s.pool.pageTable p = some f)
    (s.evictable f) (f ∈ s.pool.freeFrames)

structure Inv (s : Threads β ρ) : Prop where
  at_ : ∀ f, s.InvAt f
  freeNodup : s.pool.freeFrames.Nodup

/-- A frame the step does not touch: its mappings and its places in the free list and
the replacer may only go. -/
structure Untouched (s s' : Threads β ρ) (f : FrameId) : Prop where
  frame : s'.frame f = s.frame f
  guards : s'.guardsAt f = s.guardsAt f
  ops : s'.opsAt f = s.opsAt f
  mapped : ∀ p, s'.pool.pageTable p = some f → s.pool.pageTable p = some f
  evictable : s'.evictable f → s.evictable f
  free : f ∈ s'.pool.freeFrames → f ∈ s.pool.freeFrames

theorem Untouched.invAt {s s' : Threads β ρ} {f : FrameId} (h : Untouched s s' f)
    (hi : s.InvAt f) : s'.InvAt f where
  pins := by rw [h.frame,h.guards,h.ops]; exact hi.pins
  alone := by rw [h.frame,h.ops]; exact hi.alone
  fits := by rw [h.frame,h.ops]; exact hi.fits
  guarded := by rw [h.frame,h.guards]; exact hi.guarded
  mapped := by
    intro p hp
    rw [h.frame,h.ops]
    exact hi.mapped p (h.mapped p hp)
  candidate := by rw [h.frame]; exact fun he => hi.candidate (h.evictable he)
  unused := by
    intro hf
    obtain ⟨hp,hs,he⟩ := hi.unused (h.free hf)
    rw [h.frame]
    exact ⟨hp,hs,fun hev => he (h.evictable hev)⟩

/-- A step is checked at the frame it touches. -/
theorem Inv.touch {s s' : Threads β ρ} (h : s.Inv) (f : FrameId)
    (ho : ∀ g, g ≠ f → Untouched s s' g) (hf : s'.InvAt f)
    (hn : s'.pool.freeFrames.Nodup) : s'.Inv where
  at_ g := by
    by_cases hg : g = f
    · exact hg ▸ hf
    · exact (ho g hg).invAt (h.at_ g)
  freeNodup := hn

theorem Inv.untouched {s s' : Threads β ρ} (h : s.Inv) (ho : ∀ g, Untouched s s' g)
    (hn : s'.pool.freeFrames.Nodup) : s'.Inv where
  at_ g := (ho g).invAt (h.at_ g)
  freeNodup := hn

/-! ### Where guards and operations stand -/

section Places

variable (s : Threads β ρ) (f : FrameId)

@[simp] theorem frame_setPool (b : BufferPool β ρ) : (s.setPool b).frame f = b.frames f := rfl
@[simp] theorem guardsAt_setPool (b : BufferPool β ρ) : (s.setPool b).guardsAt f = s.guardsAt f := rfl
@[simp] theorem opsAt_setPool (b : BufferPool β ρ) : (s.setPool b).opsAt f = s.opsAt f := rfl
@[simp] theorem evictable_setPool (b : BufferPool β ρ) :
    (s.setPool b).evictable f ↔ Replacer.isEvictable b.replacer f = true := Iff.rfl
@[simp] theorem pool_setPool (b : BufferPool β ρ) : (s.setPool b).pool = b := rfl

@[simp] theorem pool_setIncluded (ls : List Lsn) : (s.setIncluded f ls).pool = s.pool := rfl
@[simp] theorem pool_addOp (o : Op β) : (s.addOp o).pool = s.pool := rfl
@[simp] theorem frame_addOp (o : Op β) : (s.addOp o).frame f = s.frame f := rfl
@[simp] theorem guardsAt_addOp (o : Op β) : (s.addOp o).guardsAt f = s.guardsAt f := rfl
@[simp] theorem evictable_addOp (o : Op β) : (s.addOp o).evictable f ↔ s.evictable f := Iff.rfl
@[simp] theorem pool_dropOp (o : Op β) : (s.dropOp o).pool = s.pool := rfl
@[simp] theorem frame_dropOp (o : Op β) : (s.dropOp o).frame f = s.frame f := rfl
@[simp] theorem guardsAt_dropOp (o : Op β) : (s.dropOp o).guardsAt f = s.guardsAt f := rfl
@[simp] theorem evictable_dropOp (o : Op β) : (s.dropOp o).evictable f ↔ s.evictable f := Iff.rfl
@[simp] theorem pool_addGuard (g : Guard β) : (s.addGuard g).pool = s.pool := rfl
@[simp] theorem frame_addGuard (g : Guard β) : (s.addGuard g).frame f = s.frame f := rfl
@[simp] theorem opsAt_addGuard (g : Guard β) : (s.addGuard g).opsAt f = s.opsAt f := rfl
@[simp] theorem evictable_addGuard (g : Guard β) : (s.addGuard g).evictable f ↔ s.evictable f :=
  Iff.rfl
@[simp] theorem pool_dropGuard (g : Guard β) : (s.dropGuard g).pool = s.pool := rfl
@[simp] theorem frame_dropGuard (g : Guard β) : (s.dropGuard g).frame f = s.frame f := rfl
@[simp] theorem opsAt_dropGuard (g : Guard β) : (s.dropGuard g).opsAt f = s.opsAt f := rfl
@[simp] theorem evictable_dropGuard (g : Guard β) : (s.dropGuard g).evictable f ↔ s.evictable f :=
  Iff.rfl

theorem opsAt_addOp (o : Op β) :
    (s.addOp o).opsAt f = if o.frame? = some f then o::s.opsAt f else s.opsAt f := by
  by_cases h : o.frame? = some f <;> simp [opsAt, addOp, h]

theorem opsAt_dropOp (o : Op β) : (s.dropOp o).opsAt f = (s.opsAt f).erase o :=
  List.erase_filter.symm

theorem guardsAt_addGuard (g : Guard β) :
    (s.addGuard g).guardsAt f = if g.frame = f then g::s.guardsAt f else s.guardsAt f := by
  by_cases h : g.frame = f <;> simp [guardsAt, addGuard, h]

theorem guardsAt_dropGuard (g : Guard β) : (s.dropGuard g).guardsAt f = (s.guardsAt f).erase g :=
  List.erase_filter.symm

variable {s f}

theorem mem_opsAt {o : Op β} : o ∈ s.opsAt f ↔ o ∈ s.ops ∧ o.frame? = some f := by
  simp [opsAt]

theorem mem_guardsAt {g : Guard β} : g ∈ s.guardsAt f ↔ g ∈ s.guards ∧ g.frame = f := by
  simp [guardsAt]

theorem opsAt_dropOp_ne {o : Op β} (h : o.frame? ≠ some f) : (s.dropOp o).opsAt f = s.opsAt f := by
  rw [opsAt_dropOp]
  exact List.erase_of_not_mem fun ho => h (mem_opsAt.mp ho).2

theorem guardsAt_dropGuard_ne {g : Guard β} (h : g.frame ≠ f) :
    (s.dropGuard g).guardsAt f = s.guardsAt f := by
  rw [guardsAt_dropGuard]
  exact List.erase_of_not_mem fun hg => h (mem_guardsAt.mp hg).2

end Places

/-- An operation that holds the only pin of its frame is alone there. -/
theorem InvAt.solo {s : Threads β ρ} {f : FrameId} (h : s.InvAt f) {o : Op β}
    (ho : o ∈ s.opsAt f) (hp : (s.frame f).pinCount = 1) :
    s.guardsAt f = [] ∧ s.opsAt f = [o] := by
  have hpins := h.pins
  have hpos : 0 < (s.opsAt f).length := List.length_pos_of_mem ho
  have hg : (s.guardsAt f).length = 0 := by omega
  obtain ⟨x,hx⟩ := List.length_eq_one_iff.mp (show (s.opsAt f).length = 1 by omega)
  rw [hx] at ho
  rw [hx,List.mem_singleton.mp ho]
  exact ⟨List.length_eq_zero_iff.mp hg,rfl⟩

theorem InvAt.empty {s : Threads β ρ} {f : FrameId} (h : s.InvAt f)
    (hp : (s.frame f).pinCount = 0) : s.guardsAt f = [] ∧ s.opsAt f = [] := by
  have hpins := h.pins
  exact ⟨List.length_eq_zero_iff.mp (by omega),List.length_eq_zero_iff.mp (by omega)⟩

/-- The pool changed at one frame only. -/
structure PoolAt (b b' : BufferPool β ρ) (f : FrameId) : Prop where
  frames : ∀ g, g ≠ f → b'.frames g = b.frames g
  mapped : ∀ g, g ≠ f → ∀ p, b'.pageTable p = some g → b.pageTable p = some g
  evictable : ∀ g, g ≠ f → Replacer.isEvictable b'.replacer g = true →
    Replacer.isEvictable b.replacer g = true
  free : ∀ g, g ≠ f → g ∈ b'.freeFrames → g ∈ b.freeFrames

/-- Nothing the invariant speaks of was added. -/
structure Quiet (b b' : BufferPool β ρ) : Prop where
  frames : b'.frames = b.frames
  mapped : ∀ g p, b'.pageTable p = some g → b.pageTable p = some g
  evictable : ∀ g, Replacer.isEvictable b'.replacer g = true →
    Replacer.isEvictable b.replacer g = true
  free : b'.freeFrames.Sublist b.freeFrames

theorem Quiet.refl (b : BufferPool β ρ) : Quiet b b :=
  ⟨rfl,fun _ _ h => h,fun _ h => h,List.Sublist.refl _⟩

/-- Adding or dropping an operation without a frame. -/
theorem Inv.quiet {s s' : Threads β ρ} (h : s.Inv) (hq : Quiet s.pool s'.pool)
    (hg : ∀ f, s'.guardsAt f = s.guardsAt f) (ho : ∀ f, s'.opsAt f = s.opsAt f) : s'.Inv := by
  refine h.untouched (fun f => ⟨?_,hg f,ho f,hq.mapped f,hq.evictable f,fun hf => hq.free.subset hf⟩)
    (h.freeNodup.sublist hq.free)
  exact congrFun hq.frames f

theorem Inv.touchPool {s s' : Threads β ρ} (h : s.Inv) {f : FrameId} (hp : PoolAt s.pool s'.pool f)
    (hg : ∀ g, g ≠ f → s'.guardsAt g = s.guardsAt g) (ho : ∀ g, g ≠ f → s'.opsAt g = s.opsAt g)
    (hf : s'.InvAt f) (hn : s'.pool.freeFrames.Nodup) : s'.Inv :=
  h.touch f (fun g hne => ⟨hp.frames g hne,hg g hne,ho g hne,hp.mapped g hne,hp.evictable g hne,
    hp.free g hne⟩) hf hn

/-! ### What each section does to the pool -/

theorem selectFrame_cases (b : BufferPool β ρ) :
    (∃ e b', b.selectFrame = (.error e,b') ∧ Quiet b b') ∨
    (∃ f rest, b.freeFrames = f::rest ∧ (b.frames f).pageId = invalidPageId ∧
      b.selectFrame = (.ok ⟨f,true⟩,({ b with freeFrames := rest }).setFrame f
        { b.frames f with state := .loading })) ∨
    ∃ f r, b.freeFrames = [] ∧ Replacer.victim b.replacer = some (f,r) ∧
      (b.frames f).pinCount = 0 ∧ (b.frames f).pageId ≠ invalidPageId ∧
      (b.frames f).state = .valid ∧
      b.selectFrame = (.ok ⟨f,false⟩,({ b with replacer := r }).setFrame f
        { b.frames f with state := .evicting, pinCount := (b.frames f).pinCount + 1 }) := by
  unfold BufferPool.selectFrame
  cases hfree : b.freeFrames with
  | cons f rest =>
    by_cases hp : (b.frames f).pageId = invalidPageId
    · right; left
      exact ⟨f,rest,rfl,hp,by simp [hp]⟩
    · left
      refine ⟨⟨.internalError,"BufferPool 空闲 frame 状态损坏"⟩,{ b with freeFrames := rest },
        by simp [hp, fail],rfl,fun _ _ h => h,fun _ h => h,?_⟩
      exact hfree ▸ List.sublist_cons_self f rest
  | nil =>
    cases hv : Replacer.victim b.replacer with
    | none =>
      left
      exact ⟨⟨.notFound,"没有可淘汰的 frame，所有页面都被 pin"⟩,b,rfl,Quiet.refl b⟩
    | some v =>
      obtain ⟨f,r⟩ := v
      by_cases hx : (b.frames f).pinCount ≠ 0 ∨ (b.frames f).pageId = invalidPageId ∨
          (b.frames f).state ≠ .valid
      · left
        refine ⟨⟨.internalError,"替换器返回了无效的 frame"⟩,{ b with replacer := r },
          by simp only [if_pos hx, fail, hfree],rfl,fun _ _ h => h,?_,?_⟩
        · intro g hg
          have he := (Replacer.victim_evictable _ _ _ hv).2 g
          simp only at hg
          rw [he,Bool.and_eq_true] at hg
          exact hg.1
        · rw [hfree]
      · right; right
        simp only [not_or, ne_eq, not_not] at hx
        exact ⟨f,r,rfl,rfl,hx.1,hx.2.1,hx.2.2,by simp [hx.1, hx.2.1, hx.2.2]⟩

theorem lookup_cases (b : BufferPool β ρ) (p : PageId) :
    (∃ e b', b.lookup p = (.failed e,b') ∧ Quiet b b') ∨
    (∃ b', b.lookup p = (.wait,b') ∧ Quiet b b') ∨
    (∃ f, b.pageTable p = some f ∧ (b.frames f).state = .valid ∧
      b.lookup p = (.hit f,(b.mapReplacer fun r => Replacer.recordAccess (Replacer.pin r f) f).setFrame
        f { b.frames f with pinCount := (b.frames f).pinCount + 1 })) ∨
    ∃ sel b₁, b.pageTable p = none ∧ b.selectFrame = (.ok sel,b₁) ∧
      b.lookup p = (.load sel (b₁.frames sel.frameId).pageId,
        (if sel.fromFreeList then b₁.setFrame sel.frameId
          { b₁.frames sel.frameId with pageId := p, pinCount := 1 } else b₁).map p sel.frameId) := by
  unfold BufferPool.lookup
  by_cases hd : b.deletePending p = true
  · left
    exact ⟨BufferPool.beingDeleted p,b,by rw [if_pos hd],Quiet.refl b⟩
  rw [if_neg hd]
  cases ht : b.pageTable p with
  | some f =>
    have hwait : Quiet b (b.setWaiters p (some ((b.loadingWaiters p).getD 0 + 1))) :=
      ⟨rfl,fun _ _ h => h,fun _ h => h,List.Sublist.refl _⟩
    cases hs : (b.frames f).state with
    | valid => exact .inr (.inr (.inl ⟨f,rfl,hs,by simp [hs]⟩))
    | deletePending => exact .inl ⟨BufferPool.beingDeleted p,b,by simp [hs],Quiet.refl b⟩
    | empty => exact .inr (.inl ⟨_,by simp [hs],hwait⟩)
    | loading => exact .inr (.inl ⟨_,by simp [hs],hwait⟩)
    | evicting => exact .inr (.inl ⟨_,by simp [hs],hwait⟩)
    | flushing => exact .inr (.inl ⟨_,by simp [hs],hwait⟩)
  | none =>
    cases hl : b.loadFailures p with
    | some e =>
      left
      by_cases hw : b.loadingWaiters p = none
      · exact ⟨e,b.setFailure p none,by simp [hw],rfl,fun _ _ h => h,fun _ h => h,
          List.Sublist.refl _⟩
      · exact ⟨e,b,by simp [hw],Quiet.refl b⟩
    | none =>
      rcases hsel : b.selectFrame with ⟨e | sel,b₁⟩
      · rcases selectFrame_cases b with ⟨e',b',he,hq⟩ | ⟨f,rest,-,-,he⟩ | ⟨f,r,-,-,-,-,-,he⟩
        · rw [hsel] at he
          simp only [Prod.mk.injEq, Except.error.injEq] at he
          exact .inl ⟨e,b₁,by simp,he.2 ▸ hq⟩
        · rw [hsel] at he
          simp at he
        · rw [hsel] at he
          simp at he
      · exact .inr (.inr (.inr ⟨sel,b₁,rfl,rfl,rfl⟩))

theorem PoolAt.trans {b b' b'' : BufferPool β ρ} {f : FrameId} (h : PoolAt b b' f)
    (h' : PoolAt b' b'' f) : PoolAt b b'' f where
  frames g hg := (h'.frames g hg).trans (h.frames g hg)
  mapped g hg p hp := h.mapped g hg p (h'.mapped g hg p hp)
  evictable g hg he := h.evictable g hg (h'.evictable g hg he)
  free g hg hf := h.free g hg (h'.free g hg hf)

theorem poolAt_setFrame (b : BufferPool β ρ) (f : FrameId) (x : Frame β) :
    PoolAt b (b.setFrame f x) f :=
  ⟨fun _ hg => Function.update_of_ne hg _ _,fun _ _ _ h => h,fun _ _ h => h,fun _ _ h => h⟩

theorem poolAt_map (b : BufferPool β ρ) (p : PageId) (f : FrameId) : PoolAt b (b.map p f) f := by
  refine ⟨fun _ _ => rfl,fun g hg q hq => ?_,fun _ _ h => h,fun _ _ h => h⟩
  by_cases hqp : q = p
  · subst hqp
    simp only [BufferPool.map, Function.update_self, Option.some.injEq] at hq
    exact absurd hq.symm hg
  · simpa [BufferPool.map, hqp] using hq

theorem unmap_mapped {b : BufferPool β ρ} {p q : PageId} {g : FrameId}
    (h : (b.unmap p).pageTable q = some g) : q ≠ p ∧ b.pageTable q = some g := by
  by_cases hqp : q = p
  · subst hqp
    simp [BufferPool.unmap] at h
  · exact ⟨hqp,by simpa [BufferPool.unmap, hqp] using h⟩

theorem poolAt_unmap (b : BufferPool β ρ) (p : PageId) (f : FrameId) : PoolAt b (b.unmap p) f :=
  ⟨fun _ _ => rfl,fun _ _ _ hq => (unmap_mapped hq).2,fun _ _ h => h,fun _ _ h => h⟩

/-- A change of the replacer that adds at most this frame. -/
theorem poolAt_replacer (b : BufferPool β ρ) {f : FrameId} {t : ρ → ρ}
    (ht : ∀ g, g ≠ f → Replacer.isEvictable (t b.replacer) g = true →
      Replacer.isEvictable b.replacer g = true) : PoolAt b (b.mapReplacer t) f :=
  ⟨fun _ _ => rfl,fun _ _ _ h => h,ht,fun _ _ h => h⟩

theorem poolAt_pin (b : BufferPool β ρ) (f : FrameId) :
    PoolAt b (b.mapReplacer fun r => Replacer.pin r f) f :=
  poolAt_replacer b fun g hg he => by simpa [hg] using he

theorem poolAt_unpin (b : BufferPool β ρ) (f : FrameId) :
    PoolAt b (b.mapReplacer fun r => Replacer.unpin r f) f :=
  poolAt_replacer b fun g hg he => by simpa [hg] using he

theorem returnFreeFrame_poolAt (b : BufferPool β ρ) (f : FrameId) :
    PoolAt b (b.returnFreeFrame f).2 f := by
  unfold BufferPool.returnFreeFrame
  split
  · exact ⟨fun _ _ => rfl,fun _ _ _ h => h,fun _ _ h => h,fun _ _ h => h⟩
  · split
    · exact ⟨fun _ _ => rfl,fun _ _ _ h => h,fun _ _ h => h,fun _ _ h => h⟩
    · refine ⟨fun _ _ => rfl,fun _ _ _ h => h,fun _ _ h => h,fun g hg h => ?_⟩
      rcases List.mem_append.mp h with h | h
      · exact h
      · exact absurd (List.mem_singleton.mp h) hg

theorem returnFreeFrame_nodup {b : BufferPool β ρ} (h : b.freeFrames.Nodup) (f : FrameId) :
    (b.returnFreeFrame f).2.freeFrames.Nodup := by
  unfold BufferPool.returnFreeFrame
  split
  · exact h
  · split
    · exact h
    · next hf =>
      exact List.nodup_append.mpr ⟨h,List.nodup_singleton f,fun x hx y hy he =>
        hf ((List.mem_singleton.mp hy) ▸ he ▸ hx)⟩

theorem returnFreeFrame_same (b : BufferPool β ρ) (f : FrameId) :
    (b.returnFreeFrame f).2.frames = b.frames ∧ (b.returnFreeFrame f).2.replacer = b.replacer ∧
      (b.returnFreeFrame f).2.pageTable = b.pageTable := by
  unfold BufferPool.returnFreeFrame
  split
  · exact ⟨rfl,rfl,rfl⟩
  · split <;> exact ⟨rfl,rfl,rfl⟩

end Threads
end Buffer
end OurSql
