import OurSql.Buffer.Protect

/-! The steps that pin, release and reserve a frame in place. -/
namespace OurSql
namespace Buffer

set_option linter.unusedSectionVars false

open BufferPool (Fetch Flush Release Finalize Restore)

variable {β ρ : Type} [Zero β] [DecidableEq β] [Replacer ρ]

namespace Threads

theorem mem_of_op_none {s : Threads β ρ} {o : Op β} (h : o.frame? = none) (f : FrameId) :
    o ∉ s.opsAt f := by
  intro ho
  rw [(mem_opsAt.mp ho).2] at h
  cases h

/-- One frame changes in place: it keeps its page, and no guard is added. -/
theorem Inv.reframe {s s' : Threads β ρ} (h : s.Inv) {f : FrameId}
    (hat : PoolAt s.pool s'.pool f) (ht : s'.pool.pageTable = s.pool.pageTable)
    (hpage : (s'.frame f).pageId = (s.frame f).pageId)
    (hguards : ∀ g, g ≠ f → s'.guardsAt g = s.guardsAt g)
    (hops : ∀ g, g ≠ f → s'.opsAt g = s.opsAt g)
    (hsub : ∀ g ∈ s'.guardsAt f, g ∈ s.guardsAt f)
    (hloads : ∀ o ∈ s.opsAt f, ∀ q, o.loads = some q → o ∈ s'.opsAt f)
    (hp : (s'.frame f).pinCount = (s'.guardsAt f).length + (s'.opsAt f).length)
    (halone : (s'.frame f).state = .flushing → (s'.opsAt f).length ≤ 1)
    (hfit : ∀ o ∈ s'.opsAt f, o.Fits (s'.frame f))
    (hev : s'.evictable f → (s'.frame f).pinCount = 0 ∧ (s'.frame f).state ≠ .deletePending)
    (hfree : f ∉ s'.pool.freeFrames) (hn : s'.pool.freeFrames.Nodup) : s'.Inv := by
  have hi := h.at_ f
  refine h.touchPool hat hguards hops ⟨hp,halone,hfit,?_,?_,hev,fun hf => absurd hf hfree⟩ hn
  · exact fun g hg => hpage.trans (hi.guarded g (hsub g hg))
  · intro q hq
    have hq' : s.pool.pageTable q = some f := by rw [← ht]; exact hq
    obtain ⟨hqi,hor⟩ := hi.mapped q hq'
    exact ⟨hqi,hor.imp (fun hx => hpage.trans hx) fun ⟨o,ho,hl⟩ => ⟨o,hloads o ho q hl,hl⟩⟩

theorem opsAt_addOp_ne {s : Threads β ρ} {o : Op β} {f g : FrameId} (hof : o.frame? = some f)
    (hne : g ≠ f) : (s.addOp o).opsAt g = s.opsAt g := by
  rw [opsAt_addOp,if_neg fun he => hne (Option.some.inj (he.symm.trans hof))]

/-- No page restore holds the frame. -/
def Unrestored (s : Threads β ρ) (f : FrameId) : Prop :=
  ∀ o ∈ s.ops, o.isRestore = true → o.frame? ≠ some f

instance (s : Threads β ρ) (f : FrameId) : Decidable (s.Unrestored f) :=
  inferInstanceAs (Decidable (∀ o ∈ s.ops, o.isRestore = true → o.frame? ≠ some f))

theorem not_free_of_state {s : Threads β ρ} (h : s.Inv) {f : FrameId}
    (hs : (s.frame f).state ≠ .empty) : f ∉ s.pool.freeFrames :=
  fun hf => hs ((h.at_ f).unused hf).2.1

/-! ### Waking a fetch -/

theorem wake_cases (b : BufferPool β ρ) (p : PageId) :
    (∃ e b', b.wake p = (.failed e,b') ∧ Quiet b b') ∨
    ∃ b', b.wake p = b'.lookup p ∧ Quiet b b' ∧ b'.pageTable = b.pageTable ∧
      b'.deletePending = b.deletePending ∧ b.loadFailures p = none := by
  unfold BufferPool.wake
  cases b.loadFailures p with
  | some e =>
    left
    cases b.loadingWaiters p with
    | none => exact ⟨e,b,rfl,Quiet.refl b⟩
    | some n =>
      by_cases hn : n - 1 = 0
      · exact ⟨e,(b.setWaiters p none).setFailure p none,by simp [hn],rfl,fun _ _ h => h,
          fun _ h => h,List.Sublist.refl _⟩
      · exact ⟨e,b.setWaiters p (some (n - 1)),by simp [hn],rfl,fun _ _ h => h,fun _ h => h,
          List.Sublist.refl _⟩
  | none =>
    right
    cases b.loadingWaiters p with
    | none => exact ⟨b,rfl,Quiet.refl b,rfl,rfl,rfl⟩
    | some n =>
      exact ⟨_,rfl,⟨rfl,fun _ _ h => h,fun _ h => h,List.Sublist.refl _⟩,rfl,rfl,rfl⟩

section Fetching

variable {s s' : Threads β ρ}

/-- A page that is being deleted is not pinned, so nothing is asked of it. -/
theorem lookup_inv (h : s.Inv) {p : PageId} (hp : p ≠ invalidPageId) (k : Access)
    (hr : ∀ f, s.pool.pageTable p = some f → s.pool.deletePending p = false → s.Unrestored f) :
    (s.fetched p k (s.pool.lookup p)).Inv := by
  cases hd : s.pool.deletePending p with
  | true =>
    simp only [BufferPool.lookup, hd, if_true]
    exact h.setPool (Quiet.refl _)
  | false => exact fetched_inv h hp k fun f hf => hr f hf hd

theorem fetch_inv (h : s.Inv) {p : PageId} {k : Access}
    (hr : ∀ f, s.pool.pageTable p = some f → s.pool.deletePending p = false → s.Unrestored f)
    (hn : s.next (.fetch p k) = some s') : s'.Inv := by
  obtain rfl := Option.some.inj hn
  unfold BufferPool.fetchPage BufferPool.validateDataPageId
  by_cases hp : p = invalidPageId ∨ p = 0
  · rw [if_pos hp]
    exact h.setPool (Quiet.refl _)
  · rw [if_neg hp]
    exact lookup_inv h (fun he => hp (.inl he)) k hr

theorem wakeFetch_inv (h : s.Inv) {p : PageId} {k : Access} (hp : p ≠ invalidPageId)
    (hr : ∀ f, s.pool.pageTable p = some f → s.pool.deletePending p = false →
      s.pool.loadFailures p = none → s.Unrestored f)
    (hn : s.next (.wakeFetch p k) = some s') : s'.Inv := by
  simp only [next] at hn
  split at hn
  swap
  · simp at hn
  obtain rfl := Option.some.inj hn
  have hd : (s.dropOp (.fetchWait p k)).Inv := h.dropOp rfl
  rcases wake_cases s.pool p with ⟨e,b,he,hq⟩ | ⟨b,he,hq,ht,hpend,hfail⟩
  · rw [he]
    exact hd.setPool hq
  · rw [he]
    refine lookup_inv (hd.setPool hq) hp k fun f hf hx o ho => hr f ?_ ?_ hfail o ?_
    · rw [← ht]
      exact hf
    · rw [← hpend]
      exact hx
    · exact List.mem_of_mem_erase ho

end Fetching

/-! ### A guard that stays -/

section Guards

variable {s s' : Threads β ρ}

/-- The bytes of a frame change, and its guards keep their number and their page. -/
theorem Inv.keep (h : s.Inv) {f : FrameId} (hops : s'.ops = s.ops)
    (hpool : Overwrites s.pool s'.pool f) (hothers : ∀ x, x ≠ f → s'.guardsAt x = s.guardsAt x)
    (hlen : (s'.guardsAt f).length = (s.guardsAt f).length)
    (hpages : ∀ g ∈ s'.guardsAt f, ∃ g₀ ∈ s.guardsAt f, g₀.page = g.page) : s'.Inv := by
  have hi := h.at_ f
  have ho : ∀ x, s'.opsAt x = s.opsAt x := fun x => by rw [opsAt,hops]; rfl
  obtain ⟨hp,hs,hpid⟩ := hpool.same
  have hevict : s'.evictable f ↔ s.evictable f := by
    rw [evictable,hpool.replacer]
    exact Iff.rfl
  refine h.touchPool (f := f) ⟨hpool.others,fun x _ p hx => hpool.pageTable ▸ hx,
    fun x _ hx => hpool.replacer ▸ hx,fun x _ hx => hpool.freeFrames ▸ hx⟩ hothers
    (fun x _ => ho x) ?_ (hpool.freeFrames ▸ h.freeNodup)
  refine ⟨?_,?_,?_,?_,?_,?_,?_⟩
  · rw [ho,hlen]
    exact hp.trans hi.pins
  · rw [ho]
    exact fun hx => hi.alone (hs.symm.trans hx)
  · rw [ho]
    exact fun o hx => hpool.same.fits (hi.fits o hx)
  · intro g hg
    obtain ⟨g₀,hg₀,he⟩ := hpages g hg
    exact hpid.trans ((hi.guarded g₀ hg₀).trans he)
  · intro q hq
    have hq' : s.pool.pageTable q = some f := by rw [← hpool.pageTable]; exact hq
    obtain ⟨hqi,hor⟩ := hi.mapped q hq'
    rw [ho]
    exact ⟨hqi,hor.imp (fun hx => hpid.trans hx) id⟩
  · intro he
    obtain ⟨hz,hd⟩ := hi.candidate (hevict.mp he)
    exact ⟨hp.trans hz,fun hx => hd (hs.symm.trans hx)⟩
  · intro hfree
    rw [hpool.freeFrames] at hfree
    obtain ⟨hz,hst,hne⟩ := hi.unused hfree
    exact ⟨hp.trans hz,hs.trans hst,fun hx => hne (hevict.mp hx)⟩

/-- One guard turns into another on the same frame. -/
theorem Inv.regard (h : s.Inv) {g g' : Guard β} (hg : g ∈ s.guards)
    (hguards : s'.guards = g'::s.guards.erase g) (hf : g'.frame = g.frame)
    (hpage : g'.page = g.page) (hops : s'.ops = s.ops)
    (hpool : Overwrites s.pool s'.pool g.frame) : s'.Inv := by
  have hmem : g ∈ s.guardsAt g.frame := mem_guardsAt.mpr ⟨hg,rfl⟩
  have hat : ∀ x, s'.guardsAt x = ((s.dropGuard g).addGuard g').guardsAt x := fun x => by
    rw [guardsAt,hguards]
    rfl
  have hat' : s'.guardsAt g.frame = g'::(s.guardsAt g.frame).erase g := by
    rw [hat,guardsAt_addGuard,if_pos hf,guardsAt_dropGuard]
  refine h.keep hops hpool (fun x hne => ?_) ?_ fun x hx => ?_
  · rw [hat,guardsAt_addGuard,if_neg (by rw [hf]; exact fun he => hne he.symm)]
    exact guardsAt_dropGuard_ne fun he => hne he.symm
  · have hpos := List.length_pos_of_mem hmem
    rw [hat',List.length_cons,List.length_erase_of_mem hmem]
    omega
  · rw [hat'] at hx
    rcases List.mem_cons.mp hx with rfl | hx
    · exact ⟨g,hmem,hpage.symm⟩
    · exact ⟨x,List.mem_of_mem_erase hx,rfl⟩

theorem setPage_overwrites (s : Threads β ρ) (f : FrameId) (page : β) :
    Overwrites s.pool (s.setPage f page).pool f :=
  overwrites_setFrame (.refl s.pool f) ⟨rfl,rfl,rfl⟩

theorem latch_inv (h : s.Inv) {g : Guard β} (hn : s.next (.latch g) = some s') : s'.Inv := by
  simp only [next] at hn
  split at hn
  · next hc =>
    obtain rfl := Option.some.inj hn
    exact h.regard hc.1 rfl rfl rfl rfl (.refl _ _)
  · simp at hn

theorem write_inv (h : s.Inv) {g : Guard β} {page : β} (hn : s.next (.write g page) = some s') :
    s'.Inv := by
  simp only [next] at hn
  split at hn
  · next hc =>
    obtain rfl := Option.some.inj hn
    exact h.keep rfl (setPage_overwrites s g.frame page) (fun _ _ => rfl) rfl
      fun x hx => ⟨x,hx,rfl⟩
  · simp at hn

theorem markDirty_inv (h : s.Inv) {g : Guard β} (hn : s.next (.markDirty g) = some s') :
    s'.Inv := by
  simp only [next] at hn
  split at hn
  · next hc =>
    obtain rfl := Option.some.inj hn
    exact h.regard hc.1 rfl rfl rfl rfl (.refl _ _)
  · simp at hn

theorem append_inv (h : s.Inv) {g : Guard β} {works : Bool}
    (hn : s.next (.append g works) = some s') : s'.Inv := by
  simp only [next] at hn
  split at hn
  · next hc =>
    split at hn
    · obtain rfl := Option.some.inj hn
      exact h.regard hc.1 rfl rfl rfl rfl (.refl _ _)
    · obtain rfl := Option.some.inj hn
      exact h.regard hc.1 rfl rfl rfl rfl (setPage_overwrites s _ _)
  · simp at hn

theorem record_inv (h : s.Inv) {g : Guard β} {lsn : Lsn}
    (hn : s.next (.record g lsn) = some s') : s'.Inv := by
  simp only [next] at hn
  split at hn
  · next hc =>
    split at hn
    · obtain rfl := Option.some.inj hn
      exact h.regard hc.1 rfl rfl rfl rfl
        (overwrites_setFrame (.refl s.pool g.frame) ⟨rfl,rfl,rfl⟩)
    · obtain rfl := Option.some.inj hn
      exact h.regard hc.1 rfl rfl rfl rfl (.refl _ _)
  · simp at hn

theorem unlatch_inv (h : s.Inv) {g : Guard β} (hn : s.next (.unlatch g) = some s') :
    s'.Inv := by
  simp only [next] at hn
  split at hn
  · next hc =>
    obtain rfl := Option.some.inj hn
    exact h.regard hc.1 rfl rfl rfl rfl (.refl _ _)
  · simp at hn

end Guards

/-! ### Releasing a guard -/

section Releasing

variable {s s' : Threads β ρ}

theorem unpinFrame_poolAt (b : BufferPool β ρ) (f : FrameId) : PoolAt b (b.unpinFrame f).2 f := by
  simp only [BufferPool.unpinFrame]
  split
  · exact (poolAt_setFrame _ _ _).trans (poolAt_unpin _ _)
  · exact poolAt_setFrame _ _ _

theorem unpinFrame_frame (b : BufferPool β ρ) (f : FrameId) : (b.unpinFrame f).2.frames f =
    { b.frames f with pinCount := (b.frames f).pinCount - 1 } := by
  simp only [BufferPool.unpinFrame]
  split <;> exact Function.update_self _ _ _

theorem unpinFrame_table (b : BufferPool β ρ) (f : FrameId) :
    (b.unpinFrame f).2.pageTable = b.pageTable ∧ (b.unpinFrame f).2.freeFrames = b.freeFrames := by
  simp only [BufferPool.unpinFrame]
  split <;> exact ⟨rfl,rfl⟩

theorem unpinFrame_evictable {b : BufferPool β ρ} {f : FrameId}
    (hb : Replacer.isEvictable b.replacer f = false)
    (h : Replacer.isEvictable (b.unpinFrame f).2.replacer f = true) :
    (b.frames f).pinCount - 1 = 0 ∧ (b.frames f).state ≠ .deletePending := by
  simp only [BufferPool.unpinFrame] at h
  split at h
  · next hc => exact hc
  · simp [BufferPool.setFrame, hb] at h

/-- What a live guard finds when it lets go. -/
theorem releaseGuard_cases {b : BufferPool β ρ} {f : FrameId} {p : PageId} {d : Bool}
    (hpage : (b.frames f).pageId = p) (hpin : (b.frames f).pinCount ≠ 0) :
    ∃ x : Frame β, SameFrame (b.frames f) x ∧ (x.pageLsn = (b.frames f).pageLsn ∧
      x.page = (b.frames f).page ∧ x.isDirty = ((b.frames f).isDirty || d)) ∧
      ((x.pinCount = 1 ∧ x.state = .valid ∧ b.releaseGuard f p d =
          (.writeThrough,(b.setFrame f x).setFrame f { x with state := .flushing })) ∨
        b.releaseGuard f p d =
          (.done ((b.setFrame f x).unpinFrame f).1,((b.setFrame f x).unpinFrame f).2)) := by
  refine ⟨{ b.frames f with isDirty := (b.frames f).isDirty || d },⟨rfl,rfl,rfl⟩,
    ⟨rfl,rfl,rfl⟩,?_⟩
  simp only [BufferPool.releaseGuard, hpage, ne_eq, not_true_eq_false, if_false, hpin]
  split
  · next hc => exact .inl ⟨hc.2.2.2,hc.1,rfl⟩
  · exact .inr rfl

theorem release_inv (h : s.Inv) {g : Guard β} (hn : s.next (.release g) = some s') :
    s'.Inv := by
  simp only [next] at hn
  split at hn
  swap
  · simp at hn
  next hc =>
  have hi := h.at_ g.frame
  have hmem : g ∈ s.guardsAt g.frame := mem_guardsAt.mpr ⟨hc.1,rfl⟩
  have hpos := List.length_pos_of_mem hmem
  have hpins : (s.pool.frames g.frame).pinCount =
      (s.guardsAt g.frame).length + (s.opsAt g.frame).length := hi.pins
  have hpage : (s.pool.frames g.frame).pageId = g.page := hi.guarded g hmem
  have hnotev : Replacer.isEvictable s.pool.replacer g.frame = false := by
    refine Bool.eq_false_iff.mpr fun he => ?_
    have hz : (s.pool.frames g.frame).pinCount = 0 := (hi.candidate he).1
    omega
  have hnfree : g.frame ∉ s.pool.freeFrames := fun hf => by
    have hz : (s.pool.frames g.frame).pinCount = 0 := (hi.unused hf).1
    omega
  have hothers : ∀ x, x ≠ g.frame → (s.dropGuard g).guardsAt x = s.guardsAt x := fun x hne =>
    guardsAt_dropGuard_ne fun he => hne he.symm
  have herase : ((s.dropGuard g).guardsAt g.frame).length = (s.guardsAt g.frame).length - 1 := by
    rw [guardsAt_dropGuard,List.length_erase_of_mem hmem]
  obtain ⟨x,hx,-,⟨hone,hv,he⟩ | he⟩ := releaseGuard_cases (d := g.dirty) hpage (by omega)
  · simp only [pool_dropGuard, he] at hn
    obtain rfl := Option.some.inj hn
    have hone' : (s.pool.frames g.frame).pinCount = 1 := hx.1.symm.trans hone
    have hnone : s.opsAt g.frame = [] := List.length_eq_zero_iff.mp (by omega)
    have hnil : (s.dropGuard g).guardsAt g.frame = [] :=
      List.length_eq_zero_iff.mp (by omega)
    have hops : ∀ b, (((s.dropGuard g).setPool b).addOp (.writeThrough g.page g.frame)).opsAt
        g.frame = [.writeThrough g.page g.frame] := fun b => by
      rw [opsAt_addOp,if_pos (by rfl)]
      exact congrArg _ hnone
    refine h.reframe ((poolAt_setFrame _ _ _).trans (poolAt_setFrame _ _ _)) rfl ?_
      hothers (fun y hne => opsAt_addOp_ne rfl hne) ?_ ?_ ?_ ?_ ?_ ?_ hnfree h.freeNodup
    · show (((s.pool.setFrame g.frame x).setFrame g.frame _).frames g.frame).pageId = _
      rw [setFrame_self]
      exact hx.2.2
    · intro y hy
      exact absurd (hnil ▸ hy) List.not_mem_nil
    · rw [hnone]
      exact fun o ho => absurd ho List.not_mem_nil
    · rw [hops]
      show (((s.pool.setFrame g.frame x).setFrame g.frame _).frames g.frame).pinCount =
        ((s.dropGuard g).guardsAt g.frame).length + 1
      rw [setFrame_self,hnil]
      exact hone
    · rw [hops]
      exact fun _ => Nat.le_refl 1
    · rw [hops]
      intro o ho
      rw [List.mem_singleton.mp ho]
      show (((s.pool.setFrame g.frame x).setFrame g.frame _).frames g.frame).state = _ ∧
        (((s.pool.setFrame g.frame x).setFrame g.frame _).frames g.frame).pinCount = 1
      rw [setFrame_self]
      exact ⟨rfl,hone⟩
    · intro hev
      exact absurd hev (Bool.eq_false_iff.mp hnotev)
  · simp only [pool_dropGuard, he] at hn
    obtain rfl := Option.some.inj hn
    have hframe : ((s.pool.setFrame g.frame x).unpinFrame g.frame).2.frames g.frame =
        { x with pinCount := x.pinCount - 1 } := by
      rw [unpinFrame_frame,setFrame_self]
    have htab := unpinFrame_table (s.pool.setFrame g.frame x) g.frame
    have hops : ((s.dropGuard g).setPool
        ((s.pool.setFrame g.frame x).unpinFrame g.frame).2).opsAt g.frame = s.opsAt g.frame := rfl
    have hp' : x.pinCount = (s.pool.frames g.frame).pinCount := hx.1
    refine h.reframe ((poolAt_setFrame _ _ _).trans (unpinFrame_poolAt _ _)) htab.1 ?_
      hothers (fun _ _ => rfl) ?_ (fun o ho _ _ => ho) ?_ ?_ ?_ ?_ ?_ ?_
    · rw [frame_setPool,hframe]
      exact hx.2.2
    · intro y hy
      rw [guardsAt_setPool,guardsAt_dropGuard] at hy
      exact List.mem_of_mem_erase hy
    · rw [frame_setPool,hframe,guardsAt_setPool,herase,hops]
      show x.pinCount - 1 = _
      omega
    · rw [frame_setPool,hframe,hops]
      exact fun hs => hi.alone (hx.2.1.symm.trans hs)
    · rw [hops,frame_setPool,hframe]
      intro o ho
      have hfit := hi.fits o ho
      have hopos := List.length_pos_of_mem ho
      have htwo : (s.frame g.frame).pinCount ≠ 1 := by
        show (s.pool.frames g.frame).pinCount ≠ 1
        omega
      have hst : x.state = (s.frame g.frame).state := hx.2.1
      -- every operation but a flush needs the only pin
      cases o <;> simp_all [Op.Fits]
    · intro hev
      rw [frame_setPool,hframe]
      have hev' := unpinFrame_evictable (b := s.pool.setFrame g.frame x) hnotev hev
      rw [setFrame_self] at hev'
      exact hev'
    · show g.frame ∉ ((s.pool.setFrame g.frame x).unpinFrame g.frame).2.freeFrames
      rw [htab.2]
      exact hnfree
    · show ((s.pool.setFrame g.frame x).unpinFrame g.frame).2.freeFrames.Nodup
      rw [htab.2]
      exact h.freeNodup

end Releasing

/-! ### Flushing -/

section Flushing

variable {s s' : Threads β ρ}

/-- A clean frame somebody else pins is left alone. -/
theorem flushPin_cases (b : BufferPool β ρ) (f : FrameId) : b.flushPin f = (.done (.ok ()),b) ∨
    ∃ b₁, PoolAt b b₁ f ∧ b₁.frames = b.frames ∧ b₁.pageTable = b.pageTable ∧
      b₁.freeFrames = b.freeFrames ∧ ((b.frames f).pinCount ≠ 0 → b₁ = b) ∧
      ((b.frames f).pinCount = 0 → Replacer.isEvictable b₁.replacer f = false) ∧
      ((b.frames f).pinCount ≠ 0 → (b.frames f).isDirty = true) ∧
      b.flushPin f = (.waiting f,b₁.setFrame f { b.frames f with
        state := .flushing, pinCount := (b.frames f).pinCount + 1 }) := by
  unfold BufferPool.flushPin
  by_cases hz : (b.frames f).pinCount = 0
  · right
    refine ⟨b.mapReplacer fun r => Replacer.pin r f,poolAt_pin b f,rfl,rfl,rfl,
      fun hne => absurd hz hne,fun _ => by simp [BufferPool.mapReplacer],fun hne => absurd hz hne,?_⟩
    simp [hz]
  · by_cases hd : (b.frames f).isDirty = true
    · right
      refine ⟨b,⟨fun _ _ => rfl,fun _ _ _ h => h,fun _ _ h => h,fun _ _ h => h⟩,rfl,rfl,rfl,
        fun _ => rfl,fun he => absurd he hz,fun _ => hd,?_⟩
      simp [hz, hd]
    · left
      have hpos : 0 < (b.frames f).pinCount := Nat.pos_of_ne_zero hz
      simp [hz, hd, hpos]

theorem flushPin_inv (h : s.Inv) {p : PageId} {f : FrameId} (hv : (s.frame f).state = .valid)
    (hr : (s.frame f).isDirty = true → s.Unrestored f) :
    (s.flushed p (s.pool.flushPin f)).Inv := by
  have hi := h.at_ f
  have hnfree : f ∉ s.pool.freeFrames :=
    not_free_of_state h (by rw [hv]; exact fun he => by cases he)
  rcases flushPin_cases s.pool f with he | ⟨b,hat,-,ht,hfree,hsame,hev,hdirty,he⟩
  · rw [he]
    exact h.setPool (Quiet.refl _)
  · rw [he]
    have hnone : s.opsAt f = [] := by
      by_cases hz : (s.frame f).pinCount = 0
      · exact (hi.empty hz).2
      · exact hi.valid_ops hv (hr (hdirty hz))
    have hpins : (s.pool.frames f).pinCount = (s.guardsAt f).length := by
      have := hi.pins
      rw [hnone] at this
      exact this
    have hev' : Replacer.isEvictable b.replacer f = false := by
      by_cases hz : (s.pool.frames f).pinCount = 0
      · exact hev hz
      · rw [hsame hz]
        exact Bool.eq_false_iff.mpr fun hx => hz (hi.candidate hx).1
    have hops : ∀ b, ((s.setPool b).addOp (.flushing p f)).opsAt f = [.flushing p f] := fun b => by
      rw [opsAt_addOp,if_pos (by rfl),opsAt_setPool,hnone]
    refine h.reframe (hat.trans (poolAt_setFrame _ _ _)) ht ?_ (fun _ _ => rfl)
      (fun g hne => opsAt_addOp_ne rfl hne) (fun g hg => hg) ?_ ?_ ?_ ?_ ?_ ?_ ?_
    · show ((b.setFrame f _).frames f).pageId = _
      rw [setFrame_self]
      rfl
    · rw [hnone]
      exact fun o ho => absurd ho List.not_mem_nil
    · show ((b.setFrame f _).frames f).pinCount = (s.guardsAt f).length + _
      rw [setFrame_self]
      simp only [flushed, hops]
      exact congrArg (· + 1) hpins
    · simp only [flushed, hops]
      exact fun _ => Nat.le_refl 1
    · simp only [flushed, hops]
      intro o ho
      rw [List.mem_singleton.mp ho]
      show ((b.setFrame f _).frames f).state = _
      rw [setFrame_self]
    · intro hx
      exact absurd hx (Bool.eq_false_iff.mp hev')
    · show f ∉ b.freeFrames
      rw [hfree]
      exact hnfree
    · show b.freeFrames.Nodup
      rw [hfree]
      exact h.freeNodup

theorem flushPage_inv (h : s.Inv) {p : PageId}
    (hr : ∀ f, s.pool.pageTable p = some f → (s.frame f).isDirty = true → s.Unrestored f)
    (hn : s.next (.flushPage p) = some s') : s'.Inv := by
  obtain rfl := Option.some.inj hn
  unfold BufferPool.flushPage
  cases ht : s.pool.pageTable p with
  | none => exact h.setPool (Quiet.refl _)
  | some f =>
    cases hs : (s.pool.frames f).state <;> simp only [hs]
    case valid => exact flushPin_inv h hs (hr f ht)
    case deletePending => exact h.setPool (Quiet.refl _)
    all_goals exact (h.setPool (Quiet.refl _)).addOp rfl

theorem wakeFlush_inv (h : s.Inv) {p : PageId} {f : FrameId}
    (hr : (s.frame f).isDirty = true → s.Unrestored f)
    (hn : s.next (.wakeFlush p f) = some s') : s'.Inv := by
  simp only [next] at hn
  split at hn
  swap
  · simp at hn
  obtain rfl := Option.some.inj hn
  have hd : (s.dropOp (.flushBlocked p f)).Inv := h.dropOp rfl
  unfold BufferPool.flushWake
  cases ht : s.pool.pageTable p with
  | none => exact hd.setPool (Quiet.refl _)
  | some f' =>
    cases hs : (s.pool.frames f).state
    case valid => exact flushPin_inv hd hs fun hx o ho => hr hx o (List.mem_of_mem_erase ho)
    case deletePending => exact hd.setPool (Quiet.refl _)
    all_goals exact (hd.setPool (Quiet.refl _)).addOp rfl

theorem flushDone_inv (h : s.Inv) {f : FrameId} {outcome : Status}
    (hn : s.next (.flushDone f outcome) = some s') : s'.Inv := by
  simp only [next] at hn
  split at hn
  swap
  · simp at hn
  next hc =>
  obtain rfl := Option.some.inj hn
  obtain ⟨-,hp⟩ := h.fits hc rfl
  obtain ⟨hnf,hne⟩ := h.not_free hp
  obtain ⟨x,hx,hpin,hfin⟩ : ∃ x : Frame β, x.pageId = (s.frame f).pageId ∧ x.pinCount = 1 ∧
      s.pool.finishFlush f outcome = ((s.pool.setFrame f { x with state := .valid }).unpinFrame f).2
      := by
    cases outcome with
    | ok u => exact ⟨{ s.frame f with isDirty := false, pageLsn := invalidLsn },rfl,hp,rfl⟩
    | error e => exact ⟨s.frame f,rfl,hp,rfl⟩
  have hframe : (s.pool.finishFlush f outcome).frames f =
      { x with state := .valid, pinCount := x.pinCount - 1 } := by
    rw [hfin,unpinFrame_frame,setFrame_self]
  have htab := unpinFrame_table (s.pool.setFrame f { x with state := .valid }) f
  rw [← hfin] at htab
  refine h.give (G := []) hc rfl hp rfl rfl (by simp) ?_ ?_ ?_ (by simp) ?_ ?_ ?_
  · show PoolAt s.pool (s.pool.finishFlush f outcome) f
    rw [hfin]
    exact (poolAt_setFrame _ _ _).trans (unpinFrame_poolAt _ _)
  · show (s.pool.finishFlush f outcome).freeFrames.Nodup
    rw [htab.2]
    exact h.freeNodup
  · show ((s.pool.finishFlush f outcome).frames f).pinCount = 0
    rw [hframe,hpin]
  · intro q hq
    have hq' : s.pool.pageTable q = some f := by
      have hq₂ : (s.pool.finishFlush f outcome).pageTable q = some f := hq
      rw [htab.1] at hq₂
      exact hq₂
    obtain ⟨hqi,hor⟩ := h.mapped_solo hc rfl hp hq'
    refine ⟨hqi,?_⟩
    show ((s.pool.finishFlush f outcome).frames f).pageId = q
    rw [hframe]
    exact hx.trans (hor.resolve_right (by simp [Op.loads]))
  · refine fun _ => ⟨rfl,?_⟩
    show ((s.pool.finishFlush f outcome).frames f).state ≠ .deletePending
    rw [hframe]
    exact fun he => by cases he
  · intro hf
    have hf' : f ∈ (s.pool.finishFlush f outcome).freeFrames := hf
    rw [htab.2] at hf'
    exact absurd hf' hnf

end Flushing

/-! ### Deleting a page -/

section Deleting

variable {s s' : Threads β ρ}

theorem quiet_setPending (b : BufferPool β ρ) (p : PageId) (x : Bool) : Quiet b (b.setPending p x) :=
  ⟨rfl,fun _ _ h => h,fun _ h => h,List.Sublist.refl _⟩

theorem poolAt_setPending (b : BufferPool β ρ) (p : PageId) (x : Bool) (f : FrameId) :
    PoolAt b (b.setPending p x) f :=
  ⟨fun _ _ => rfl,fun _ _ _ h => h,fun _ _ h => h,fun _ _ h => h⟩

theorem poolAt_remove (b : BufferPool β ρ) (f : FrameId) :
    PoolAt b (b.mapReplacer fun r => Replacer.remove r f) f :=
  poolAt_replacer b fun g hg he => by simpa [hg] using he

/-- A frame that is in no transit changes its state and its candidacy only. -/
theorem Inv.restate (h : s.Inv) {b : BufferPool β ρ} {f : FrameId} {st : FrameState}
    (hnone : s.opsAt f = []) (hne : (s.frame f).state ≠ .empty) (hat : PoolAt s.pool b f)
    (ht : b.pageTable = s.pool.pageTable) (hfree : b.freeFrames = s.pool.freeFrames)
    (hframe : b.frames f = { s.frame f with state := st })
    (hev : Replacer.isEvictable b.replacer f = true →
      (s.frame f).pinCount = 0 ∧ st ≠ .deletePending) : (s.setPool b).Inv := by
  have hi := h.at_ f
  have hpins := hi.pins
  rw [hnone] at hpins
  refine h.reframe hat ht ?_ (fun _ _ => rfl) (fun _ _ => rfl) (fun _ hg => hg)
    (fun o ho _ _ => ho) ?_ ?_ ?_ ?_ ?_ ?_
  · rw [frame_setPool,hframe]
  · rw [frame_setPool,hframe,opsAt_setPool,hnone]
    exact hpins
  · rw [opsAt_setPool,hnone]
    exact fun _ => Nat.zero_le 1
  · rw [opsAt_setPool,hnone]
    exact fun o ho => absurd ho List.not_mem_nil
  · rw [frame_setPool,hframe]
    exact hev
  · rw [pool_setPool,hfree]
    exact not_free_of_state h hne
  · rw [pool_setPool,hfree]
    exact h.freeNodup

theorem beginDeletion_inv (h : s.Inv) {p : PageId} {expectedPins : ℕ}
    (hr : ∀ f, s.pool.pageTable p = some f → (s.frame f).pinCount = expectedPins →
      s.Unrestored f) (hn : s.next (.beginDeletion p expectedPins) = some s') : s'.Inv := by
  obtain rfl := Option.some.inj hn
  unfold BufferPool.beginPageDeletion
  cases BufferPool.validateDataPageId p with
  | error e => exact h.setPool (Quiet.refl _)
  | ok u =>
    simp only
    split
    · exact h.setPool (Quiet.refl _)
    cases ht : s.pool.pageTable p with
    | none => exact h.setPool (quiet_setPending _ _ _)
    | some f =>
      simp only
      split
      · exact h.setPool (Quiet.refl _)
      · next hc =>
        simp only [not_or, ne_eq, not_not] at hc
        have hv : (s.frame f).state = .valid := hc.1
        refine h.restate ((h.at_ f).valid_ops hv (hr f ht hc.2)) (by rw [hv]; exact fun he => by cases he)
          (((poolAt_setPending s.pool p true f).trans (poolAt_pin _ f)).trans
            (poolAt_setFrame _ f _)) rfl rfl (setFrame_self _ _ _) ?_
        intro he
        simp [BufferPool.setFrame, BufferPool.mapReplacer] at he

theorem cancelDeletion_inv (h : s.Inv) {p : PageId}
    (hn : s.next (.cancelDeletion p) = some s') : s'.Inv := by
  obtain rfl := Option.some.inj hn
  unfold BufferPool.cancelPageDeletion
  split
  · exact h.setPool (Quiet.refl _)
  cases ht : s.pool.pageTable p with
  | none => exact h.setPool (quiet_setPending _ _ _)
  | some f =>
    simp only
    split
    · exact h.setPool (Quiet.refl _)
    · next hc =>
      simp only [not_or, ne_eq, not_not] at hc
      have hd : (s.frame f).state = .deletePending := hc.1
      have hz : (s.frame f).pinCount = 0 := hc.2
      refine h.restate ((h.at_ f).empty hz).2 (by rw [hd]; exact fun he => by cases he)
        (((poolAt_setPending s.pool p false f).trans (poolAt_unpin _ f)).trans
          (poolAt_setFrame _ f _)) rfl rfl (setFrame_self _ _ _) ?_
      exact fun _ => ⟨hz,fun he => by cases he⟩

theorem finalize_inv (h : s.Inv) {p : PageId} (hn : s.next (.finalize p) = some s') :
    s'.Inv := by
  simp only [next, BufferPool.finalizePageDeletion] at hn
  by_cases hp : (!s.pool.deletePending p) = true
  · rw [if_pos hp] at hn
    obtain rfl := Option.some.inj hn
    exact h.setPool (Quiet.refl _)
  rw [if_neg hp] at hn
  cases ht : s.pool.pageTable p with
  | none =>
    rw [ht] at hn
    obtain rfl := Option.some.inj hn
    exact (h.setPool (Quiet.refl _)).addOp rfl
  | some f =>
    simp only [ht] at hn
    by_cases hc : (s.pool.frames f).state ≠ .deletePending ∨ (s.pool.frames f).pinCount ≠ 0
    · rw [if_pos hc] at hn
      obtain rfl := Option.some.inj hn
      exact h.setPool (Quiet.refl _)
    · rw [if_neg hc] at hn
      simp only [not_or, ne_eq, not_not] at hc
      obtain rfl := Option.some.inj hn
      have hd : (s.frame f).state = .deletePending := hc.1
      have hz : (s.frame f).pinCount = 0 := hc.2
      have hi := h.at_ f
      have hpage : (s.frame f).pageId = p := hi.pageId_of_mapped ht (.inr hd)
      refine h.take hz (poolAt_setFrame _ f _) rfl ?_ ?_ (fun q hq => ⟨(hi.mapped q hq).1,.inl ?_⟩)
        ?_ (not_free_of_state h (by rw [hd]; exact fun he => by cases he)) h.freeNodup
      · rw [setFrame_self]
      · show ((s.pool.setFrame f _).frames f).state = _ ∧ ((s.pool.setFrame f _).frames f).pinCount =
          1 ∧ ((s.pool.setFrame f _).frames f).pageId = p
        rw [setFrame_self]
        exact ⟨hd,rfl,hpage⟩
      · rw [setFrame_self]
        exact hi.pageId_of_mapped hq (.inr hd)
      · exact Bool.eq_false_iff.mpr fun he => (hi.candidate he).2 hd

theorem finalizeDone_inv (h : s.Inv) {p : PageId} {f : FrameId} {outcome : Status}
    (hn : s.next (.finalizeDone p f outcome) = some s') : s'.Inv := by
  simp only [next] at hn
  split at hn
  swap
  · simp at hn
  next hc =>
  obtain rfl := Option.some.inj hn
  obtain ⟨hd,hp,hpage⟩ := h.fits hc rfl
  obtain ⟨hnf,hne⟩ := h.not_free hp
  cases outcome with
  | error e =>
    refine h.give (G := []) hc rfl hp rfl rfl (by simp) (poolAt_setFrame _ _ _) h.freeNodup ?_
      (by simp) ?_ (fun he => absurd he hne) fun hf => absurd hf hnf
    · show ((s.pool.setFrame f _).frames f).pinCount = 0
      rw [setFrame_self]
    · intro q hq
      obtain ⟨hqi,hor⟩ := h.mapped_solo hc rfl hp hq
      refine ⟨hqi,?_⟩
      show ((s.pool.setFrame f _).frames f).pageId = q
      rw [setFrame_self]
      exact hor.resolve_right (by simp [Op.loads])
  | ok u =>
    have hret := returnFreeFrame_same
      ((((s.pool.unmap p).setFrame f { (s.pool.unmap p).frames f with
        pageId := invalidPageId, pinCount := 0, isDirty := false, state := .empty }).setPending p
        false).mapReplacer fun r => Replacer.remove r f) f
    refine h.give (G := []) hc rfl hp rfl rfl (by simp) ?_ ?_ ?_ (by simp) ?_ ?_ ?_
    · exact ((((poolAt_unmap _ p f).trans (poolAt_setFrame _ f _)).trans
        (poolAt_setPending _ p false f)).trans (poolAt_remove _ f)).trans
        (returnFreeFrame_poolAt _ _)
    · refine returnFreeFrame_nodup ?_ _
      exact h.freeNodup
    · show ((BufferPool.returnFreeFrame _ _).2.frames _).pinCount = 0
      rw [hret.1]
      exact congrArg Frame.pinCount (setFrame_self _ _ _)
    · intro q hq
      have hq' : (s.pool.unmap p).pageTable q = some f := by
        have hq₂ : (BufferPool.returnFreeFrame _ _).2.pageTable q = some f := hq
        rw [hret.2.2] at hq₂
        exact hq₂
      obtain ⟨hqp,hq'⟩ := unmap_mapped hq'
      obtain ⟨-,hor⟩ := h.mapped_solo hc rfl hp hq'
      exact absurd ((hor.resolve_right (by simp [Op.loads])).symm.trans hpage) hqp
    · intro he
      have he' : Replacer.isEvictable (BufferPool.returnFreeFrame _ _).2.replacer f = true := he
      rw [hret.2.1] at he'
      simp [BufferPool.mapReplacer] at he'
    · refine fun _ => ⟨rfl,?_,fun he => ?_⟩
      · show ((BufferPool.returnFreeFrame _ _).2.frames _).state = .empty
        rw [hret.1]
        exact congrArg Frame.state (setFrame_self _ _ _)
      · have he' : Replacer.isEvictable (BufferPool.returnFreeFrame _ _).2.replacer f = true := he
        rw [hret.2.1] at he'
        simp [BufferPool.mapReplacer] at he'

theorem finalizeUncached_inv (h : s.Inv) {p : PageId} {deallocate : Status}
    (hn : s.next (.finalizeUncached p deallocate) = some s') : s'.Inv := by
  simp only [next] at hn
  split at hn
  swap
  · simp at hn
  obtain rfl := Option.some.inj hn
  have hd : (s.dropOp (.finalizingUncached p)).Inv := h.dropOp rfl
  refine hd.setPool ?_
  simp only [BufferPool.finishUncached]
  split
  · exact quiet_setPending _ _ _
  · exact Quiet.refl _

end Deleting

/-! ### Restoring a page -/

section Restoring

variable {s s' : Threads β ρ}

theorem restorePage_inv (h : s.Inv) {p : PageId} {image : β}
    (hn : s.next (.restorePage p image) = some s') : s'.Inv := by
  simp only [next, BufferPool.restorePage] at hn
  by_cases hp : p = invalidPageId ∨ p = 0
  · rw [if_pos hp] at hn
    obtain rfl := Option.some.inj hn
    exact h.setPool (Quiet.refl _)
  rw [if_neg hp] at hn
  cases ht : s.pool.pageTable p with
  | none =>
    rw [ht] at hn
    obtain rfl := Option.some.inj hn
    exact h.setPool (Quiet.refl _)
  | some f =>
    simp only [ht] at hn
    by_cases hc : (s.pool.frames f).state ≠ .valid ∨ (s.pool.frames f).pinCount ≠ 0
    · rw [if_pos hc] at hn
      obtain rfl := Option.some.inj hn
      exact h.setPool (Quiet.refl _)
    · rw [if_neg hc] at hn
      simp only [not_or, ne_eq, not_not] at hc
      obtain rfl := Option.some.inj hn
      have hv : (s.frame f).state = .valid := hc.1
      have hi := h.at_ f
      refine h.take hc.2 ((poolAt_pin _ f).trans (poolAt_setFrame _ f _)) rfl ?_ ?_
        (fun q hq => ⟨(hi.mapped q hq).1,.inl ?_⟩) ?_
        (not_free_of_state h (by rw [hv]; exact fun he => by cases he)) h.freeNodup
      · rw [setFrame_self]
      · show (BufferPool.frames (BufferPool.setFrame _ f _) f).state = _ ∧
          (BufferPool.frames (BufferPool.setFrame _ f _) f).pinCount = 1
        rw [setFrame_self]
        exact ⟨hv,rfl⟩
      · rw [setFrame_self]
        exact hi.pageId_of_mapped hq (.inl hv)
      · simp [BufferPool.setFrame, BufferPool.mapReplacer]

theorem restoreDone_inv (h : s.Inv) {f : FrameId} {outcome : Status}
    (hn : s.next (.restoreDone f outcome) = some s') : s'.Inv := by
  simp only [next] at hn
  split at hn
  swap
  · simp at hn
  next hc =>
  obtain rfl := Option.some.inj hn
  obtain ⟨hv,hp⟩ := h.fits hc rfl
  obtain ⟨hnf,-⟩ := h.not_free hp
  obtain ⟨x,hpage,hst,hfin⟩ : ∃ x : Frame β, x.pageId = (s.frame f).pageId ∧ x.state = .valid ∧
      s.pool.finishRestore f outcome =
        (s.pool.setFrame f { x with pinCount := 0 }).mapReplacer fun r => Replacer.unpin r f := by
    cases outcome with
    | ok u => exact ⟨{ s.frame f with isDirty := false, pageLsn := invalidLsn },rfl,hv,rfl⟩
    | error e => exact ⟨s.frame f,rfl,hv,rfl⟩
  have hframe : (s.pool.finishRestore f outcome).frames f = { x with pinCount := 0 } := by
    rw [hfin]
    exact setFrame_self _ _ _
  refine h.give (G := []) hc rfl hp rfl rfl (by simp) ?_ ?_ ?_ (by simp) ?_ ?_ ?_
  · show PoolAt s.pool (s.pool.finishRestore f outcome) f
    rw [hfin]
    exact (poolAt_setFrame _ _ _).trans (poolAt_unpin _ _)
  · show (s.pool.finishRestore f outcome).freeFrames.Nodup
    rw [hfin]
    exact h.freeNodup
  · show ((s.pool.finishRestore f outcome).frames f).pinCount = 0
    rw [hframe]
  · intro q hq
    have hq' : s.pool.pageTable q = some f := by
      have hq₂ : (s.pool.finishRestore f outcome).pageTable q = some f := hq
      rw [hfin] at hq₂
      exact hq₂
    obtain ⟨hqi,hor⟩ := h.mapped_solo hc rfl hp hq'
    refine ⟨hqi,?_⟩
    show ((s.pool.finishRestore f outcome).frames f).pageId = q
    rw [hframe]
    exact hpage.trans (hor.resolve_right (by simp [Op.loads]))
  · refine fun _ => ⟨rfl,?_⟩
    show ((s.pool.finishRestore f outcome).frames f).state ≠ .deletePending
    rw [hframe,hst]
    exact fun he => by cases he
  · intro hf
    have hf' : f ∈ (s.pool.finishRestore f outcome).freeFrames := hf
    rw [hfin] at hf'
    exact absurd hf' hnf

end Restoring

end Threads
end Buffer
end OurSql
