import OurSql.Buffer.Placed
import OurSql.Buffer.PinCount

/-! One operation at a time. Between complete operations every frame is in exactly one
place, as long as no new page gets the number of a page that is cached or reserved. -/
namespace OurSql
namespace Buffer

set_option linter.unusedSectionVars false

open BufferPool (Fetch Flush Release Finalize Restore)

variable {β ρ : Type} [Zero β] [DecidableEq β] [Replacer ρ]

/-- The first section of an operation. -/
def Action.starts : Action β → Bool
  | .fetch _ _ | .newPage _ | .release _ | .flushPage _ | .beginDeletion _ _
  | .cancelDeletion _ | .finalize _ => true
  | _ => false

/-- What an operation under way knows of the tables. -/
def Op.Placed (b : BufferPool β ρ) : Op β → Prop
  | .load p sel oldPage _ | .loaded p sel oldPage _ _ =>
    (b.frames sel.frameId).state = (if sel.fromFreeList then .loading else .evicting) ∧
      b.pageTable p = some sel.frameId ∧ p ≠ invalidPageId ∧
      (sel.fromFreeList = false → p ≠ oldPage)
  | .alloc sel _ _ | .allocated sel _ _ _ =>
    (b.frames sel.frameId).state = if sel.fromFreeList then .loading else .evicting
  | .finalizingUncached p => b.pageTable p = none
  | .fetchWait _ _ | .flushBlocked _ _ | .restoring _ _ | .restored _ _ => False
  | _ => True

theorem Op.Placed.keep {b b' : BufferPool β ρ} {o : Op β} (h : o.Placed b)
    (hs : ∀ f, (b'.frames f).state = (b.frames f).state) (ht : b'.pageTable = b.pageTable) :
    o.Placed b' := by
  cases o <;> simp only [Op.Placed, hs, ht] at h ⊢ <;> exact h

namespace Threads

/-- At most one operation is under way, and only its frame is moving. -/
def Turn (b : BufferPool β ρ) : List (Op β) → Prop
  | [] => ∀ f, ¬ (b.frames f).state.moving
  | [o] => o.Placed b ∧ ∀ f, o.frame? ≠ some f → ¬ (b.frames f).state.moving
  | _ => False

structure Placed (n : ℕ) (s : Threads β ρ) : Prop where
  at_ : ∀ f, PlacedAt n s.pool f
  turn : Turn s.pool s.ops

/-- An operation is begun only when no other is under way; page restores belong to
recovery and are left out. -/
def SerialStep (s : Threads β ρ) (a : Action β) (s' : Threads β ρ) : Prop :=
  (a.starts = true → s.ops = []) ∧ a.isRestore = false ∧ s.next a = some s'

/-- A new page does not get the number of a page in another frame or of a reserved one. -/
def Fresh (s : Threads β ρ) : Action β → Prop
  | .newDone sel _ _ (.ok p) =>
    (∀ f, s.pool.pageTable p = some f → f = sel.frameId) ∧ s.pool.deletePending p = false
  | _ => True

def FreshStep (s : Threads β ρ) (a : Action β) (s' : Threads β ρ) : Prop :=
  s.Fresh a ∧ s.SerialStep a s'

section Steps

variable {n : ℕ} {s s' : Threads β ρ}

theorem Placed.calm (h : s.Placed n) (ho : s.ops = []) (f : FrameId) :
    ¬ (s.pool.frames f).state.moving := by
  have ht := h.turn
  rw [ho] at ht
  exact ht f

theorem Placed.sole (h : s.Placed n) {o : Op β} (ho : o ∈ s.ops) : s.ops = [o] ∧
    o.Placed s.pool ∧ ∀ f, o.frame? ≠ some f → ¬ (s.pool.frames f).state.moving := by
  have ht := h.turn
  match hs : s.ops with
  | [] => simp [hs] at ho
  | [x] =>
    rw [hs] at ho ht
    obtain rfl := List.mem_singleton.mp ho
    exact ⟨rfl,ht.1,ht.2⟩
  | x::y::l =>
    rw [hs] at ht
    exact ht.elim

/-- A step that ends with nobody inside the pool. -/
theorem Placed.settle (h : s.Placed n) {f : FrameId} (hk : ∀ g, g ≠ f → Keeps s.pool s'.pool g)
    (hcalm : ∀ g, g ≠ f → ¬ (s.pool.frames g).state.moving) (hf : PlacedAt n s'.pool f)
    (hm : ¬ (s'.pool.frames f).state.moving) (hops : s'.ops = []) : s'.Placed n where
  at_ g := by
    by_cases hg : g = f
    · exact hg ▸ hf
    · exact (h.at_ g).keep (hk g hg)
  turn := by
    rw [hops]
    intro g
    by_cases hg : g = f
    · exact hg ▸ hm
    · exact (hk g hg).calm (hcalm g hg)

/-- A step that leaves one operation with its frame. -/
theorem Placed.begin (h : s.Placed n) {f : FrameId} {o : Op β}
    (hk : ∀ g, g ≠ f → Keeps s.pool s'.pool g)
    (hcalm : ∀ g, g ≠ f → ¬ (s.pool.frames g).state.moving) (hf : PlacedAt n s'.pool f)
    (hof : o.frame? = some f) (ho : o.Placed s'.pool) (hops : s'.ops = [o]) : s'.Placed n where
  at_ g := by
    by_cases hg : g = f
    · exact hg ▸ hf
    · exact (h.at_ g).keep (hk g hg)
  turn := by
    rw [hops]
    refine ⟨ho,fun g hg => ?_⟩
    have hgf : g ≠ f := by
      rintro rfl
      exact hg hof
    exact (hk g hgf).calm (hcalm g hgf)

/-- Nothing moved. -/
theorem Placed.still (h : s.Placed n) (hk : ∀ g, Keeps s.pool s'.pool g) (ho : s.ops = [])
    (hops : s'.ops = []) : s'.Placed n where
  at_ g := (h.at_ g).keep (hk g)
  turn := by
    rw [hops]
    exact fun g => (hk g).calm (h.calm ho g)

/-- Bytes were moved while the operation, if any, stayed where it was. -/
theorem Placed.overwrite (h : s.Placed n) {f : FrameId} (hpool : Overwrites s.pool s'.pool f)
    (hd : s'.pool.deletePending = s.pool.deletePending) (hops : s'.ops = s.ops) :
    s'.Placed n where
  at_ g := (h.at_ g).keep (hpool.keeps hd g)
  turn := by
    have ht := h.turn
    have hk := hpool.keeps hd
    rw [hops]
    match hs : s.ops with
    | [] =>
      rw [hs] at ht
      exact fun g => (hk g).calm (ht g)
    | [o] =>
      rw [hs] at ht
      exact ⟨Op.Placed.keep ht.1 (fun g => (hk g).frame.2.1) hpool.pageTable,
        fun g hg => (hk g).calm (ht.2 g hg)⟩
    | x::y::l =>
      rw [hs] at ht
      exact ht.elim

/-- Bytes were moved, and the operation came one section further. -/
theorem Placed.advance (h : s.Placed n) {o q : Op β} {f : FrameId} (ho : o ∈ s.ops)
    (hof : q.frame? = o.frame?) (hops : s'.ops = q::s.ops.erase o)
    (hpool : Overwrites s.pool s'.pool f) (hd : s'.pool.deletePending = s.pool.deletePending)
    (hplaced : o.Placed s'.pool → q.Placed s'.pool) : s'.Placed n where
  at_ g := (h.at_ g).keep (hpool.keeps hd g)
  turn := by
    obtain ⟨hs,hp,hcalm⟩ := h.sole ho
    have hk := hpool.keeps hd
    rw [hops,hs]
    simp only [List.erase_cons_head]
    refine ⟨hplaced (Op.Placed.keep hp (fun g => (hk g).frame.2.1) hpool.pageTable),
      fun g hg => (hk g).calm (hcalm g ?_)⟩
    rw [← hof]
    exact hg

/-! ### Taking a frame -/

/-- An operation takes a frame from the free list or from the candidates. -/
theorem Placed.take (h : s.Placed n) (ho : s.ops = []) {b : BufferPool β ρ} {f : FrameId}
    {o : Op β} (hk : ∀ g, g ≠ f → Keeps s.pool b g) (hn : f < n)
    (hs : (b.frames f).state = .loading ∨
      (b.frames f).state = .evicting ∧ (b.frames f).pageId ≠ invalidPageId)
    (hfree : f ∉ b.freeFrames) (hev : Replacer.isEvictable b.replacer f = false)
    (howns : (b.frames f).pageId ≠ invalidPageId → b.pageTable (b.frames f).pageId = some f)
    (hpend : ∀ q, b.pageTable q = some f → b.deletePending q = false)
    (hof : o.frame? = some f) (hop : o.Placed b) : ((s.setPool b).addOp o).Placed n := by
  have hstate : (b.frames f).state ≠ .empty ∧ (b.frames f).state ≠ .valid ∧
      (b.frames f).state ≠ .deletePending := by
    rcases hs with hs | ⟨hs,-⟩ <;> rw [hs] <;> simp
  refine h.begin (f := f) hk (fun g _ => h.calm ho g) ?_ hof hop ?_
  · refine .occupied hstate.1 hn hfree (fun hl => ?_) howns (fun q hq => ?_) ?_
    · exact hs.elim (fun he => absurd he hl) And.right
    · rw [pool_addOp,pool_setPool] at hq ⊢
      rw [hpend q hq]
      exact iff_of_false (by simp) hstate.2.2
    · rw [pool_addOp,pool_setPool,hev]
      exact iff_of_false (by simp) fun he => hstate.2.1 he.1
  · show o::s.ops = [o]
    rw [ho]

theorem Placed.mapped (hi : s.Inv) (ho : s.ops = []) {q : PageId} {f : FrameId}
    (hq : s.pool.pageTable q = some f) :
    (s.pool.frames f).pageId = q ∧ q ≠ invalidPageId := by
  obtain ⟨hne,hor⟩ := (hi.at_ f).mapped q hq
  refine ⟨hor.resolve_right ?_,hne⟩
  rintro ⟨o,hmem,-⟩
  have := (mem_opsAt.mp hmem).1
  simp [ho] at this

theorem newPage_placed (h : s.Placed n) (hi : s.Inv) (ho : s.ops = []) {k : Access}
    (hn : s.next (.newPage k) = some s') : s'.Placed n := by
  simp only [next, BufferPool.newPage] at hn
  rcases selectFrame_placed h.at_ with ⟨e,he⟩ | ⟨f,rest,hf,he⟩ | ⟨f,r,hf,hv,hs,he⟩ <;>
    rw [he] at hn
  · obtain rfl := Option.some.inj hn
    exact h.still (fun g => Keeps.refl _ g) ho ho
  · obtain rfl := Option.some.inj hn
    have hmem : f ∈ s.pool.freeFrames := by simp [hf]
    obtain ⟨hlt,hst⟩ := (h.at_ f).free.mp hmem
    obtain ⟨hpage,hz⟩ := (h.at_ f).blank hst
    have hnodup := List.nodup_cons.mp (hf ▸ hi.freeNodup)
    refine h.take ho (f := f) (fun g hg => ?_) hlt (.inl ?_) hnodup.1 ?_ ?_ (fun q hq => ?_) rfl ?_
    · exact ((keeps_popFree hf hg).trans (keeps_setFrame _ hg _)).trans (keeps_setFrame _ hg _)
    · simp [BufferPool.setFrame]
    · refine Bool.eq_false_iff.mpr fun hev => ?_
      have hcand := ((h.at_ f).candidate.mp hev).1
      rw [hst] at hcand
      cases hcand
    · simp [BufferPool.setFrame, hpage]
    · obtain ⟨hq',hne⟩ := Placed.mapped hi ho hq
      exact absurd (hq'.symm.trans hpage) hne
    · simp [Op.Placed, BufferPool.setFrame]
  · obtain rfl := Option.some.inj hn
    have hne : (s.pool.frames f).state ≠ .empty := by simp [hs]
    have hname := (h.at_ f).named hne (by simp [hs])
    refine h.take ho (f := f) (fun g hg => ?_) ((h.at_ f).held hne) (.inr ⟨?_,?_⟩) ?_
      (victim_not_evictable hv) ?_ (fun q hq => ?_) rfl ?_
    · exact (keeps_victim hv hg).trans (keeps_setFrame _ hg _)
    · simp [BufferPool.setFrame]
    · simpa [BufferPool.setFrame] using hname
    · simp [BufferPool.setFrame, hf]
    · simpa [BufferPool.setFrame] using (h.at_ f).owns
    · have hp := (h.at_ f).pending q hq
      rw [hs] at hp
      simpa [BufferPool.setFrame] using hp
    · simp [Op.Placed, BufferPool.setFrame]

theorem lookup_serial (h : s.Placed n) (hi : s.Inv) (ho : s.ops = []) {p : PageId}
    (hp : p ≠ invalidPageId) (k : Access) : (s.fetched p k (s.pool.lookup p)).Placed n := by
  rcases lookup_placed h.at_ (h.calm ho) (p := p) fun f hf => Placed.mapped hi ho hf with
    ⟨e,b,he,hk⟩ | ⟨f,ht,hv,he⟩ | ⟨sel,b₁,hd,ht,hsel,he⟩ <;> rw [he]
  · exact h.still hk ho ho
  · have hne : (s.pool.frames f).state ≠ .empty := by simp [hv]
    refine h.settle (f := f) (fun g hg => ?_) (fun g _ => h.calm ho g) ?_ ?_ ho
    · refine Keeps.trans ?_ (keeps_setFrame _ hg _)
      exact keeps_replacer (t := fun r => Replacer.recordAccess (Replacer.pin r f) f)
        (by simp [hg])
    · refine (h.at_ f).restate hne (by simp [hv]) ?_ ?_ rfl rfl (fun q hq => ?_) ?_
      · simpa [fetched, BufferPool.setFrame, BufferPool.mapReplacer] using hne
      · simp [fetched, BufferPool.setFrame, BufferPool.mapReplacer]
      · simpa [fetched, BufferPool.setFrame, BufferPool.mapReplacer] using (h.at_ f).pending q hq
      · simp [fetched, BufferPool.setFrame, BufferPool.mapReplacer]
    · simp [fetched, BufferPool.setFrame, BufferPool.mapReplacer, hv, FrameState.moving]
  · rcases selectFrame_placed h.at_ with ⟨e,hx⟩ | ⟨f,rest,hf,hx⟩ | ⟨f,r,hf,hv,hs,hx⟩ <;>
      rw [hx] at hsel
    · simp at hsel
    · simp only [Prod.mk.injEq, Except.ok.injEq] at hsel
      obtain ⟨rfl,rfl⟩ := hsel
      have hmem : f ∈ s.pool.freeFrames := by simp [hf]
      obtain ⟨hlt,hst⟩ := (h.at_ f).free.mp hmem
      obtain ⟨hpage,hz⟩ := (h.at_ f).blank hst
      have hnodup := List.nodup_cons.mp (hf ▸ hi.freeNodup)
      refine h.take ho (f := f) (fun g hg => ?_) hlt (.inl ?_) hnodup.1 ?_ ?_ (fun q hq => ?_)
        rfl ⟨?_,?_,hp,by simp⟩
      · refine Keeps.trans (((keeps_popFree hf hg).trans (keeps_setFrame _ hg _)).trans
          (keeps_setFrame _ hg _)) (keeps_map hg ?_)
        simp [BufferPool.setFrame, ht]
      · simp [BufferPool.setFrame, BufferPool.map]
      · refine Bool.eq_false_iff.mpr fun hev => ?_
        have hcand := ((h.at_ f).candidate.mp hev).1
        rw [hst] at hcand
        cases hcand
      · simp [BufferPool.setFrame, BufferPool.map]
      · by_cases hqp : q = p
        · exact hqp ▸ hd
        · have hq' : s.pool.pageTable q = some f := by
            simpa [BufferPool.setFrame, BufferPool.map, hqp] using hq
          obtain ⟨hq',hne⟩ := Placed.mapped hi ho hq'
          exact absurd (hq'.symm.trans hpage) hne
      · simp [BufferPool.setFrame, BufferPool.map]
      · simp [BufferPool.map]
    · simp only [Prod.mk.injEq, Except.ok.injEq] at hsel
      obtain ⟨rfl,rfl⟩ := hsel
      have hne : (s.pool.frames f).state ≠ .empty := by simp [hs]
      have hname := (h.at_ f).named hne (by simp [hs])
      have howns := (h.at_ f).owns hname
      have hold : (s.pool.frames f).pageId ≠ p := by
        intro hx
        rw [hx,ht] at howns
        cases howns
      refine h.take ho (f := f) (fun g hg => ?_) ((h.at_ f).held hne) (.inr ⟨?_,?_⟩) ?_
        (victim_not_evictable hv) ?_ (fun q hq => ?_) rfl ⟨?_,?_,hp,fun _ => ?_⟩
      · refine Keeps.trans ((keeps_victim hv hg).trans (keeps_setFrame _ hg _))
          (keeps_map hg ?_)
        simp [BufferPool.setFrame, ht]
      · simp [BufferPool.setFrame, BufferPool.map]
      · simpa [BufferPool.setFrame, BufferPool.map] using hname
      · simp [BufferPool.setFrame, BufferPool.map, hf]
      · simpa [BufferPool.setFrame, BufferPool.map, hold] using fun _ => howns
      · by_cases hqp : q = p
        · exact hqp ▸ hd
        · have hq' : s.pool.pageTable q = some f := by
            simpa [BufferPool.setFrame, BufferPool.map, hqp] using hq
          have hpend := (h.at_ f).pending q hq'
          rw [hs] at hpend
          simpa [BufferPool.setFrame, BufferPool.map] using hpend
      · simp [BufferPool.setFrame, BufferPool.map]
      · simp [BufferPool.map]
      · simpa [BufferPool.setFrame] using hold.symm

theorem fetch_placed (h : s.Placed n) (hi : s.Inv) (ho : s.ops = []) {p : PageId} {k : Access}
    (hn : s.next (.fetch p k) = some s') : s'.Placed n := by
  obtain rfl := Option.some.inj hn
  unfold BufferPool.fetchPage BufferPool.validateDataPageId
  by_cases hp : p = invalidPageId ∨ p = 0
  · rw [if_pos hp]
    exact h.still (fun g => Keeps.refl _ g) ho ho
  · rw [if_neg hp]
    exact lookup_serial h hi ho (fun he => hp (.inl he)) k

/-! ### Releasing and flushing -/

/-- With nobody inside the pool, a frame that holds a page is Valid or reserved. -/
theorem Placed.resting (h : s.Placed n) (ho : s.ops = []) {f : FrameId}
    (hs : (s.pool.frames f).state ≠ .empty) :
    (s.pool.frames f).state = .valid ∨ (s.pool.frames f).state = .deletePending := by
  have hm := h.calm ho f
  cases hx : (s.pool.frames f).state <;> simp_all [FrameState.moving]

theorem unpinFrame_candidate (b : BufferPool β ρ) (f : FrameId) :
    Replacer.isEvictable (b.unpinFrame f).2.replacer f = (Replacer.isEvictable b.replacer f ||
      decide ((b.frames f).pinCount - 1 = 0 ∧ (b.frames f).state ≠ .deletePending)) := by
  simp only [BufferPool.unpinFrame]
  split
  · next hc => simp [BufferPool.mapReplacer, hc]
  · next hc => simp [BufferPool.setFrame, hc]

theorem unpinFrame_pending (b : BufferPool β ρ) (f : FrameId) :
    (b.unpinFrame f).2.deletePending = b.deletePending := by
  simp only [BufferPool.unpinFrame]
  split <;> rfl

theorem release_placed (h : s.Placed n) (hi : s.Inv) (ho : s.ops = []) {g : Guard β}
    (hn : s.next (.release g) = some s') : s'.Placed n := by
  simp only [next] at hn
  split at hn
  swap
  · simp at hn
  next hc =>
  have hmem : g ∈ s.guardsAt g.frame := mem_guardsAt.mpr ⟨hc.1,rfl⟩
  have hpos : (s.pool.frames g.frame).pinCount ≠ 0 := hi.live_pinned hc.1
  have hpage : (s.pool.frames g.frame).pageId = g.page := (hi.at_ g.frame).guarded g hmem
  have hne : (s.pool.frames g.frame).state ≠ .empty := fun he =>
    hpos ((h.at_ g.frame).blank he).2
  have hrest := h.resting ho hne
  have hl : (s.pool.frames g.frame).state ≠ .loading := by
    rcases hrest with hs | hs <;> simp [hs]
  have hev : Replacer.isEvictable s.pool.replacer g.frame = false :=
    Bool.eq_false_iff.mpr fun he => hpos ((h.at_ g.frame).candidate.mp he).2
  obtain ⟨x,hx,-,⟨hone,hv,he⟩ | he⟩ := releaseGuard_cases (d := g.dirty) hpage hpos
  · simp only [pool_dropGuard, he] at hn
    obtain rfl := Option.some.inj hn
    have hframe : ((s.pool.setFrame g.frame x).setFrame g.frame
        { x with state := .flushing }).frames g.frame = { x with state := .flushing } :=
      setFrame_self _ _ _
    refine h.begin (f := g.frame) (o := .writeThrough g.page g.frame) (fun y hy => ?_)
      (fun y _ => h.calm ho y) ?_ rfl trivial (congrArg _ ho)
    · exact (keeps_setFrame _ hy _).trans (keeps_setFrame _ hy _)
    · refine (h.at_ g.frame).restate hne hl ?_ ?_ rfl rfl (fun q hq => ?_) ?_ <;>
        simp only [pool_addOp, pool_setPool, hframe]
      · exact fun he => by cases he
      · exact hx.2.2
      · have hp := (h.at_ g.frame).pending q hq
        rw [← hx.2.1,hv] at hp
        exact hp.trans (iff_of_false (by simp) (by simp))
      · exact iff_of_false (Bool.eq_false_iff.mp hev) (by simp)
  · simp only [pool_dropGuard, he] at hn
    obtain rfl := Option.some.inj hn
    have hframe : ((s.pool.setFrame g.frame x).unpinFrame g.frame).2.frames g.frame =
        { x with pinCount := x.pinCount - 1 } := by
      rw [unpinFrame_frame,setFrame_self]
    have htab := unpinFrame_table (s.pool.setFrame g.frame x) g.frame
    refine h.settle (f := g.frame) (fun y hy => ?_) (fun y _ => h.calm ho y) ?_ ?_ ho
    · exact (keeps_setFrame _ hy _).trans (keeps_unpinFrame _ hy)
    · refine (h.at_ g.frame).restate hne hl ?_ ?_ htab.1 htab.2 (fun q hq => ?_) ?_ <;>
        simp only [pool_setPool, hframe]
      · rw [hx.2.1]
        exact hne
      · exact hx.2.2
      · rw [unpinFrame_pending,hx.2.1]
        exact (h.at_ g.frame).pending q hq
      · rw [unpinFrame_candidate,setFrame_self,show Replacer.isEvictable
          (s.pool.setFrame g.frame x).replacer g.frame = false from hev,hx.2.1,Bool.false_or,
          decide_eq_true_iff]
        rcases hrest with hs | hs <;> simp [hs]
    · simp only [pool_setPool, hframe, hx.2.1]
      exact h.calm ho g.frame

/-- A flush takes the frame out of the candidates before it marks it. -/
theorem flushPin_placed {b : BufferPool β ρ} {f : FrameId}
    (hc : Replacer.isEvictable b.replacer f = true → (b.frames f).pinCount = 0) :
    b.flushPin f = (.done (.ok ()),b) ∨ ∃ b₁, (∀ g, g ≠ f → Keeps b b₁ g) ∧
      b₁.pageTable = b.pageTable ∧ b₁.freeFrames = b.freeFrames ∧
      b₁.deletePending = b.deletePending ∧ Replacer.isEvictable b₁.replacer f = false ∧
      b.flushPin f = (.waiting f,b₁.setFrame f { b.frames f with
        state := .flushing, pinCount := (b.frames f).pinCount + 1 }) := by
  unfold BufferPool.flushPin
  by_cases hz : (b.frames f).pinCount = 0
  · right
    refine ⟨b.mapReplacer fun r => Replacer.pin r f,fun g hg => keeps_pin b hg,rfl,rfl,rfl,?_,?_⟩
    · simp [BufferPool.mapReplacer]
    · simp [hz]
  · by_cases hd : (b.frames f).isDirty = true
    · right
      refine ⟨b,fun g _ => Keeps.refl b g,rfl,rfl,rfl,?_,by simp [hz, hd]⟩
      exact Bool.eq_false_iff.mpr fun he => hz (hc he)
    · left
      have hpos : 0 < (b.frames f).pinCount := Nat.pos_of_ne_zero hz
      simp [hz, hd, hpos]

theorem flushPage_placed (h : s.Placed n) (hi : s.Inv) (ho : s.ops = []) {p : PageId}
    (hn : s.next (.flushPage p) = some s') : s'.Placed n := by
  obtain rfl := Option.some.inj hn
  have hstill : ∀ st, (s.flushed p (.done st,s.pool)).Placed n := fun st =>
    h.still (fun g => Keeps.refl _ g) ho ho
  unfold BufferPool.flushPage
  cases ht : s.pool.pageTable p with
  | none => exact hstill _
  | some f =>
    have hne : (s.pool.frames f).state ≠ .empty := fun he => by
      obtain ⟨hp,hpi⟩ := Placed.mapped hi ho ht
      exact hpi (hp.symm.trans ((h.at_ f).blank he).1)
    rcases h.resting ho hne with hs | hs <;> simp only [hs]
    · rcases flushPin_placed fun he => ((h.at_ f).candidate.mp he).2 with
        he | ⟨b,hk,htab,hfree,hd,hev,he⟩ <;> rw [he]
      · exact hstill _
      · have hframe := setFrame_self b f { s.pool.frames f with
          state := .flushing, pinCount := (s.pool.frames f).pinCount + 1 }
        refine h.begin (f := f) (o := .flushing p f) (fun g hg => ?_) (fun g _ => h.calm ho g) ?_
          rfl trivial (congrArg _ ho)
        · exact (hk g hg).trans (keeps_setFrame _ hg _)
        · refine (h.at_ f).restate hne (by simp [hs]) ?_ ?_ htab hfree (fun q hq => ?_) ?_ <;>
            simp only [flushed, pool_addOp, pool_setPool, hframe]
          · exact fun he => by cases he
          · have hp := (h.at_ f).pending q hq
            rw [hs] at hp
            show b.deletePending q = true ↔ _
            rw [hd]
            exact hp.trans (iff_of_false (by simp) (by simp))
          · exact iff_of_false (Bool.eq_false_iff.mp hev) (by simp)
    · exact hstill _

/-- The frame an operation holds is neither free nor a candidate. -/
theorem Placed.frame_held (h : s.Placed n) (hi : s.Inv) {f : FrameId}
    (hp : (s.pool.frames f).pinCount = 1) : f < n ∧ f ∉ s.pool.freeFrames ∧
      Replacer.isEvictable s.pool.replacer f = false := by
  obtain ⟨hf,he⟩ := hi.not_free (f := f) hp
  refine ⟨(h.at_ f).held fun hs => ?_,hf,Bool.eq_false_iff.mpr he⟩
  have hz := ((h.at_ f).blank hs).2
  omega

theorem flushDone_placed (h : s.Placed n) (hi : s.Inv) {f : FrameId} {outcome : Status}
    (hn : s.next (.flushDone f outcome) = some s') : s'.Placed n := by
  simp only [next] at hn
  split at hn
  swap
  · simp at hn
  next hc =>
  obtain rfl := Option.some.inj hn
  obtain ⟨hst,hpin⟩ := hi.fits (f := f) hc rfl
  obtain ⟨hops,-,hcalm⟩ := h.sole hc
  have hst' : (s.pool.frames f).state = .flushing := hst
  have hpin' : (s.pool.frames f).pinCount = 1 := hpin
  obtain ⟨-,-,hev⟩ := h.frame_held hi hpin'
  obtain ⟨x,hx,he⟩ : ∃ x : Frame β, SameFrame (s.pool.frames f) x ∧
      s.pool.finishFlush f outcome =
        ((s.pool.setFrame f { x with state := .valid }).unpinFrame f).2 := by
    cases outcome with
    | ok u => exact ⟨{ s.pool.frames f with isDirty := false, pageLsn := invalidLsn },
        ⟨rfl,rfl,rfl⟩,rfl⟩
    | error e => exact ⟨s.pool.frames f,⟨rfl,rfl,rfl⟩,rfl⟩
  have hframe : ((s.pool.setFrame f { x with state := .valid }).unpinFrame f).2.frames f =
      { x with state := .valid, pinCount := x.pinCount - 1 } := by
    rw [unpinFrame_frame,setFrame_self]
  have htab := unpinFrame_table (s.pool.setFrame f { x with state := .valid }) f
  refine h.settle (f := f) (fun y hy => ?_) (fun y hy => hcalm y ?_) ?_ ?_ ?_
  · rw [pool_setPool,he]
    exact (keeps_setFrame _ hy _).trans (keeps_unpinFrame _ hy)
  · exact fun hx => hy (Option.some.inj hx).symm
  · refine (h.at_ f).restate (by simp [hst']) (by simp [hst']) ?_ ?_ ?_ ?_ (fun q hq => ?_) ?_ <;>
      simp only [pool_setPool, he, hframe]
    · exact fun hx => by cases hx
    · exact hx.2.2
    · exact htab.1
    · exact htab.2
    · have hp := (h.at_ f).pending q hq
      rw [hst'] at hp
      rw [unpinFrame_pending]
      exact hp.trans (iff_of_false (by simp) (by simp))
    · rw [unpinFrame_candidate,setFrame_self,show Replacer.isEvictable
        (s.pool.setFrame f { x with state := .valid }).replacer f = false from hev]
      simp [hx.1, hpin']
  · simp only [pool_setPool, he, hframe]
    exact id
  · show s.ops.erase _ = []
    rw [hops]
    simp

/-! ### Reading and writing -/

theorem loadIo_pending (b : BufferPool β ρ) (sel : FrameSelection) (write : Status)
    (loaded : Result β) : (b.loadIo sel write loaded).2.deletePending = b.deletePending := by
  unfold BufferPool.loadIo BufferPool.evictIo
  cases sel.fromFreeList <;> cases hd : (b.frames sel.frameId).isDirty <;> cases write <;>
    cases loaded <;> simp [BufferPool.setFrame, hd]

theorem newIo_pending (b : BufferPool β ρ) (sel : FrameSelection) (write : Status)
    (allocated : Result PageId) :
    (b.newIo sel write allocated).2.deletePending = b.deletePending := by
  unfold BufferPool.newIo BufferPool.evictIo
  cases sel.fromFreeList <;> cases hd : (b.frames sel.frameId).isDirty <;> cases write <;>
    cases allocated <;> simp [BufferPool.setFrame, hd]

theorem finalizeIo_pending (b : BufferPool β ρ) (f : FrameId) (write deallocate : Status) :
    (b.finalizeIo f write deallocate).2.deletePending = b.deletePending := by
  simp only [BufferPool.finalizeIo]
  split <;> rfl

theorem Placed.turns (h : s.Placed n) {o q : Op β} {f : FrameId} {b : BufferPool β ρ}
    (ht : Turns s s' o q b) (hof : q.frame? = o.frame?) (hpool : Overwrites s.pool b f)
    (hd : b.deletePending = s.pool.deletePending) (hplaced : o.Placed b → q.Placed b) :
    s'.Placed n := by
  obtain ⟨hmem,rfl,-,hops⟩ := ht
  exact h.advance hmem hof hops hpool hd hplaced

theorem loadIo_placed (h : s.Placed n) {p : PageId} {sel : FrameSelection} {oldPage : PageId}
    {k : Access} {wal write : Status} {loaded : Result β}
    (hn : s.next (.loadIo p sel oldPage k wal write loaded) = some s') : s'.Placed n := by
  obtain ⟨status,ht⟩ := next_loadIo hn
  exact h.turns ht rfl (loadIo_overwrites ..) (loadIo_pending ..) id

theorem newIo_placed (h : s.Placed n) {sel : FrameSelection} {oldPage : PageId} {k : Access}
    {wal write : Status} {allocated : Result PageId}
    (hn : s.next (.newIo sel oldPage k wal write allocated) = some s') : s'.Placed n := by
  obtain ⟨-,status,ht⟩ := next_newIo hn
  exact h.turns ht rfl (newIo_overwrites ..) (newIo_pending ..) id

theorem flushIo_placed (h : s.Placed n) (hi : s.Inv) {p : PageId} {f : FrameId}
    {wal write : Status} (hn : s.next (.flushIo p f wal write) = some s') : s'.Placed n := by
  rcases next_flushIo hn with ⟨hmem,hstate,-⟩ | ⟨-,status,ht⟩
  · exact absurd (hi.fits hmem rfl) hstate
  · exact h.turns ht rfl (.refl s.pool f) rfl id

theorem writeThroughIo_placed (h : s.Placed n) {p : PageId} {f : FrameId} {wal write : Status}
    (hn : s.next (.writeThroughIo p f wal write) = some s') : s'.Placed n := by
  obtain ⟨status,ht⟩ := next_writeThroughIo hn
  exact h.turns ht rfl (.refl s.pool f) rfl id

theorem finalizeIo_placed (h : s.Placed n) {p : PageId} {f : FrameId}
    {wal write deallocate : Status}
    (hn : s.next (.finalizeIo p f wal write deallocate) = some s') : s'.Placed n := by
  obtain ⟨status,ht⟩ := next_finalizeIo hn
  exact h.turns ht rfl (finalizeIo_overwrites ..) (finalizeIo_pending ..) id

/-! ### Giving the frame back -/

theorem Placed.finish (h : s.Placed n) {o : Op β} {f : FrameId} (ho : o ∈ s.ops)
    (hof : o.frame? = some f) (hk : ∀ g, g ≠ f → Keeps s.pool s'.pool g)
    (hf : PlacedAt n s'.pool f) (hm : ¬ (s'.pool.frames f).state.moving)
    (hops : s'.ops = s.ops.erase o) : s'.Placed n := by
  obtain ⟨hs,-,hcalm⟩ := h.sole ho
  refine h.settle hk (fun g hg => hcalm g ?_) hf hm ?_
  · rw [hof]
    exact fun he => hg (Option.some.inj he).symm
  · rw [hops,hs]
    simp

/-- A frame from the free list that was not needed after all. -/
theorem PlacedAt.giveBack {b : BufferPool β ρ} {f : FrameId} (hn : f < n)
    (hs : (b.frames f).state = .empty) (hpage : (b.frames f).pageId = invalidPageId)
    (hz : (b.frames f).pinCount = 0) (ht : ∀ q, b.pageTable q ≠ some f)
    (hev : Replacer.isEvictable b.replacer f = false) :
    PlacedAt n { b with freeFrames := b.freeFrames ++ [f] } f :=
  .vacant hs hn (by simp) hpage hz ht hev

/-- A victim whose page stays. -/
theorem PlacedAt.unevict {b : BufferPool β ρ} {f : FrameId} (hn : f < n)
    (hfree : f ∉ b.freeFrames) (hpage : (b.frames f).pageId ≠ invalidPageId)
    (howns : b.pageTable (b.frames f).pageId = some f)
    (hpend : ∀ q, b.pageTable q = some f → b.deletePending q = false) :
    PlacedAt n (b.unevict f) f := by
  have hframe := unevict_frame b f
  refine .occupied ?_ hn hfree ?_ ?_ (fun q hq => ?_) ?_
  · rw [hframe]
    exact fun he => by cases he
  · rw [hframe]
    exact fun _ => hpage
  · rw [hframe]
    exact fun _ => howns
  · rw [hframe]
    have hp : (b.unevict f).deletePending q = false := hpend q hq
    rw [hp]
    exact iff_of_false (by simp) (by simp)
  · rw [hframe]
    refine iff_of_true ?_ ⟨rfl,rfl⟩
    simp [BufferPool.unevict, BufferPool.mapReplacer]

/-- A frame with its new page. -/
theorem PlacedAt.install {b : BufferPool β ρ} {f : FrameId} {p : PageId} (hn : f < n)
    (hfree : f ∉ b.freeFrames) (hp : p ≠ invalidPageId) (ht : b.pageTable p = some f)
    (hpend : ∀ q, b.pageTable q = some f → b.deletePending q = false) :
    PlacedAt n (b.install f p) f := by
  have hframe := install_frame b f p
  refine .occupied ?_ hn hfree ?_ ?_ (fun q hq => ?_) ?_
  · rw [hframe]
    exact fun he => by cases he
  · rw [hframe]
    exact fun _ => hp
  · rw [hframe]
    exact fun _ => ht
  · rw [hframe]
    have hx : (b.install f p).deletePending q = false := hpend q hq
    rw [hx]
    exact iff_of_false (by simp) (by simp)
  · rw [hframe,install_evictable]
    exact iff_of_false (by simp) (by simp)

theorem Placed.not_pending (h : s.Placed n) {f : FrameId}
    (hs : (s.pool.frames f).state ≠ .deletePending) {q : PageId}
    (hq : s.pool.pageTable q = some f) : s.pool.deletePending q = false :=
  Bool.eq_false_iff.mpr fun he => hs (((h.at_ f).pending q hq).mp he)

theorem loadDone_placed (h : s.Placed n) (hi : s.Inv) {p : PageId} {sel : FrameSelection}
    {oldPage : PageId} {k : Access} {outcome : Status}
    (hn : s.next (.loadDone p sel oldPage k outcome) = some s') : s'.Placed n := by
  simp only [next] at hn
  split at hn
  swap
  · simp at hn
  next hc =>
  obtain ⟨-,hpin,hpage⟩ := hi.fits (f := sel.frameId) hc rfl
  have hpage' : (s.pool.frames sel.frameId).pageId = if sel.fromFreeList then p else oldPage :=
    hpage
  obtain ⟨-,⟨hst,ht,hp,hold⟩,-⟩ := h.sole hc
  obtain ⟨hlt,hfree,hev⟩ := h.frame_held hi hpin
  have hpend : ∀ q, s.pool.pageTable q = some sel.frameId → s.pool.deletePending q = false :=
    fun q hq => h.not_pending (by rw [hst]; split <;> simp) hq
  have hone : ∀ q, s.pool.pageTable q = some sel.frameId →
      (s.pool.frames sel.frameId).pageId = q ∨ p = q := fun q hq =>
    (hi.mapped_solo hc rfl hpin hq).2.imp id fun he => Option.some.inj he
  have hk : ∀ g, g ≠ sel.frameId → s.pool.pageTable p ≠ some g := fun g hg he =>
    hg (Option.some.inj (he.symm.trans ht))
  have hotherOld : sel.fromFreeList = false → oldPage ≠ invalidPageId ∧
      s.pool.pageTable oldPage = some sel.frameId := fun hfl => by
    simp only [hfl] at hst hpage'
    have hname := (h.at_ sel.frameId).named (by simp [hst]) (by simp [hst])
    have howns := (h.at_ sel.frameId).owns hname
    rw [show (s.pool.frames sel.frameId).pageId = oldPage from hpage'] at hname howns
    exact ⟨hname,howns⟩
  cases outcome with
  | error e =>
    simp only [BufferPool.finishLoad, pool_dropOp] at hn
    obtain rfl := Option.some.inj hn
    cases hfl : sel.fromFreeList <;> simp only [hfl] at hst hpage'
    · obtain ⟨hoi,hown⟩ := hotherOld hfl
      refine h.finish (f := sel.frameId) hc rfl (fun g hg => ?_) ?_ ?_ rfl
      · exact ((keeps_unmap (hk g hg)).trans (keeps_unevict _ hg)).trans
          (keeps_setFailure _ g _ _)
      · refine PlacedAt.keep ?_ (keeps_setFailure _ _ _ _)
        have hpage'' : ((s.pool.unmap p).frames sel.frameId).pageId = oldPage := hpage'
        refine PlacedAt.unevict hlt hfree ?_ ?_ fun q hq => hpend q (unmap_mapped hq).2
        · rw [hpage'']
          exact hoi
        · rw [hpage'',BufferPool.unmap]
          simpa [Function.update_of_ne (hold hfl).symm] using hown
      · show ¬ ((BufferPool.unevict _ _).frames _).state.moving
        rw [unevict_frame]
        exact id
    · simp only [if_true]
      rw [returnFreeFrame_eq (by simp [BufferPool.setFrame]) (by simp [BufferPool.setFrame])
        (by simpa [BufferPool.setFrame, BufferPool.unmap] using hfree)]
      refine h.finish (f := sel.frameId) hc rfl (fun g hg => ?_) ?_ ?_ rfl
      · exact (((keeps_unmap (hk g hg)).trans (keeps_setFrame _ hg _)).trans
          (keeps_returnFree _ hg)).trans (keeps_setFailure _ g _ _)
      · refine PlacedAt.keep ?_ (keeps_setFailure _ _ _ _)
        refine PlacedAt.giveBack hlt ?_ ?_ ?_ (fun q hq => ?_) hev
        · simp [BufferPool.setFrame]
        · simp [BufferPool.setFrame]
        · simp [BufferPool.setFrame]
        · obtain ⟨hqp,hq'⟩ := unmap_mapped (b := s.pool) hq
          rcases hone q hq' with hx | hx
          · exact hqp (hx.symm.trans hpage')
          · exact hqp hx.symm
      · simp [BufferPool.setFrame, BufferPool.setFailure, FrameState.moving]
  | ok u =>
    simp only [BufferPool.finishLoad, pool_dropOp] at hn
    obtain rfl := Option.some.inj hn
    refine h.finish (f := sel.frameId) hc rfl (fun g hg => ?_) ?_ ?_ rfl
    · refine Keeps.trans ?_ (keeps_install _ hg _)
      cases hfl : sel.fromFreeList
      · refine keeps_unmap fun he => hg ?_
        exact Option.some.inj (he.symm.trans (hotherOld hfl).2)
      · exact Keeps.refl _ g
    · refine PlacedAt.install hlt ?_ hp ?_ fun q hq => ?_
      · cases sel.fromFreeList <;> exact hfree
      · cases hfl : sel.fromFreeList
        · simpa [BufferPool.unmap, Function.update_of_ne (hold hfl)] using ht
        · exact ht
      · revert hq
        cases hfl : sel.fromFreeList
        · exact fun hq => hpend q (unmap_mapped hq).2
        · exact fun hq => hpend q hq
    · show ¬ ((BufferPool.install _ _ _).frames _).state.moving
      rw [install_frame]
      exact id

theorem newDone_placed (h : s.Placed n) (hi : s.Inv) {sel : FrameSelection} {oldPage : PageId}
    {k : Access} {outcome : Result PageId} (hfresh : s.Fresh (.newDone sel oldPage k outcome))
    (hn : s.next (.newDone sel oldPage k outcome) = some s') : s'.Placed n := by
  simp only [next] at hn
  split at hn
  swap
  · simp at hn
  next hc =>
  obtain ⟨-,hpin,hpage,hout⟩ := hi.fits (f := sel.frameId) hc rfl
  have hpage' : (s.pool.frames sel.frameId).pageId =
      if sel.fromFreeList then invalidPageId else oldPage := hpage
  obtain ⟨-,hst,-⟩ := h.sole hc
  replace hst : (s.pool.frames sel.frameId).state =
    if sel.fromFreeList then .loading else .evicting := hst
  obtain ⟨hlt,hfree,hev⟩ := h.frame_held hi hpin
  have hpend : ∀ q, s.pool.pageTable q = some sel.frameId → s.pool.deletePending q = false :=
    fun q hq => h.not_pending (by rw [hst]; split <;> simp) hq
  have hone : ∀ q, s.pool.pageTable q = some sel.frameId →
      q ≠ invalidPageId ∧ (s.pool.frames sel.frameId).pageId = q := fun q hq => by
    obtain ⟨hqi,hor⟩ := hi.mapped_solo hc rfl hpin hq
    exact ⟨hqi,hor.resolve_right (by simp [Op.loads])⟩
  have hotherOld : sel.fromFreeList = false → oldPage ≠ invalidPageId ∧
      s.pool.pageTable oldPage = some sel.frameId := fun hfl => by
    simp only [hfl] at hst hpage'
    have hname := (h.at_ sel.frameId).named (by simp [hst]) (by simp [hst])
    have howns := (h.at_ sel.frameId).owns hname
    rw [show (s.pool.frames sel.frameId).pageId = oldPage from hpage'] at hname howns
    exact ⟨hname,howns⟩
  cases outcome with
  | error e =>
    simp only [BufferPool.finishNew, pool_dropOp] at hn
    obtain rfl := Option.some.inj hn
    cases hfl : sel.fromFreeList <;> simp only [hfl] at hst hpage'
    · obtain ⟨hoi,hown⟩ := hotherOld hfl
      refine h.finish (f := sel.frameId) hc rfl (fun g hg => keeps_unevict _ hg) ?_ ?_ rfl
      · refine PlacedAt.unevict hlt hfree ?_ ?_ hpend
        · rw [show (s.pool.frames sel.frameId).pageId = oldPage from hpage']
          exact hoi
        · rw [show (s.pool.frames sel.frameId).pageId = oldPage from hpage']
          exact hown
      · show ¬ ((BufferPool.unevict _ _).frames _).state.moving
        rw [unevict_frame]
        exact id
    · simp only [if_true]
      rw [returnFreeFrame_eq (by simp [BufferPool.setFrame]) (by simp [BufferPool.setFrame])
        (by simpa [BufferPool.setFrame] using hfree)]
      refine h.finish (f := sel.frameId) hc rfl (fun g hg => ?_) ?_ ?_ rfl
      · exact (keeps_setFrame _ hg _).trans (keeps_returnFree _ hg)
      · refine PlacedAt.giveBack hlt ?_ ?_ ?_ (fun q hq => ?_) hev
        · simp [BufferPool.setFrame]
        · simp [BufferPool.setFrame]
        · simp [BufferPool.setFrame]
        · obtain ⟨hqi,hx⟩ := hone q hq
          exact hqi (hx.symm.trans hpage')
      · simp [BufferPool.setFrame, FrameState.moving]
  | ok p =>
    obtain ⟨hnew,hres⟩ := hfresh
    have hpi : p ≠ invalidPageId := fun he => hout (by rw [he])
    simp only [BufferPool.finishNew, pool_dropOp] at hn
    obtain rfl := Option.some.inj hn
    refine h.finish (f := sel.frameId) hc rfl (fun g hg => ?_) ?_ ?_ rfl
    · refine Keeps.trans (Keeps.trans ?_ (keeps_map hg ?_)) (keeps_install _ hg _)
      · cases hfl : sel.fromFreeList
        · refine (keeps_setFrame _ hg _).trans (keeps_unmap fun he => hg ?_)
          exact Option.some.inj (Eq.trans he.symm (hotherOld hfl).2)
        · exact keeps_setFrame _ hg _
      · cases hfl : sel.fromFreeList
        · exact fun he => hg (hnew g (unmap_mapped (b := s.pool) he).2)
        · exact fun he => hg (hnew g he)
    · refine PlacedAt.install hlt ?_ hpi ?_ fun q hq => ?_
      · cases sel.fromFreeList <;> exact hfree
      · simp [BufferPool.map]
      · by_cases hqp : q = p
        · subst hqp
          cases sel.fromFreeList <;> exact hres
        · revert hq
          cases hfl : sel.fromFreeList
          · intro hq
            refine hpend q (unmap_mapped (b := s.pool) (p := oldPage) ?_).2
            simpa [BufferPool.map, BufferPool.unmap, BufferPool.setFrame, hqp] using hq
          · intro hq
            refine hpend q ?_
            simpa [BufferPool.map, BufferPool.setFrame, hqp] using hq
    · show ¬ ((BufferPool.install _ _ _).frames _).state.moving
      rw [install_frame]
      exact id

/-! ### Deleting a page -/

theorem beginDeletion_placed (h : s.Placed n) (hi : s.Inv) (ho : s.ops = []) {p : PageId}
    {expectedPins : ℕ} (hn : s.next (.beginDeletion p expectedPins) = some s') :
    s'.Placed n := by
  obtain rfl := Option.some.inj hn
  have hstill : (s.setPool s.pool).Placed n := h.still (fun g => Keeps.refl _ g) ho ho
  unfold BufferPool.beginPageDeletion BufferPool.validateDataPageId
  by_cases hp : p = invalidPageId ∨ p = 0
  · rw [if_pos hp]
    exact hstill
  rw [if_neg hp]
  cases hd : s.pool.deletePending p with
  | true => exact hstill
  | false =>
    simp only [Bool.false_eq_true, if_false]
    cases ht : s.pool.pageTable p with
    | none => exact h.still (fun g => keeps_pending (by simp [ht]) true) ho ho
    | some f =>
      simp only
      split
      · exact hstill
      next hc =>
      have hv : (s.pool.frames f).state = .valid := by
        by_contra hx
        exact hc (.inl hx)
      refine h.settle (f := f) (fun g hg => ?_) (fun g _ => h.calm ho g) ?_ ?_ ho
      · refine Keeps.trans ?_ (keeps_setFrame _ hg _)
        refine (keeps_pending (fun he => hg ?_) true).trans (keeps_pin _ hg)
        exact Option.some.inj (he.symm.trans ht)
      · refine (h.at_ f).restate (by simp [hv]) (by simp [hv]) ?_ ?_ rfl rfl (fun q hq => ?_) ?_
        · simp [BufferPool.setFrame]
        · simp [BufferPool.setFrame, BufferPool.mapReplacer, BufferPool.setPending]
        · have hqp : q = p :=
            (Placed.mapped hi ho hq).1.symm.trans (Placed.mapped hi ho ht).1
          subst hqp
          simp [BufferPool.setFrame, BufferPool.mapReplacer, BufferPool.setPending]
        · simp [BufferPool.setFrame, BufferPool.mapReplacer]
      · simp [BufferPool.setFrame, FrameState.moving]

theorem cancelDeletion_placed (h : s.Placed n) (hi : s.Inv) (ho : s.ops = []) {p : PageId}
    (hn : s.next (.cancelDeletion p) = some s') : s'.Placed n := by
  obtain rfl := Option.some.inj hn
  have hstill : (s.setPool s.pool).Placed n := h.still (fun g => Keeps.refl _ g) ho ho
  unfold BufferPool.cancelPageDeletion
  cases hd : s.pool.deletePending p with
  | false => exact hstill
  | true =>
    simp only [Bool.not_true, Bool.false_eq_true, if_false]
    cases ht : s.pool.pageTable p with
    | none => exact h.still (fun g => keeps_pending (by simp [ht]) false) ho ho
    | some f =>
      simp only
      split
      · exact hstill
      next hc =>
      obtain ⟨hs,hz⟩ : (s.pool.frames f).state = .deletePending ∧
          (s.pool.frames f).pinCount = 0 := by
        simpa only [not_or, not_not, ne_eq] using hc
      refine h.settle (f := f) (fun g hg => ?_) (fun g _ => h.calm ho g) ?_ ?_ ho
      · refine Keeps.trans ?_ (keeps_setFrame _ hg _)
        refine (keeps_pending (fun he => hg ?_) false).trans (keeps_unpin _ hg)
        exact Option.some.inj (he.symm.trans ht)
      · refine (h.at_ f).restate (by simp [hs]) (by simp [hs]) ?_ ?_ rfl rfl (fun q hq => ?_) ?_
        · simp [BufferPool.setFrame]
        · simp [BufferPool.setFrame, BufferPool.mapReplacer, BufferPool.setPending]
        · have hqp : q = p :=
            (Placed.mapped hi ho hq).1.symm.trans (Placed.mapped hi ho ht).1
          subst hqp
          simp [BufferPool.setFrame, BufferPool.mapReplacer, BufferPool.setPending]
        · simpa [BufferPool.setFrame, BufferPool.mapReplacer, BufferPool.setPending] using hz
      · simp [BufferPool.setFrame, FrameState.moving]

theorem finalize_placed (h : s.Placed n) (ho : s.ops = []) {p : PageId}
    (hn : s.next (.finalize p) = some s') : s'.Placed n := by
  simp only [next, BufferPool.finalizePageDeletion] at hn
  cases hd : s.pool.deletePending p with
  | false =>
    simp only [hd, Bool.not_false, if_true] at hn
    obtain rfl := Option.some.inj hn
    exact h.still (fun g => Keeps.refl _ g) ho ho
  | true =>
    simp only [hd, Bool.not_true, Bool.false_eq_true, if_false] at hn
    cases ht : s.pool.pageTable p with
    | none =>
      simp only [ht] at hn
      obtain rfl := Option.some.inj hn
      refine ⟨h.at_,?_⟩
      show Turn s.pool (Op.finalizingUncached p::s.ops)
      rw [ho]
      exact ⟨ht,fun f _ => h.calm ho f⟩
    | some f =>
      simp only [ht] at hn
      by_cases hc : (s.pool.frames f).state ≠ .deletePending ∨ (s.pool.frames f).pinCount ≠ 0
      · rw [if_pos hc] at hn
        obtain rfl := Option.some.inj hn
        exact h.still (fun g => Keeps.refl _ g) ho ho
      · rw [if_neg hc] at hn
        obtain rfl := Option.some.inj hn
        obtain ⟨hs,hz⟩ : (s.pool.frames f).state = .deletePending ∧
            (s.pool.frames f).pinCount = 0 := by
          simpa only [not_or, not_not, ne_eq] using hc
        refine h.begin (f := f) (o := .finalizing p f) (fun g hg => keeps_setFrame _ hg _)
          (fun g _ => h.calm ho g) ?_ rfl trivial (congrArg _ ho)
        refine (h.at_ f).restate (by simp [hs]) (by simp [hs]) ?_ ?_ rfl rfl (fun q hq => ?_) ?_
        · simp [BufferPool.setFrame, hs]
        · simp [BufferPool.setFrame]
        · simpa [BufferPool.setFrame] using (h.at_ f).pending q hq
        · have hev := (h.at_ f).candidate
          rw [hs] at hev
          simpa [BufferPool.setFrame] using hev

theorem finalizeDone_placed (h : s.Placed n) (hi : s.Inv) {p : PageId} {f : FrameId}
    {outcome : Status} (hn : s.next (.finalizeDone p f outcome) = some s') : s'.Placed n := by
  simp only [next] at hn
  split at hn
  swap
  · simp at hn
  next hc =>
  obtain rfl := Option.some.inj hn
  obtain ⟨hst,hpin,hpage⟩ := hi.fits (f := f) hc rfl
  have hst' : (s.pool.frames f).state = .deletePending := hst
  have hpage' : (s.pool.frames f).pageId = p := hpage
  obtain ⟨hlt,hfree,hev⟩ := h.frame_held hi hpin
  have hname := (h.at_ f).named (by simp [hst']) (by simp [hst'])
  have ht : s.pool.pageTable p = some f := hpage' ▸ (h.at_ f).owns hname
  have hk : ∀ g, g ≠ f → s.pool.pageTable p ≠ some g := fun g hg he =>
    hg (Option.some.inj (he.symm.trans ht))
  cases outcome with
  | error e =>
    refine h.finish (f := f) hc rfl (fun g hg => keeps_setFrame _ hg _) ?_ ?_ rfl
    · refine (h.at_ f).restate (by simp [hst']) (by simp [hst']) ?_ ?_ rfl rfl (fun q hq => ?_) ?_
      · simp [BufferPool.finishFinalize, BufferPool.setFrame]
      · simp [BufferPool.finishFinalize, BufferPool.setFrame]
      · have hp := (h.at_ f).pending q hq
        rw [hst'] at hp
        simpa [BufferPool.finishFinalize, BufferPool.setFrame] using hp
      · simpa [BufferPool.finishFinalize, BufferPool.setFrame] using hev
    · simp [BufferPool.finishFinalize, BufferPool.setFrame, FrameState.moving]
  | ok u =>
    simp only [BufferPool.finishFinalize]
    rw [returnFreeFrame_eq
      (by simp [BufferPool.setFrame, BufferPool.mapReplacer, BufferPool.setPending])
      (by simp [BufferPool.setFrame, BufferPool.mapReplacer, BufferPool.setPending])
      (by simpa [BufferPool.setFrame, BufferPool.mapReplacer, BufferPool.setPending,
        BufferPool.unmap] using hfree)]
    refine h.finish (f := f) hc rfl (fun g hg => ?_) ?_ ?_ rfl
    · refine Keeps.trans (Keeps.trans (Keeps.trans ((keeps_unmap (hk g hg)).trans
        (keeps_setFrame _ hg _)) (keeps_pending ?_ false)) (keeps_remove _ hg))
        (keeps_returnFree _ hg)
      simp [BufferPool.setFrame, BufferPool.unmap]
    · refine PlacedAt.giveBack hlt ?_ ?_ ?_ (fun q hq => ?_) ?_
      · simp [BufferPool.setFrame, BufferPool.mapReplacer, BufferPool.setPending]
      · simp [BufferPool.setFrame, BufferPool.mapReplacer, BufferPool.setPending]
      · simp [BufferPool.setFrame, BufferPool.mapReplacer, BufferPool.setPending]
      · obtain ⟨hqp,hq'⟩ := unmap_mapped (b := s.pool) hq
        have hor := (hi.mapped_solo hc rfl hpin hq').2
        rcases hor with hx | hx
        · exact hqp (hx.symm.trans hpage')
        · simp [Op.loads] at hx
      · simp [BufferPool.mapReplacer]
    · simp [BufferPool.setFrame, BufferPool.mapReplacer, BufferPool.setPending,
        FrameState.moving]

theorem finalizeUncached_placed (h : s.Placed n) {p : PageId} {deallocate : Status}
    (hn : s.next (.finalizeUncached p deallocate) = some s') : s'.Placed n := by
  simp only [next] at hn
  split at hn
  swap
  · simp at hn
  next hc =>
  obtain rfl := Option.some.inj hn
  obtain ⟨hops,ht,hcalm⟩ := h.sole hc
  have ht' : s.pool.pageTable p = none := ht
  have hk : ∀ g, Keeps s.pool (s.pool.finishUncached p deallocate).2 g := fun g => by
    unfold BufferPool.finishUncached
    cases BufferPool.deallocated deallocate with
    | ok u => exact keeps_pending (by simp [ht']) false
    | error e => exact Keeps.refl _ g
  refine ⟨fun g => (h.at_ g).keep (hk g),?_⟩
  show Turn (s.pool.finishUncached p deallocate).2 (s.ops.erase _)
  rw [hops]
  simp only [List.erase_cons_head]
  exact fun g => (hk g).calm (hcalm g (by simp [Op.frame?]))

end Steps

/-! ### Every step -/

section Runs

variable {n : ℕ} {s s' : Threads β ρ}

theorem next_placed (h : s.Placed n) (hi : s.Inv) {a : Action β} (hstep : s.FreshStep a s') :
    s'.Placed n := by
  obtain ⟨hfresh,hstart,hr,hn⟩ := hstep
  have hnone : ∀ g : FrameId, Overwrites s.pool s.pool g := Overwrites.refl s.pool
  cases a with
  | fetch p k => exact fetch_placed h hi (hstart rfl) hn
  | wakeFetch p k =>
    by_cases hmem : Op.fetchWait p k ∈ s.ops
    · exact (h.sole hmem).2.1.elim
    · simp [next, hmem] at hn
  | loadIo p sel oldPage k wal write loaded => exact loadIo_placed h hn
  | loadDone p sel oldPage k outcome => exact loadDone_placed h hi hn
  | newPage k => exact newPage_placed h hi (hstart rfl) hn
  | newIo sel oldPage k wal write allocated => exact newIo_placed h hn
  | newDone sel oldPage k outcome => exact newDone_placed h hi hfresh hn
  | release g => exact release_placed h hi (hstart rfl) hn
  | flushPage p => exact flushPage_placed h hi (hstart rfl) hn
  | wakeFlush p f =>
    by_cases hmem : Op.flushBlocked p f ∈ s.ops
    · exact (h.sole hmem).2.1.elim
    · simp [next, hmem] at hn
  | flushIo p f wal write => exact flushIo_placed h hi hn
  | writeThroughIo p f wal write => exact writeThroughIo_placed h hn
  | flushDone f outcome => exact flushDone_placed h hi hn
  | beginDeletion p expectedPins => exact beginDeletion_placed h hi (hstart rfl) hn
  | cancelDeletion p => exact cancelDeletion_placed h hi (hstart rfl) hn
  | finalize p => exact finalize_placed h (hstart rfl) hn
  | finalizeIo p f wal write deallocate => exact finalizeIo_placed h hn
  | finalizeDone p f outcome => exact finalizeDone_placed h hi hn
  | finalizeUncached p deallocate => exact finalizeUncached_placed h hn
  | restorePage p image => cases hr
  | restoreIo f image write => cases hr
  | restoreDone f outcome => cases hr
  | write g page =>
    simp only [next] at hn
    split at hn
    · obtain rfl := Option.some.inj hn
      exact h.overwrite (setPage_overwrites s g.frame page) rfl rfl
    · simp at hn
  | append g works =>
    simp only [next] at hn
    split at hn
    · split at hn
      · obtain rfl := Option.some.inj hn
        exact h.overwrite (hnone g.frame) rfl rfl
      · obtain rfl := Option.some.inj hn
        exact h.overwrite (setPage_overwrites s g.frame _) rfl rfl
    · simp at hn
  | record g lsn =>
    simp only [next] at hn
    split at hn
    · split at hn
      · obtain rfl := Option.some.inj hn
        exact h.overwrite (overwrites_setFrame (hnone g.frame) ⟨rfl,rfl,rfl⟩) rfl rfl
      · obtain rfl := Option.some.inj hn
        exact h.overwrite (hnone g.frame) rfl rfl
    · simp at hn
  | latch g | markDirty g | unlatch g =>
    simp only [next] at hn
    split at hn
    · obtain rfl := Option.some.inj hn
      exact h.overwrite (hnone g.frame) rfl rfl
    · simp at hn

end Runs

end Threads
end Buffer
end OurSql
