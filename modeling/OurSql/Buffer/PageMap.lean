import OurSql.Buffer.PageStore

/-! The operations of the pool against the flat map of pages, and whole runs of them. -/
namespace OurSql
namespace Buffer

set_option linter.unusedSectionVars false

open BufferPool (Fetch Flush Release Finalize Restore)

variable {β ρ : Type} [Zero β] [DecidableEq β] [Replacer ρ]

/-- An operation that has put nothing into its frame and has written nothing back. -/
def Op.Blank (o : Op β) : Prop := (∀ f, o.fills f = none) ∧ o.saved = none

namespace Threads

theorem SameBytes.refl (x : Frame β) : SameBytes x x := ⟨rfl,rfl,rfl⟩

theorem sameBytes_setFrame {b b' : BufferPool β ρ}
    (h : ∀ f, SameBytes (b.frames f) (b'.frames f)) {f : FrameId} {x : Frame β}
    (hx : SameBytes (b.frames f) x) (g : FrameId) :
    SameBytes (b.frames g) ((b'.setFrame f x).frames g) := by
  by_cases hg : g = f
  · subst hg
    rwa [setFrame_self]
  · rw [show (b'.setFrame f x).frames g = b'.frames g from Function.update_of_ne hg _ _]
    exact h g

theorem sameBytes_of_frames {b b' : BufferPool β ρ} (h : b'.frames = b.frames) (f : FrameId) :
    SameBytes (b.frames f) (b'.frames f) := by
  rw [h]
  exact .refl _

theorem SameBytes.trans {x y z : Frame β} (h : SameBytes x y) (h' : SameBytes y z) :
    SameBytes x z := ⟨h'.1.trans h.1,h'.2.1.trans h.2.1,h'.2.2.trans h.2.2⟩

/-- `SelectFrameUnlocked` moves states and pins; a frame of the free list has no page. -/
theorem selectFrame_bytes {b b₁ : BufferPool β ρ} {sel : FrameSelection}
    (h : b.selectFrame = (.ok sel,b₁)) : (∀ f, SameBytes (b.frames f) (b₁.frames f)) ∧
      (sel.fromFreeList = true → (b.frames sel.frameId).pageId = invalidPageId) := by
  rcases selectFrame_cases b with ⟨_,_,he,-⟩ | ⟨f,rest,-,hpage,he⟩ | ⟨f,r,-,-,-,-,-,he⟩ <;>
    rw [h] at he
  · simp at he
  · simp only [Prod.mk.injEq,Except.ok.injEq] at he
    obtain ⟨rfl,rfl⟩ := he
    exact ⟨sameBytes_setFrame (sameBytes_of_frames rfl) ⟨rfl,rfl,rfl⟩,fun _ => hpage⟩
  · simp only [Prod.mk.injEq,Except.ok.injEq] at he
    obtain ⟨rfl,rfl⟩ := he
    exact ⟨sameBytes_setFrame (sameBytes_of_frames rfl) ⟨rfl,rfl,rfl⟩,fun hx => by simp at hx⟩

section Starting

variable {s s' : Threads β ρ}

/-- A new guard waits, and has marked nothing. -/
def Admits (s s' : Threads β ρ) : Prop :=
  s'.guards = s.guards ∨ ∃ g : Guard β, g.hold = .waiting ∧ g.dirty = false ∧
    s'.guards = g::s.guards

theorem Admits.keep (h : Admits s s') {g : Guard β} (hg : g ∈ s.guards) : g ∈ s'.guards := by
  rcases h with he | ⟨k,-,-,he⟩ <;> rw [he]
  · exact hg
  · exact List.mem_cons_of_mem k hg

theorem Admits.back (h : Admits s s') {g : Guard β} (hg : g ∈ s'.guards) :
    g ∈ s.guards ∨ g.hold = .waiting ∧ g.dirty = false := by
  rcases h with he | ⟨k,hw,hd,he⟩ <;> rw [he] at hg
  · exact .inl hg
  · rcases List.mem_cons.mp hg with rfl | hg
    · exact .inr ⟨hw,hd⟩
    · exact .inl hg

/-- The first section of an operation. -/
theorem Unmoved.start (ho : s.ops = []) (hops : s'.ops = [] ∨ ∃ o, s'.ops = [o] ∧ o.Blank)
    (hframe : ∀ f, SameBytes (s.frame f) (s'.frame f)) (hguards : Admits s s') :
    Unmoved s s' where
  holds f := by
    rcases hops with hops | ⟨o,hops,hblank⟩
    · rw [holds_nil hops,holds_nil ho,(hframe f).name]
    · rw [holds_one hops,holds_nil ho,hblank.1 f,(hframe f).name]
      rfl
  page f _ := (hframe f).1
  clean f _ hc := by
    rw [clean_nil ho]
    rw [Clean,(hframe f).2.2] at hc
    refine hc.resolve_right ?_
    rintro ⟨o,hmem,hs⟩
    rcases hops with hops | ⟨o',hops,hblank⟩ <;> rw [hops] at hmem
    · cases hmem
    · rw [List.mem_singleton.mp hmem,hblank.2] at hs
      cases hs
  keep _ := hguards.keep
  back _ := hguards.back

/-- A frame is taken: a free one held no page, a victim still holds its own. -/
theorem Unmoved.take (ho : s.ops = []) {sel : FrameSelection} {b₁ b : BufferPool β ρ} {o : Op β}
    (hsel : s.pool.selectFrame = (.ok sel,b₁))
    (hothers : ∀ g, g ≠ sel.frameId → b.frames g = b₁.frames g)
    (hvictim : sel.fromFreeList = false → o.fills sel.frameId = none ∧
      SameBytes (b₁.frames sel.frameId) (b.frames sel.frameId))
    (hfree : sel.fromFreeList = true → (b₁.frames sel.frameId).pageId = invalidPageId →
      ((s.setPool b).addOp o).holds sel.frameId = none)
    (hfills : ∀ g, g ≠ sel.frameId → o.fills g = none) (hsaved : o.saved = none) :
    Unmoved s ((s.setPool b).addOp o) := by
  have hops : ((s.setPool b).addOp o).ops = [o] := congrArg _ ho
  obtain ⟨hselect,hblank⟩ := selectFrame_bytes hsel
  -- what becomes of the frame: it held nothing, or it holds what it held
  have hf : s.holds sel.frameId = none ∧ ((s.setPool b).addOp o).holds sel.frameId = none ∨
      o.fills sel.frameId = none ∧ SameBytes (s.frame sel.frameId) (b.frames sel.frameId) := by
    cases hfl : sel.fromFreeList with
    | true =>
      refine .inl ⟨?_,hfree hfl ((hselect sel.frameId).2.1.trans (hblank hfl))⟩
      rw [holds_nil ho]
      exact Frame.name_none (hblank hfl)
    | false => exact .inr ⟨(hvictim hfl).1,(hselect sel.frameId).trans (hvictim hfl).2⟩
  have hsame : ∀ g, g ≠ sel.frameId → SameBytes (s.frame g) (b.frames g) := by
    intro g hg
    rw [hothers g hg]
    exact hselect g
  have hheld : ∀ g, s.holds g ≠ none → o.fills g = none ∧ SameBytes (s.frame g) (b.frames g) := by
    intro g hg
    by_cases hgf : g = sel.frameId
    · subst hgf
      exact hf.resolve_left fun hx => hg hx.1
    · exact ⟨hfills g hgf,hsame g hgf⟩
  refine ⟨fun g => ?_,fun g hg => (hheld g hg).2.1,fun g hg hc => ?_,fun _ => id,fun _ => .inl⟩
  · by_cases hgf : g = sel.frameId
    · subst hgf
      rcases hf with ⟨hx,hx'⟩ | ⟨hfill,hx⟩
      · rw [hx,hx']
      · rw [holds_one hops,holds_nil ho,hfill]
        exact hx.name
    · rw [holds_one hops,holds_nil ho,hfills g hgf]
      exact (hsame g hgf).name
  · rw [clean_nil ho]
    rcases hc with hc | ⟨q,hq,hs⟩
    · exact (hheld g hg).2.2.2.symm.trans hc
    · rw [hops] at hq
      rw [List.mem_singleton.mp hq,hsaved] at hs
      cases hs

end Starting

end Threads

namespace PageStore

/-! ### Beginning an operation -/

section Starting

variable {n : ℕ} {x x' : PageStore β ρ} {p : PageId} {k : Access}

theorem fetch_refines (h : x.Refines) (hstep : x.Step (.fetch p k) x') : x'.Refines := by
  have ho : x.threads.ops = [] := hstep.threads.1 rfl
  have hs' := (Option.some.inj hstep.threads.2.2).symm
  have hquiet : ∀ {b : BufferPool β ρ}, (∀ f, Threads.SameBytes (x.threads.pool.frames f)
      (b.frames f)) → x.threads.Unmoved (x.threads.setPool b) := fun hb =>
    .start ho (.inl ho) hb (.inl rfl)
  have hmoved : x.threads.Unmoved (x.threads.fetched p k (x.threads.pool.fetchPage p)) ∧
      ∀ o ∈ (x.threads.fetched p k (x.threads.pool.fetchPage p)).ops,
        ∀ y : FrameId → Frame β, o.Names y := by
    unfold BufferPool.fetchPage
    cases BufferPool.validateDataPageId p with
    | error e =>
      refine ⟨hquiet fun _ => .refl _,fun o hmem => ?_⟩
      simp [Threads.fetched,Threads.setPool,ho] at hmem
    | ok u =>
      dsimp only
      rcases Threads.lookup_cases x.threads.pool p with ⟨e,b,he,hq⟩ | ⟨b,he,hq⟩ | ⟨f,-,-,he⟩ |
        ⟨sel,b₁,-,hsel,he⟩ <;> rw [he]
      · refine ⟨hquiet (Threads.sameBytes_of_frames hq.frames),fun o hmem => ?_⟩
        simp [Threads.fetched,Threads.setPool,ho] at hmem
      · refine ⟨.start ho (.inr ⟨.fetchWait p k,congrArg _ ho,fun _ => rfl,rfl⟩)
          (Threads.sameBytes_of_frames hq.frames) (.inl rfl),fun o hmem y => ?_⟩
        simp only [Threads.fetched,Threads.addOp,Threads.setPool,ho,List.mem_singleton] at hmem
        rw [hmem]
        trivial
      · refine ⟨.start ho (.inl ho) (Threads.sameBytes_setFrame (fun _ => .refl _) ⟨rfl,rfl,rfl⟩)
          (.inr ⟨_,rfl,rfl,rfl⟩),fun o hmem => ?_⟩
        simp [Threads.fetched,Threads.addGuard,Threads.setPool,ho] at hmem
      · refine ⟨.take ho hsel (fun g hg => ?_) (fun hfl => ?_) (fun hfl _ => ?_) (fun g hg => ?_)
          rfl,fun o hmem y => ?_⟩
        · cases sel.fromFreeList
          · rfl
          · exact Function.update_of_ne hg _ _
        · simp [Op.fills,hfl,BufferPool.map,Threads.SameBytes]
        · rw [Threads.holds_one (congrArg _ ho)]
          simp [Op.fills,hfl]
        · simp [Op.fills,Ne.symm hg]
        · simp only [Threads.fetched,Threads.addOp,Threads.setPool,ho,List.mem_singleton] at hmem
          rw [hmem]
          trivial
  rw [← hs'] at hmoved
  exact h.unmoved hstep rfl rfl hmoved.1 fun o hmem => hmoved.2 o hmem _

theorem newPage_refines (h : x.Refines) (hstep : x.Step (.newPage k) x') : x'.Refines := by
  have ho : x.threads.ops = [] := hstep.threads.1 rfl
  have hn := hstep.threads.2.2
  simp only [Threads.next,BufferPool.newPage] at hn
  rcases hsel : x.threads.pool.selectFrame with ⟨e | sel,b₁⟩ <;> rw [hsel] at hn
  · have hs' := (Option.some.inj hn).symm
    have hframes : b₁.frames = x.threads.pool.frames := by
      rcases Threads.selectFrame_cases x.threads.pool with ⟨e',b',he,hq⟩ | ⟨_,_,-,-,he⟩ |
        ⟨_,_,-,-,-,-,-,he⟩ <;> rw [hsel] at he
      · exact (Prod.mk.inj he).2 ▸ hq.frames
      · simp at he
      · simp at he
    refine h.unmoved hstep rfl rfl ?_ fun o hmem => ?_
    · rw [hs']
      exact .start ho (.inl ho) (Threads.sameBytes_of_frames hframes) (.inl rfl)
    · simp [hs',Threads.setPool,ho] at hmem
  · have hs' := (Option.some.inj hn).symm
    refine h.unmoved hstep rfl rfl ?_ fun o hmem => ?_
    · rw [hs']
      refine .take ho hsel (fun g hg => ?_) (fun hfl => ?_) (fun hfl hpage => ?_) (fun _ _ => rfl)
        rfl
      · cases sel.fromFreeList
        · rfl
        · exact Function.update_of_ne hg _ _
      · simp [hfl,Op.fills,Threads.SameBytes]
      · rw [Threads.holds_one (congrArg _ ho)]
        refine Frame.name_none ?_
        simpa [hfl,Threads.frame,BufferPool.setFrame] using hpage
    · simp only [hs',Threads.addOp,Threads.setPool,ho,List.mem_singleton] at hmem
      rw [hmem]
      trivial

theorem flushPage_refines (h : x.Refines) (hi : x.threads.Inv)
    (hstep : x.Step (.flushPage p) x') : x'.Refines := by
  have ho : x.threads.ops = [] := hstep.threads.1 rfl
  have hs' := (Option.some.inj hstep.threads.2.2).symm
  have hdone : ∀ st, x'.threads = x.threads.flushed p (.done st,x.threads.pool) → x'.Refines := by
    intro st he
    refine h.unmoved hstep rfl rfl ?_ fun o hmem => ?_
    · rw [he]
      exact .start ho (.inl ho) (fun _ => .refl _) (.inl rfl)
    · simp [he,Threads.flushed,Threads.setPool,ho] at hmem
  have hblocked : ∀ f, x'.threads = x.threads.flushed p (.blocked f,x.threads.pool) →
      x'.Refines := by
    intro f he
    refine h.unmoved hstep rfl rfl ?_ fun o hmem => ?_
    · rw [he]
      exact .start ho (.inr ⟨.flushBlocked p f,congrArg _ ho,fun _ => rfl,rfl⟩) (fun _ => .refl _)
        (.inl rfl)
    · simp only [he,Threads.flushed,Threads.addOp,Threads.setPool,ho,List.mem_singleton] at hmem
      rw [hmem]
      trivial
  unfold BufferPool.flushPage at hs'
  cases ht : x.threads.pool.pageTable p with
  | none =>
    rw [ht] at hs'
    exact hdone _ hs'
  | some f =>
    rw [ht] at hs'
    dsimp only at hs'
    cases hv : (x.threads.pool.frames f).state <;> rw [hv] at hs' <;> dsimp only at hs'
    case deletePending => exact hdone _ hs'
    case valid =>
      rcases Threads.flushPin_cases x.threads.pool f with he | ⟨b,-,hframes,-,-,-,-,-,he⟩ <;>
        rw [he] at hs'
      · exact hdone _ hs'
      · have hpage : (x.threads.frame f).pageId = p := (hi.at_ f).pageId_of_mapped ht (.inl hv)
        refine h.unmoved hstep rfl rfl ?_ fun o hmem => ?_
        · rw [hs']
          exact .start ho (.inr ⟨.flushing p f,congrArg _ ho,fun _ => rfl,rfl⟩)
            (Threads.sameBytes_setFrame (Threads.sameBytes_of_frames hframes) ⟨rfl,rfl,rfl⟩)
            (.inl rfl)
        · simp only [hs',Threads.flushed,Threads.addOp,Threads.setPool,ho,
            List.mem_singleton] at hmem
          rw [hmem,hs']
          simpa [Op.Names,Threads.flushed,Threads.addOp,Threads.setPool,Threads.frame,
            BufferPool.setFrame] using hpage
    all_goals exact hblocked f hs'

/-- A section that moves states, pins and reservations only. -/
theorem Refines.reserve (h : x.Refines) {a : Action β} (hstep : x.Step a x')
    (ho : x.threads.ops = []) (hmarks : x.marks a = none) (hwritten : x.written a = x.disk)
    {b : BufferPool β ρ} (hs' : x'.threads = x.threads.setPool b)
    (hframes : ∀ f, Threads.SameBytes (x.threads.pool.frames f) (b.frames f)) : x'.Refines := by
  refine h.unmoved hstep hmarks hwritten ?_ fun o hmem => ?_
  · rw [hs']
    exact .start ho (.inl ho) hframes (.inl rfl)
  · simp [hs',Threads.setPool,ho] at hmem

theorem beginDeletion_refines (h : x.Refines) {expectedPins : ℕ}
    (hstep : x.Step (.beginDeletion p expectedPins) x') : x'.Refines := by
  refine h.reserve hstep (hstep.threads.1 rfl) rfl rfl (Option.some.inj hstep.threads.2.2).symm ?_
  unfold BufferPool.beginPageDeletion
  cases BufferPool.validateDataPageId p with
  | error e => exact fun _ => .refl _
  | ok u =>
    dsimp only
    split
    · exact fun _ => .refl _
    cases x.threads.pool.pageTable p with
    | none => exact fun _ => .refl _
    | some f =>
      dsimp only
      split
      · exact fun _ => .refl _
      · exact Threads.sameBytes_setFrame (Threads.sameBytes_of_frames rfl) ⟨rfl,rfl,rfl⟩

theorem cancelDeletion_refines (h : x.Refines) (hstep : x.Step (.cancelDeletion p) x') :
    x'.Refines := by
  refine h.reserve hstep (hstep.threads.1 rfl) rfl rfl (Option.some.inj hstep.threads.2.2).symm ?_
  unfold BufferPool.cancelPageDeletion
  split
  · exact fun _ => .refl _
  cases x.threads.pool.pageTable p with
  | none => exact fun _ => .refl _
  | some f =>
    dsimp only
    split
    · exact fun _ => .refl _
    · exact Threads.sameBytes_setFrame (Threads.sameBytes_of_frames rfl) ⟨rfl,rfl,rfl⟩

theorem finalize_refines (h : x.Refines) (hstep : x.Step (.finalize p) x') : x'.Refines := by
  have ho : x.threads.ops = [] := hstep.threads.1 rfl
  have hn := hstep.threads.2.2
  simp only [Threads.next,BufferPool.finalizePageDeletion] at hn
  by_cases hd : x.threads.pool.deletePending p = true
  swap
  · simp only [hd,Bool.not_false,if_true] at hn
    exact h.reserve hstep ho rfl rfl (Option.some.inj hn).symm fun _ => .refl _
  simp only [hd,Bool.not_true,Bool.false_eq_true,if_false] at hn
  cases ht : x.threads.pool.pageTable p with
  | none =>
    simp only [ht] at hn
    have hs' := (Option.some.inj hn).symm
    refine h.unmoved hstep rfl rfl ?_ fun o hmem => ?_
    · rw [hs']
      exact .start ho (.inr ⟨.finalizingUncached p,congrArg _ ho,fun _ => rfl,rfl⟩)
        (fun _ => .refl _) (.inl rfl)
    · simp only [hs',Threads.addOp,Threads.setPool,ho,List.mem_singleton] at hmem
      rw [hmem]
      trivial
  | some f =>
    simp only [ht] at hn
    split at hn
    · next hx =>
      split at hx
      · cases hx
        exact h.reserve hstep ho rfl rfl (Option.some.inj hn).symm fun _ => .refl _
      · cases hx
    · next hx =>
      split at hx <;> cases hx
    · next hx =>
      split at hx
      · cases hx
      · cases hx
        have hs' := (Option.some.inj hn).symm
        refine h.unmoved hstep rfl rfl ?_ fun o hmem => ?_
        · rw [hs']
          exact .start ho (.inr ⟨.finalizing p f,congrArg _ ho,fun _ => rfl,rfl⟩)
            (Threads.sameBytes_setFrame (fun _ => .refl _) ⟨rfl,rfl,rfl⟩) (.inl rfl)
        · simp only [hs',Threads.addOp,Threads.setPool,ho,List.mem_singleton] at hmem
          rw [hmem]
          trivial

end Starting

end PageStore

/-! ### One section further -/

theorem Op.frame_of_saved {o : Op β} {f : FrameId} (h : o.saved = some f) :
    o.frame? = some f := by
  cases o <;> simp_all [Op.saved,Op.frame?]

namespace Threads

section Turning

variable {n : ℕ} {s s' : Threads β ρ} {f : FrameId} {p : PageId} {saved saved' page : β}

theorem holds_other {o : Op β} (hops : s.ops = [o]) (hof : o.frame? = some f) {g : FrameId}
    (hg : g ≠ f) : s.holds g = (s.frame g).name := by
  have hfill : o.fills g = none := Option.eq_none_iff_forall_ne_some.mpr fun q hq =>
    hg (Option.some.inj ((Op.frame_of_fills hq).symm.trans hof))
  rw [holds_one hops,hfill]
  rfl

theorem clean_other {o : Op β} (hops : s.ops = [o]) (hof : o.frame? = some f) {g : FrameId}
    (hg : g ≠ f) : s.Clean g ↔ (s.frame g).isDirty = false := by
  refine or_iff_left ?_
  rintro ⟨q,hq,hs⟩
  rw [hops] at hq
  rw [List.mem_singleton.mp hq] at hs
  exact hg (Option.some.inj ((Op.frame_of_saved hs).symm.trans hof))

/-- Reading and writing: whatever the frame held is on the disk afterwards. -/
theorem Current.turn (h : s.Current saved p page) {o q : Op β} (hops : s.ops = [o])
    (hops' : s'.ops = [q]) (hof : o.frame? = some f) (hqf : q.frame? = some f)
    (hguards : s'.guards = s.guards) (hothers : ∀ g, g ≠ f → s'.frame g = s.frame g)
    (hsaved : saved' = page ∨ saved' = saved ∧ s.holds f ≠ some p)
    (hnew : s'.holds f = some p → (s'.frame f).page = page ∧ saved' = page) :
    s'.Current saved' p page := by
  have hholds : ∀ g, g ≠ f → s'.holds g = s.holds g := fun g hg => by
    rw [holds_other hops' hqf hg,holds_other hops hof hg,hothers g hg]
  have hclean : ∀ g, g ≠ f → s'.Clean g → s.Clean g := fun g hg hc => by
    rw [clean_other hops' hqf hg,hothers g hg] at hc
    exact .inl hc
  refine ⟨fun g hg hall => ?_,fun k hk => ?_,fun g hg hc hall => ?_,fun ha => ?_⟩
  · by_cases hgf : g = f
    · exact hgf ▸ (hnew (hgf ▸ hg)).1
    · rw [hothers g hgf]
      exact h.frame g (hholds g hgf ▸ hg) (hguards ▸ hall)
  · exact h.before k (hguards ▸ hk)
  · by_cases hgf : g = f
    · exact (hnew (hgf ▸ hg)).2
    · rcases hsaved with he | ⟨he,-⟩
      · exact he
      · rw [he]
        exact h.clean g (hholds g hgf ▸ hg) (hclean g hgf hc) (hguards ▸ hall)
  · rcases hsaved with he | ⟨he,hf⟩
    · exact he
    · rw [he]
      refine h.away fun g hg => ?_
      by_cases hgf : g = f
      · exact hf (hgf ▸ hg)
      · exact ha g ((hholds g hgf).trans hg)

/-- The last section of an operation. -/
theorem Current.finish (h : s.Current saved p page) {o : Op β} (hops : s.ops = [o])
    (hops' : s'.ops = []) (hof : o.frame? = some f) (hguards : Admits s s')
    (hothers : ∀ g, g ≠ f → s'.frame g = s.frame g)
    (hkept : s.holds f = some p → saved = page ∨ s'.holds f = some p ∧ (s'.Clean f → s.Clean f))
    (hnew : s'.holds f = some p → s.holds f = some p ∧ (s'.frame f).page = (s.frame f).page) :
    s'.Current saved p page := by
  have hholds : ∀ g, g ≠ f → s'.holds g = s.holds g := fun g hg => by
    rw [holds_nil hops',holds_other hops hof hg,hothers g hg]
  have hclean : ∀ g, g ≠ f → s'.Clean g → s.Clean g := fun g hg hc => by
    rw [clean_nil hops',hothers g hg] at hc
    exact .inl hc
  refine h.carry (fun g hg => ?_) ?_ (fun _ => hguards.keep)
    fun k hk => (hguards.back hk).imp_right And.left
  · by_cases hgf : g = f
    · exact hgf ▸ hnew (hgf ▸ hg)
    · rw [hholds g hgf] at hg
      exact ⟨hg,by rw [hothers g hgf]⟩
  · by_cases hf : s.holds f = some p
    · refine (hkept hf).imp_right fun hk => ⟨rfl,fun g hg => ?_⟩
      by_cases hgf : g = f
      · exact hgf ▸ hk
      · exact ⟨(hholds g hgf).trans hg,hclean g hgf⟩
    · refine .inr ⟨rfl,fun g hg => ?_⟩
      have hgf : g ≠ f := fun he => hf (he ▸ hg)
      exact ⟨(hholds g hgf).trans hg,hclean g hgf⟩

theorem Turns.ops_eq {o q : Op β} {b : BufferPool β ρ} (ht : Turns s s' o q b)
    (hops : s.ops = [o]) : s'.ops = [q] := by
  rw [ht.ops,hops]
  simp

/-- The frame of a flush holds the page the flush is begun for. -/
theorem Placed.holds_flush (hp : s.Placed n) {o : Op β} (ho : o ∈ s.ops)
    (hfill : o.fills f = none) (hpage : (s.frame f).pageId = p)
    (hstate : (s.frame f).state = .flushing) : s.holds f = some p := by
  rw [holds_one (hp.sole ho).1,hfill]
  have hstate' : (s.pool.frames f).state = .flushing := hstate
  have hne := (hp.at_ f).named (by simp [hstate']) (by simp [hstate'])
  exact (Frame.name_eq hne).trans (congrArg some hpage)

/-- The read into the frame succeeds, or a victim keeps its bytes. -/
theorem loadIo_bytes (b : BufferPool β ρ) (sel : FrameSelection) (write : Status)
    (loaded : Result β) :
    (∃ bytes, loaded = .ok bytes ∧ (b.loadIo sel write loaded).1 = .ok () ∧
      ((b.loadIo sel write loaded).2.frames sel.frameId).page = bytes) ∨
    ∃ e, (b.loadIo sel write loaded).1 = .error e ∧ (sel.fromFreeList = false →
      ((b.loadIo sel write loaded).2.frames sel.frameId).page = (b.frames sel.frameId).page) := by
  unfold BufferPool.loadIo BufferPool.evictIo
  cases hfl : sel.fromFreeList <;> cases hd : (b.frames sel.frameId).isDirty <;> cases write <;>
    cases loaded <;> simp [BufferPool.setFrame,hd]

theorem newIo_bytes (b : BufferPool β ρ) (sel : FrameSelection) (write : Status)
    (allocated : Result PageId) (hfl : sel.fromFreeList = false) :
    ((b.newIo sel write allocated).2.frames sel.frameId).page = (b.frames sel.frameId).page := by
  unfold BufferPool.newIo BufferPool.evictIo
  cases hd : (b.frames sel.frameId).isDirty <;> cases write <;> cases allocated <;>
    simp [BufferPool.setFrame,hd,hfl]

end Turning

end Threads

namespace PageStore

/-! ### Reading and writing -/

section InputOutput

variable {n : ℕ} {x x' : PageStore β ρ} {p q : PageId} {f : FrameId} {page : β}

theorem saveDirty_ne (h : q ≠ p) : x.saveDirty p f q = x.disk q := by
  unfold saveDirty
  split
  · exact Function.update_of_ne h _ _
  · rfl

/-- A frame without a guard has the page's bytes, so they are what a write-back leaves. -/
theorem saveDirty_self (h : x.threads.Current (x.disk p) p page)
    (hf : x.threads.holds f = some p) (hg : ∀ g ∈ x.threads.guards, g.frame ≠ f) :
    x.saveDirty p f p = page := by
  unfold saveDirty
  split
  · rw [save,Function.update_self]
    exact h.frame f hf fun g hm he => absurd he (hg g hm)
  · next hd => exact h.clean f hf (.inl (by simpa using hd)) fun g hm he => absurd he (hg g hm)

/-- The write-back of a dirty frame saves the page it holds and no other. -/
theorem saveDirty_cases (h : x.threads.Current (x.disk q) q page)
    (hf : x.threads.holds f = some p) (hg : ∀ g ∈ x.threads.guards, g.frame ≠ f) :
    x.saveDirty p f q = page ∨ x.saveDirty p f q = x.disk q ∧ x.threads.holds f ≠ some q := by
  by_cases hq : q = p
  · subst hq
    exact .inl (saveDirty_self h hf hg)
  · refine .inr ⟨saveDirty_ne hq,?_⟩
    rw [hf]
    exact fun he => hq (Option.some.inj he).symm

theorem saveVictim_cases {sel : FrameSelection} (h : x.threads.Current (x.disk q) q page)
    (hf : x.threads.holds sel.frameId = if sel.fromFreeList then none else some p)
    (hg : ∀ g ∈ x.threads.guards, g.frame ≠ sel.frameId) : x.saveVictim sel p q = page ∨
      x.saveVictim sel p q = x.disk q ∧ x.threads.holds sel.frameId ≠ some q := by
  unfold saveVictim
  cases hfl : sel.fromFreeList <;> rw [hfl] at hf
  · exact saveDirty_cases h hf hg
  · exact .inr ⟨rfl,by simp [hf]⟩

theorem loadIo_refines (h : x.Refines) (hi : x.threads.Inv) (hp : x.threads.Placed n)
    {sel : FrameSelection} {oldPage : PageId} {k : Access} {wal write : Status}
    {loaded : Result β} (hstep : x.Step (.loadIo p sel oldPage k wal write loaded) x') :
    x'.Refines := by
  obtain ⟨status,ht⟩ := Threads.next_loadIo hstep.threads.2.2
  obtain ⟨hops,hplaced,-⟩ := hp.sole ht.mem
  obtain ⟨hstate,hmapped,-,hold⟩ := hplaced
  obtain ⟨-,hpin,hpage⟩ := hi.fits (f := sel.frameId) ht.mem rfl
  have hg := hi.no_guard ht.mem rfl hpin
  have hover := Threads.loadIo_overwrites x.threads.pool sel status loaded
  have hops' := ht.ops_eq hops
  -- a victim has its old page until it is read into, a frame from the free list has none
  have hholds : x.threads.holds sel.frameId =
      if sel.fromFreeList then none else some oldPage := by
    rw [Threads.holds_one hops]
    cases hfl : sel.fromFreeList with
    | true => simp [Op.fills,hfl]
    | false =>
      rw [hfl] at hpage hstate
      have hne := (hp.at_ sel.frameId).named (by simp [hstate]) (by simp [hstate])
      simp only [Op.fills,hfl,Bool.false_eq_true,false_and,if_false,Option.getD_none]
      exact (Frame.name_eq hne).trans (congrArg some hpage)
  refine h.unmarked hstep rfl (fun r page hx _ _ => ?_) ?_ ?_
  · have hcur := h.current r page hx
    have hsaved := saveVictim_cases hcur hholds hg
    refine hcur.turn (f := sel.frameId) hops hops' rfl rfl ht.guards (fun g hgf => ?_) hsaved
      fun hnew => ?_
    · rw [Threads.frame,ht.pool]
      exact hover.others g hgf
    · rw [Threads.holds_one hops',Threads.frame,ht.pool] at hnew
      rw [Threads.frame,ht.pool]
      rcases Threads.loadIo_bytes x.threads.pool sel status loaded with
        ⟨bytes,hl,hout,hbytes⟩ | ⟨e,hout,hbytes⟩ <;> rw [hout] at hnew
      · have hrp : p = r := by simpa [Op.fills] using hnew
        subst hrp
        have hwritten : x.saveVictim sel oldPage p = page := by
          rcases hsaved with he | ⟨he,hf⟩
          · exact he
          · rw [he]
            refine hcur.away fun g hx => hf ?_
            rwa [← Option.some.inj (hmapped.symm.trans (Threads.holds_mapped hp hx))] at hx
        have hread := hstep.answers.2.2 (h.allocated p page hx)
        rw [hl] at hread
        rw [hbytes]
        exact ⟨(Except.ok.inj hread).trans hwritten,hwritten⟩
      · cases hfl : sel.fromFreeList with
        | true => simp [Op.fills,hfl] at hnew
        | false =>
          simp only [Op.fills,hfl,Bool.false_eq_true,false_and,if_false,Option.getD_none,
            Frame.name,hover.same.2.2] at hnew
          have hf : x.threads.holds sel.frameId = some r := by
            rw [Threads.holds_one hops]
            simp only [Op.fills,hfl,Bool.false_eq_true,false_and,if_false,Option.getD_none]
            exact hnew
          rw [hbytes hfl]
          refine ⟨?_,hsaved.resolve_right fun hx => hx.2 hf⟩
          exact hcur.frame sel.frameId hf fun g hm he => absurd he (hg g hm)
  · rw [ht.guards]
    exact h.waiting
  · rw [hops']
    intro o ho
    rw [List.mem_singleton.mp ho]
    trivial

theorem newIo_refines (h : x.Refines) (hi : x.threads.Inv) (hp : x.threads.Placed n)
    {sel : FrameSelection} {oldPage : PageId} {k : Access} {wal write : Status}
    {allocated : Result PageId} (hstep : x.Step (.newIo sel oldPage k wal write allocated) x') :
    x'.Refines := by
  obtain ⟨-,status,ht⟩ := Threads.next_newIo hstep.threads.2.2
  obtain ⟨hops,hplaced,-⟩ := hp.sole ht.mem
  replace hplaced : (x.threads.frame sel.frameId).state =
    if sel.fromFreeList then .loading else .evicting := hplaced
  obtain ⟨-,hpin,hpage⟩ := hi.fits (f := sel.frameId) ht.mem rfl
  have hg := hi.no_guard ht.mem rfl hpin
  have hover := Threads.newIo_overwrites x.threads.pool sel status allocated
  have hops' := ht.ops_eq hops
  have hholds : x.threads.holds sel.frameId =
      if sel.fromFreeList then none else some oldPage := by
    rw [Threads.holds_one hops]
    cases hfl : sel.fromFreeList with
    | true => exact Frame.name_none (hpage.trans (by simp [hfl]))
    | false =>
      rw [hfl] at hpage hplaced
      have hne := (hp.at_ sel.frameId).named (by simp [show (x.threads.pool.frames _).state = _
        from hplaced]) (by simp [show (x.threads.pool.frames _).state = _ from hplaced])
      exact (Frame.name_eq hne).trans (congrArg some hpage)
  have hholds' : x'.threads.holds sel.frameId = x.threads.holds sel.frameId := by
    rw [Threads.holds_one hops',Threads.holds_one hops,Threads.frame,ht.pool,Frame.name,
      hover.same.2.2]
    rfl
  refine h.unmarked hstep rfl (fun r page hx _ _ => ?_) ?_ ?_
  · have hcur := h.current r page hx
    have hsaved := saveVictim_cases hcur hholds hg
    refine hcur.turn (f := sel.frameId) hops hops' rfl rfl ht.guards (fun g hgf => ?_) hsaved
      fun hnew => ?_
    · rw [Threads.frame,ht.pool]
      exact hover.others g hgf
    · rw [hholds'] at hnew
      refine ⟨?_,hsaved.resolve_right fun hx => hx.2 hnew⟩
      have hfl : sel.fromFreeList = false := by
        cases hfl : sel.fromFreeList with
        | true => rw [hholds,hfl] at hnew; cases hnew
        | false => rfl
      rw [Threads.frame,ht.pool,Threads.newIo_bytes _ _ _ _ hfl]
      exact hcur.frame sel.frameId hnew fun g hm he => absurd he (hg g hm)
  · rw [ht.guards]
    exact h.waiting
  · rw [hops']
    intro o ho
    rw [List.mem_singleton.mp ho]
    trivial

/-- A flush that comes back: its frame is what it was. -/
theorem Refines.flushed (h : x.Refines) (hp : x.threads.Placed n) {a : Action β}
    (hstep : x.Step a x') (hmarks : x.marks a = none) {o : Op β} {status : Status}
    (ht : Threads.Turns x.threads x'.threads o (.flushed f status) x.threads.pool)
    (hof : o.frame? = some f) (hfill : o.fills f = none)
    (hg : ∀ g ∈ x.threads.guards, g.frame ≠ f)
    (hwritten : ∀ q page, x.threads.Current (x.disk q) q page →
      x.written a q = page ∨ x.written a q = x.disk q ∧ x.threads.holds f ≠ some q) :
    x'.Refines := by
  have hops := (hp.sole ht.mem).1
  have hops' := ht.ops_eq hops
  have hframe : ∀ g, x'.threads.frame g = x.threads.frame g := fun g => by
    rw [Threads.frame,ht.pool]
    rfl
  have hholds' : x'.threads.holds f = x.threads.holds f := by
    rw [Threads.holds_one hops',Threads.holds_one hops,hframe,hfill]
    rfl
  refine h.unmarked hstep hmarks (fun r page hx _ _ => ?_) ?_ ?_
  · have hcur := h.current r page hx
    have hsaved := hwritten r page hcur
    refine hcur.turn hops hops' hof rfl ht.guards (fun g _ => hframe g) hsaved fun hnew => ?_
    rw [hholds'] at hnew
    rw [hframe]
    refine ⟨?_,hsaved.resolve_right fun hx => hx.2 hnew⟩
    exact hcur.frame f hnew fun g hm he => absurd he (hg g hm)
  · rw [ht.guards]
    exact h.waiting
  · rw [hops']
    intro o ho
    rw [List.mem_singleton.mp ho]
    trivial

theorem flushIo_refines (h : x.Refines) (hi : x.threads.Inv) (hp : x.threads.Placed n)
    {wal write : Status} (hstep : x.Step (.flushIo p f wal write) x') : x'.Refines := by
  rcases Threads.next_flushIo hstep.threads.2.2 with ⟨hmem,hstate,-⟩ | ⟨hpin,status,ht⟩
  · exact absurd (hi.fits hmem rfl) hstate
  · have hstate : (x.threads.frame f).state = .flushing := hi.fits ht.mem rfl
    have hg := hi.no_guard ht.mem rfl hpin
    have hholds := hp.holds_flush ht.mem rfl (h.named _ ht.mem) hstate
    refine h.flushed hp hstep rfl ht rfl rfl hg fun q page hcur => ?_
    simp only [written,if_pos hstate]
    exact saveDirty_cases hcur hholds hg

theorem writeThroughIo_refines (h : x.Refines) (hi : x.threads.Inv) (hp : x.threads.Placed n)
    {wal write : Status} (hstep : x.Step (.writeThroughIo p f wal write) x') : x'.Refines := by
  obtain ⟨status,ht⟩ := Threads.next_writeThroughIo hstep.threads.2.2
  obtain ⟨hstate,hpin⟩ := hi.fits (f := f) ht.mem rfl
  have hg := hi.no_guard ht.mem rfl hpin
  have hholds := hp.holds_flush ht.mem rfl (h.named _ ht.mem) hstate
  refine h.flushed hp hstep rfl ht rfl rfl hg fun q page hcur => ?_
  by_cases hq : q = p
  · subst hq
    refine .inl ?_
    rw [written,save,Function.update_self]
    exact hcur.frame f hholds fun g hm he => absurd he (hg g hm)
  · refine .inr ⟨Function.update_of_ne hq _ _,?_⟩
    rw [hholds]
    exact fun he => hq (Option.some.inj he).symm

theorem finalizeIo_refines (h : x.Refines) (hi : x.threads.Inv) (hp : x.threads.Placed n)
    {wal write deallocate : Status}
    (hstep : x.Step (.finalizeIo p f wal write deallocate) x') : x'.Refines := by
  obtain ⟨status,ht⟩ := Threads.next_finalizeIo hstep.threads.2.2
  have hops := (hp.sole ht.mem).1
  have hops' := ht.ops_eq hops
  obtain ⟨hstate,hpin,hpage⟩ := hi.fits (f := f) ht.mem rfl
  have hover := Threads.finalizeIo_overwrites x.threads.pool f status deallocate
  have hholds : x.threads.holds f = some p := by
    rw [Threads.holds_one hops]
    have hstate' : (x.threads.pool.frames f).state = .deletePending := hstate
    have hne := (hp.at_ f).named (by simp [hstate']) (by simp [hstate'])
    exact (Frame.name_eq hne).trans (congrArg some hpage)
  refine h.unmarked hstep rfl (fun r page hx _ hfree => ?_) ?_ ?_
  · -- the page is free afterwards, or it was before
    have hrp : r ≠ p := by
      rintro rfl
      have hd : deallocate = .ok () := hstep.answers.2.2 (h.allocated r page hx)
      exact hfree (by simp [Action.frees,hd,BufferPool.deallocated])
    have hcur := h.current r page hx
    refine hcur.turn (f := f) hops hops' rfl rfl ht.guards (fun g hgf => ?_)
      (.inr ⟨saveDirty_ne hrp,?_⟩) fun hnew => absurd hnew ?_
    · rw [Threads.frame,ht.pool]
      exact hover.others g hgf
    · rw [hholds]
      exact fun he => hrp (Option.some.inj he).symm
    · rw [Threads.holds_one hops',Threads.frame,ht.pool,Frame.name,hover.same.2.2]
      have hpage' : (x.threads.pool.frames f).pageId = p := hpage
      rw [hpage']
      cases (x.threads.pool.finalizeIo f status deallocate).1 <;> simp [Op.fills,hrp.symm]
  · rw [ht.guards]
    exact h.waiting
  · rw [hops']
    intro o ho
    rw [List.mem_singleton.mp ho]
    trivial

end InputOutput

/-! ### Ending an operation -/

section Ending

variable {n : ℕ} {x x' : PageStore β ρ} {p : PageId} {f : FrameId}

theorem Refines.finish (h : x.Refines) (hp : x.threads.Placed n) {a : Action β}
    (hstep : x.Step a x') (hmarks : x.marks a = none) (hwritten : x.written a = x.disk)
    {o : Op β} (ho : o ∈ x.threads.ops) (hof : o.frame? = some f)
    (hops' : x'.threads.ops = x.threads.ops.erase o)
    (hguards : Threads.Admits x.threads x'.threads)
    (hothers : ∀ g, g ≠ f → x'.threads.frame g = x.threads.frame g)
    (hframe : ∀ q page, x.pages q = some page → a.allocates ≠ some q → a.frees ≠ some q →
      (x.threads.holds f = some q → x.disk q = page ∨
        x'.threads.holds f = some q ∧ (x'.threads.Clean f → x.threads.Clean f)) ∧
      (x'.threads.holds f = some q → x.threads.holds f = some q ∧
        (x'.threads.frame f).page = (x.threads.frame f).page)) : x'.Refines := by
  have hops := (hp.sole ho).1
  have hnil : x'.threads.ops = [] := by
    rw [hops',hops]
    simp
  refine h.unmarked hstep hmarks (fun q page hx ha hf => ?_) (fun g hg hw => ?_) ?_
  · rw [hwritten]
    obtain ⟨hkept,hnew⟩ := hframe q page hx ha hf
    exact (h.current q page hx).finish hops hnil hof hguards hothers hkept hnew
  · rcases hguards.back hg with hold | hnew
    · exact h.waiting g hold hw
    · exact hnew.2
  · rw [hnil]
    exact fun o ho => absurd ho List.not_mem_nil

theorem loadDone_refines (h : x.Refines) (hp : x.threads.Placed n) {sel : FrameSelection}
    {oldPage : PageId} {k : Access} {outcome : Status}
    (hstep : x.Step (.loadDone p sel oldPage k outcome) x') : x'.Refines := by
  have hn := hstep.threads.2.2
  simp only [Threads.next] at hn
  split at hn
  swap
  · simp at hn
  next hc =>
  obtain ⟨hops,⟨-,-,hpi,-⟩,-⟩ := hp.sole hc
  have hclean : x.threads.Clean sel.frameId := .inr ⟨_,hc,rfl⟩
  have hfill := Threads.holds_one hops sel.frameId
  cases outcome with
  | error e =>
    simp only [BufferPool.finishLoad,Threads.pool_dropOp] at hn
    have hs' := (Option.some.inj hn).symm
    cases hfl : sel.fromFreeList with
    | true =>
      -- the frame was taken from the free list, and goes back to it
      simp only [hfl,if_true] at hs'
      have hframes := (Threads.returnFreeFrame_same ((x.threads.pool.unmap p).setFrame sel.frameId
        { (x.threads.pool.unmap p).frames sel.frameId with
          page := 0, pageId := invalidPageId, pinCount := 0, isDirty := false, state := .empty })
        sel.frameId).1
      have hnone : x.threads.holds sel.frameId = none := by
        rw [hfill]
        simp [Op.fills,hfl]
      have hnone' : x'.threads.holds sel.frameId = none := by
        rw [Threads.holds_nil (by rw [hs']; exact (congrArg (List.erase · _) hops).trans (by simp))]
        refine Frame.name_none ?_
        rw [hs']
        refine (congrArg (fun y => (y sel.frameId).pageId) hframes).trans ?_
        simp [BufferPool.setFrame]
      refine h.finish hp hstep rfl rfl hc rfl ?_ ?_ (fun g hg => ?_) fun q page hx _ _ =>
        ⟨fun hf => by simp [hnone] at hf,fun hf => by simp [hnone'] at hf⟩
      · rw [hs']
        rfl
      · rw [hs']
        exact .inl rfl
      · rw [hs']
        exact (congrFun hframes g).trans (Function.update_of_ne hg _ _)
    | false =>
      simp only [hfl,Bool.false_eq_true,if_false] at hs'
      have hself : x'.threads.frame sel.frameId =
          { x.threads.frame sel.frameId with pinCount := 0, state := .valid } := by
        rw [hs']
        exact Threads.unevict_frame _ _
      have hnil : x'.threads.ops = [] := by
        rw [hs']
        exact (congrArg (List.erase · _) hops).trans (by simp)
      have hholds : x'.threads.holds sel.frameId = x.threads.holds sel.frameId := by
        rw [hfill,Threads.holds_nil hnil,hself]
        simp [Op.fills,hfl,Frame.name]
      refine h.finish hp hstep rfl rfl hc rfl ?_ ?_ (fun g hg => ?_) fun q page hx _ _ =>
        ⟨fun hf => .inr ⟨hholds.trans hf,fun _ => hclean⟩,fun hf => ⟨hholds ▸ hf,by rw [hself]⟩⟩
      · rw [hs']
        rfl
      · rw [hs']
        exact .inl rfl
      · rw [hs']
        exact Function.update_of_ne hg _ _
  | ok u =>
    simp only [BufferPool.finishLoad,Threads.pool_dropOp] at hn
    have hs' := (Option.some.inj hn).symm
    have hb : ∀ c : Bool, (if c then x.threads.pool else x.threads.pool.unmap oldPage).frames =
        x.threads.pool.frames := fun c => by cases c <;> rfl
    have hself : x'.threads.frame sel.frameId = { x.threads.frame sel.frameId with
        pageId := p, pinCount := 1, isDirty := false, pageLsn := invalidLsn, state := .valid } := by
      rw [hs']
      refine (Threads.install_frame _ _ _).trans ?_
      rw [hb]
      rfl
    have hnil : x'.threads.ops = [] := by
      rw [hs']
      exact (congrArg (List.erase · _) hops).trans (by simp)
    have hholds : x.threads.holds sel.frameId = some p := by
      rw [hfill]
      simp [Op.fills]
    have hholds' : x'.threads.holds sel.frameId = some p := by
      rw [Threads.holds_nil hnil,hself]
      exact if_neg hpi
    refine h.finish hp hstep rfl rfl hc rfl ?_ ?_ (fun g hg => ?_) fun q page hx _ _ =>
      ⟨fun hf => .inr ⟨hholds'.trans (hholds.symm.trans hf),fun _ => hclean⟩,fun hf =>
        ⟨hholds.trans (hholds'.symm.trans hf),by rw [hself]⟩⟩
    · rw [hs']
      rfl
    · rw [hs']
      exact .inr ⟨_,rfl,rfl,rfl⟩
    · rw [hs']
      refine (Function.update_of_ne hg _ _).trans ?_
      rw [hb]
      rfl

end Ending

end PageStore
end Buffer
end OurSql
