import OurSql.Buffer.Pins

/-! The steps that take a frame, fill it and give it out again. -/
namespace OurSql
namespace Buffer

set_option linter.unusedSectionVars false

open BufferPool (Fetch Flush Release Finalize Restore)

variable {β ρ : Type} [Zero β] [DecidableEq β] [Replacer ρ]

namespace Threads

/-- An unpinned frame is taken by one operation. -/
theorem Inv.take {s : Threads β ρ} (h : s.Inv) {b : BufferPool β ρ} {f : FrameId} {o : Op β}
    (hz : (s.frame f).pinCount = 0) (hat : PoolAt s.pool b f) (hof : o.frame? = some f)
    (hp : (b.frames f).pinCount = 1) (hfit : o.Fits (b.frames f))
    (hm : ∀ q, b.pageTable q = some f → q ≠ invalidPageId ∧
      ((b.frames f).pageId = q ∨ o.loads = some q))
    (hev : Replacer.isEvictable b.replacer f = false) (hfree : f ∉ b.freeFrames)
    (hn : b.freeFrames.Nodup) : ((s.setPool b).addOp o).Inv := by
  obtain ⟨hg,ho⟩ := (h.at_ f).empty hz
  have hops : ((s.setPool b).addOp o).opsAt f = [o] := by
    rw [opsAt_addOp,if_pos hof,opsAt_setPool,ho]
  refine h.touchPool hat (fun _ _ => rfl) (fun g hne => ?_) ?_ hn
  · rw [opsAt_addOp,if_neg fun he => hne (Option.some.inj (he.symm.trans hof))]
    rfl
  · refine ⟨?_,?_,?_,?_,?_,?_,?_⟩
    · rw [hops,guardsAt_addOp,guardsAt_setPool,hg]
      exact hp
    · rw [hops]
      exact fun _ => Nat.le_refl 1
    · rw [hops]
      intro o' ho'
      rw [List.mem_singleton.mp ho']
      exact hfit
    · rw [guardsAt_addOp,guardsAt_setPool,hg]
      exact fun g hg' => absurd hg' List.not_mem_nil
    · rw [hops]
      intro q hq
      obtain ⟨hne,hor⟩ := hm q hq
      exact ⟨hne,hor.imp id fun hl => ⟨o,List.mem_singleton_self o,hl⟩⟩
    · intro he
      have he' : Replacer.isEvictable b.replacer f = true := he
      rw [hev] at he'
      cases he'
    · exact fun hmem => absurd hmem hfree

/-- No operation of a frame that is Valid holds it, except a page restore. -/
theorem InvAt.valid_ops {s : Threads β ρ} {f : FrameId} (h : s.InvAt f)
    (hv : (s.frame f).state = .valid)
    (hr : ∀ o ∈ s.ops, o.isRestore = true → o.frame? ≠ some f) : s.opsAt f = [] := by
  refine List.eq_nil_iff_forall_not_mem.mpr fun o ho => ?_
  obtain ⟨hmem,hof⟩ := mem_opsAt.mp ho
  have hfit := h.fits o ho
  have hno := hr o hmem
  cases o <;> simp_all [Op.Fits, Op.isRestore, Op.frame?]

/-- A page that is mapped to a Valid frame is the frame's page. -/
theorem InvAt.pageId_of_mapped {s : Threads β ρ} {f : FrameId} (h : s.InvAt f) {p : PageId}
    (hm : s.pool.pageTable p = some f)
    (hv : (s.frame f).state = .valid ∨ (s.frame f).state = .deletePending) :
    (s.frame f).pageId = p := by
  rcases (h.mapped p hm).2 with hp | ⟨o,ho,hl⟩
  · exact hp
  · have hfit := h.fits o ho
    rcases hv with hv | hv <;> cases o <;> simp_all [Op.Fits, Op.loads]

theorem Inv.setPool {s : Threads β ρ} (h : s.Inv) {b : BufferPool β ρ} (hq : Quiet s.pool b) :
    (s.setPool b).Inv := h.quiet hq (fun _ => rfl) fun _ => rfl

theorem Inv.addOp {s : Threads β ρ} (h : s.Inv) {o : Op β} (ho : o.frame? = none) :
    (s.addOp o).Inv := by
  refine h.quiet (Quiet.refl _) (fun _ => rfl) fun f => ?_
  rw [opsAt_addOp,if_neg (by simp [ho])]

theorem Inv.dropOp {s : Threads β ρ} (h : s.Inv) {o : Op β} (ho : o.frame? = none) :
    (s.dropOp o).Inv :=
  h.quiet (Quiet.refl _) (fun _ => rfl) fun _ => opsAt_dropOp_ne (by simp [ho])

theorem victim_not_evictable {r r' : ρ} {f : FrameId} (h : Replacer.victim r = some (f,r')) :
    Replacer.isEvictable r' f = false := by
  rw [(Replacer.victim_evictable _ _ _ h).2 f]
  simp

theorem selectFrame_table {b b₁ : BufferPool β ρ} {sel : FrameSelection}
    (h : b.selectFrame = (.ok sel,b₁)) : b₁.pageTable = b.pageTable := by
  rcases selectFrame_cases b with ⟨_,_,hx,-⟩ | ⟨_,_,-,-,hx⟩ | ⟨_,_,-,-,-,-,-,hx⟩ <;> rw [h] at hx
  · simp at hx
  · rw [(Prod.mk.inj hx).2]
    rfl
  · rw [(Prod.mk.inj hx).2]
    rfl

/-- The frame `SelectFrameUnlocked` chose, once its caller has pinned it. -/
theorem Inv.select {s : Threads β ρ} (h : s.Inv) {sel : FrameSelection} {b₁ b : BufferPool β ρ}
    (hsel : s.pool.selectFrame = (.ok sel,b₁)) {o : Op β} (hof : o.frame? = some sel.frameId)
    (hat : PoolAt b₁ b sel.frameId) (hfree : b.freeFrames = b₁.freeFrames)
    (hev : b.replacer = b₁.replacer)
    (hm : ∀ q, b.pageTable q = some sel.frameId → s.pool.pageTable q = some sel.frameId ∨
      q ≠ invalidPageId ∧ o.loads = some q)
    (hx : (b₁.frames sel.frameId).pinCount = (if sel.fromFreeList then 0 else 1) →
      ((b₁.frames sel.frameId).state = if sel.fromFreeList then .loading else .evicting) →
      (sel.fromFreeList = true → (b₁.frames sel.frameId).pageId = invalidPageId) →
      (b.frames sel.frameId).pinCount = 1 ∧ o.Fits (b.frames sel.frameId))
    (hpage : sel.fromFreeList = false → (b.frames sel.frameId).pageId =
      (b₁.frames sel.frameId).pageId) : ((s.setPool b).addOp o).Inv := by
  rcases selectFrame_cases s.pool with ⟨e,b',he,-⟩ | ⟨f,rest,hf,hp,he⟩ | ⟨f,r,hf,hv,hz,hp,hs,he⟩
  · rw [hsel] at he
    simp at he
  · rw [hsel] at he
    simp only [Prod.mk.injEq, Except.ok.injEq] at he
    obtain ⟨rfl,rfl⟩ := he
    have hmem : f ∈ s.pool.freeFrames := by simp [hf]
    obtain ⟨hz,hst,hne⟩ := (h.at_ f).unused hmem
    have hz' : (s.pool.frames f).pinCount = 0 := hz
    have hnodup := List.nodup_cons.mp (hf ▸ h.freeNodup)
    have hx₁ := hx (by simpa [BufferPool.setFrame] using hz') (by simp [BufferPool.setFrame])
      fun _ => by simpa [BufferPool.setFrame] using hp
    have hat₁ : PoolAt s.pool (({ s.pool with freeFrames := rest }).setFrame f
        { s.pool.frames f with state := .loading }) f := by
      have hpop : PoolAt s.pool { s.pool with freeFrames := rest } f :=
        ⟨fun _ _ => rfl,fun _ _ _ h => h,fun _ _ h => h,
          fun _ _ hg => hf ▸ List.mem_cons_of_mem _ hg⟩
      exact hpop.trans (poolAt_setFrame _ _ _)
    refine h.take hz (hat₁.trans hat) hof hx₁.1 hx₁.2 (fun q hq => ?_) ?_ ?_ ?_
    · rcases hm q hq with hq' | ⟨hq',hl⟩
      · -- the frame was free, so no page was mapped to it
        obtain ⟨hqi,hor⟩ := (h.at_ f).mapped q hq'
        rw [((h.at_ f).empty hz).2] at hor
        rcases hor with hpid | ⟨o',ho',-⟩
        · exact absurd (hpid.symm.trans hp) hqi
        · exact absurd ho' List.not_mem_nil
      · exact ⟨hq',.inr hl⟩
    · rw [hev]
      exact Bool.eq_false_iff.mpr hne
    · rw [hfree]
      exact hnodup.1
    · rw [hfree]
      exact hnodup.2
  · rw [hsel] at he
    simp only [Prod.mk.injEq, Except.ok.injEq] at he
    obtain ⟨rfl,rfl⟩ := he
    have hx₁ := hx (by simp [BufferPool.setFrame, hz]) (by simp [BufferPool.setFrame])
      fun hc => by simp at hc
    have hat₁ : PoolAt s.pool (({ s.pool with replacer := r }).setFrame f
        { s.pool.frames f with
          state := .evicting, pinCount := (s.pool.frames f).pinCount + 1 }) f := by
      have hpop : PoolAt s.pool { s.pool with replacer := r } f := by
        refine ⟨fun _ _ => rfl,fun _ _ _ h => h,fun g _ hg => ?_,fun _ _ h => h⟩
        simp only at hg
        rw [(Replacer.victim_evictable _ _ _ hv).2 g,Bool.and_eq_true] at hg
        exact hg.1
      exact hpop.trans (poolAt_setFrame _ _ _)
    refine h.take hz (hat₁.trans hat) hof hx₁.1 hx₁.2 (fun q hq => ?_) ?_ ?_ ?_
    · rcases hm q hq with hq' | ⟨hq',hl⟩
      · have hpid : (s.pool.frames f).pageId = q := (h.at_ f).pageId_of_mapped hq' (.inl hs)
        refine ⟨((h.at_ f).mapped q hq').1,.inl ?_⟩
        rw [hpage rfl]
        simpa [BufferPool.setFrame] using hpid
      · exact ⟨hq',.inr hl⟩
    · rw [hev]
      exact victim_not_evictable hv
    · rw [hfree]
      exact fun hmem => by simp [BufferPool.setFrame, hf] at hmem
    · rw [hfree]
      simp [BufferPool.setFrame, hf]

/-- The parts of a frame the invariant looks at are the same. -/
def SameFrame (x x' : Frame β) : Prop :=
  x'.pinCount = x.pinCount ∧ x'.state = x.state ∧ x'.pageId = x.pageId

theorem SameFrame.fits {x x' : Frame β} (h : SameFrame x x') {o : Op β} (ho : o.Fits x) :
    o.Fits x' := by
  obtain ⟨hp,hs,hi⟩ := h
  cases o <;> simp only [Op.Fits, hp, hs, hi] at ho ⊢ <;> exact ho

/-- One operation turns into another that holds the same frame. -/
theorem Inv.swapOp {s s' : Threads β ρ} (h : s.Inv) {o o' : Op β} {f : FrameId} (ho : o ∈ s.ops)
    (hof : o.frame? = some f) (hof' : o'.frame? = some f)
    (hops : s'.ops = o'::s.ops.erase o) (hguards : s'.guards = s.guards)
    (htable : s'.pool.pageTable = s.pool.pageTable) (hrepl : s'.pool.replacer = s.pool.replacer)
    (hfree : s'.pool.freeFrames = s.pool.freeFrames)
    (hframe : ∀ g, g ≠ f → s'.frame g = s.frame g) (hsame : SameFrame (s.frame f) (s'.frame f))
    (hfit : o'.Fits (s'.frame f)) (hloads : o'.loads = o.loads) : s'.Inv := by
  have hmem : o ∈ s.opsAt f := mem_opsAt.mpr ⟨ho,hof⟩
  have hat : ∀ g, s'.opsAt g = ((s.dropOp o).addOp o').opsAt g := fun g => by
    rw [opsAt,hops]
    rfl
  have hops' : s'.opsAt f = o'::(s.opsAt f).erase o := by
    rw [hat,opsAt_addOp,if_pos hof',opsAt_dropOp]
  have hg' : ∀ g, s'.guardsAt g = s.guardsAt g := fun g => by simp only [guardsAt, hguards]
  have hlen : (s'.opsAt f).length = (s.opsAt f).length := by
    have hpos := List.length_pos_of_mem hmem
    rw [hops',List.length_cons,List.length_erase_of_mem hmem]
    omega
  have hi := h.at_ f
  refine h.touchPool (f := f) ⟨hframe,fun g _ p hp => htable ▸ hp,fun g _ he => hrepl ▸ he,
    fun g _ hg => hfree ▸ hg⟩ (fun g _ => hg' g) (fun g hne => ?_) ?_ (hfree ▸ h.freeNodup)
  · rw [hat,opsAt_addOp,if_neg (by rw [hof']; exact fun he => hne (Option.some.inj he).symm)]
    exact opsAt_dropOp_ne (by rw [hof]; exact fun he => hne (Option.some.inj he).symm)
  · refine ⟨?_,?_,?_,?_,?_,?_,?_⟩
    · rw [hg',hlen,hsame.1]
      exact hi.pins
    · rw [hlen,hsame.2.1]
      exact hi.alone
    · rw [hops']
      intro x hx
      rcases List.mem_cons.mp hx with rfl | hx
      · exact hfit
      · exact hsame.fits (hi.fits x (List.mem_of_mem_erase hx))
    · rw [hg',hsame.2.2]
      exact hi.guarded
    · intro p hp
      rw [htable] at hp
      obtain ⟨hne,hor⟩ := hi.mapped p hp
      refine ⟨hne,?_⟩
      rw [hsame.2.2]
      refine hor.imp id ?_
      rintro ⟨x,hx,hl⟩
      rw [hops']
      by_cases hxo : x = o
      · exact ⟨o',List.mem_cons_self,by rw [hloads,← hxo,hl]⟩
      · exact ⟨x,List.mem_cons_of_mem _ ((List.mem_erase_of_ne hxo).mpr hx),hl⟩
    · intro he
      rw [evictable,hrepl] at he
      rw [hsame.1,hsame.2.1]
      exact hi.candidate he
    · intro hmem'
      rw [hfree] at hmem'
      obtain ⟨hp,hs,he⟩ := hi.unused hmem'
      rw [hsame.1,hsame.2.1]
      refine ⟨hp,hs,fun hev => he ?_⟩
      rw [evictable,hrepl] at hev
      exact hev

/-- The frame changes hands: its operation ends, and the guards left are given. -/
theorem Inv.give {s s' : Threads β ρ} (h : s.Inv) {o : Op β} {f : FrameId} (ho : o ∈ s.ops)
    (hof : o.frame? = some f) (hp : (s.frame f).pinCount = 1) (hops : s'.ops = s.ops.erase o)
    {G : List (Guard β)} (hguards : s'.guards = G ++ s.guards) (hgs : ∀ g ∈ G, g.frame = f)
    (hat : PoolAt s.pool s'.pool f) (hn : s'.pool.freeFrames.Nodup)
    (hpin : (s'.frame f).pinCount = G.length) (hpage : ∀ g ∈ G, (s'.frame f).pageId = g.page)
    (hm : ∀ q, s'.pool.pageTable q = some f → q ≠ invalidPageId ∧ (s'.frame f).pageId = q)
    (hev : s'.evictable f → G = [] ∧ (s'.frame f).state ≠ .deletePending)
    (hfree : f ∈ s'.pool.freeFrames → G = [] ∧ (s'.frame f).state = .empty ∧ ¬ s'.evictable f) :
    s'.Inv := by
  obtain ⟨hg,hone⟩ := (h.at_ f).solo (mem_opsAt.mpr ⟨ho,hof⟩) hp
  have hat' : ∀ g, s'.opsAt g = (s.dropOp o).opsAt g := fun g => by
    rw [opsAt,hops]
    rfl
  have hops' : s'.opsAt f = [] := by
    rw [hat',opsAt_dropOp,hone]
    simp
  have hguards' : s'.guardsAt f = G := by
    have hf := List.filter_eq_self.mpr fun g hg' => decide_eq_true (hgs g hg')
    have hs : s.guards.filter (fun g => g.frame = f) = [] := hg
    rw [guardsAt,hguards,List.filter_append,hf,hs,List.append_nil]
  refine h.touchPool hat (fun g hne => ?_) (fun g hne => ?_) ?_ hn
  · have hf : G.filter (fun x => x.frame = g) = [] := by
      refine List.filter_eq_nil_iff.mpr fun x hx he => hne ?_
      rw [← hgs x hx]
      exact (of_decide_eq_true he).symm
    rw [guardsAt,hguards,List.filter_append,hf]
    rfl
  · rw [hat']
    exact opsAt_dropOp_ne (by rw [hof]; exact fun he => hne (Option.some.inj he).symm)
  · refine ⟨?_,?_,?_,?_,?_,?_,?_⟩
    · rw [hops',hguards',hpin]
      rfl
    · rw [hops']
      exact fun _ => Nat.zero_le 1
    · rw [hops']
      exact fun x hx => absurd hx List.not_mem_nil
    · rw [hguards']
      exact hpage
    · intro q hq
      exact ⟨(hm q hq).1,.inl (hm q hq).2⟩
    · intro he
      refine ⟨?_,(hev he).2⟩
      rw [hpin,(hev he).1]
      rfl
    · intro hf
      obtain ⟨hnil,hst,hne⟩ := hfree hf
      exact ⟨by rw [hpin,hnil]; rfl,hst,hne⟩

/-! ### FetchPage -/

theorem fetched_inv {s : Threads β ρ} (h : s.Inv) {p : PageId} (hp : p ≠ invalidPageId)
    (k : Access) (hr : ∀ f, s.pool.pageTable p = some f →
      ∀ o ∈ s.ops, o.isRestore = true → o.frame? ≠ some f) :
    (s.fetched p k (s.pool.lookup p)).Inv := by
  rcases lookup_cases s.pool p with ⟨e,b,he,hq⟩ | ⟨b,he,hq⟩ | ⟨f,hm,hv,he⟩ | ⟨sel,b₁,hm,hsel,he⟩
  · rw [he]
    exact h.setPool hq
  · rw [he]
    exact (h.setPool hq).addOp rfl
  · rw [he]
    have hi := h.at_ f
    have hops : s.opsAt f = [] := hi.valid_ops hv (hr f hm)
    have hpage : (s.frame f).pageId = p := hi.pageId_of_mapped hm (.inl hv)
    have hpins : (s.frame f).pinCount = (s.guardsAt f).length := by
      have := hi.pins
      rw [hops] at this
      exact this
    have hat : PoolAt s.pool ((s.pool.mapReplacer fun r =>
        Replacer.recordAccess (Replacer.pin r f) f).setFrame f
        { s.pool.frames f with pinCount := (s.pool.frames f).pinCount + 1 }) f := by
      refine PoolAt.trans (poolAt_replacer _ fun g hg he => ?_) (poolAt_setFrame _ _ _)
      simpa [hg] using he
    have hframe : ∀ b : BufferPool β ρ, ∀ x, (b.setFrame f x).frames f = x := fun b x =>
      Function.update_self _ _ _
    refine h.touchPool hat (fun g hne => ?_) (fun _ _ => rfl) ?_ h.freeNodup
    · simp [fetched, guardsAt_addGuard, newGuard, Ne.symm hne]
    · refine ⟨?_,?_,?_,?_,?_,?_,?_⟩
      · simp only [fetched, frame_addGuard, frame_setPool, hframe, guardsAt_addGuard, newGuard,
          guardsAt_setPool, opsAt_addGuard, opsAt_setPool, hops, if_true, List.length_cons,
          List.length_nil]
        exact congrArg (· + 1) hpins
      · simp [fetched, hops]
      · simp [fetched, hops]
      · simp only [fetched, frame_addGuard, frame_setPool, hframe, guardsAt_addGuard, newGuard,
          guardsAt_setPool, if_true]
        intro g hg
        rcases List.mem_cons.mp hg with rfl | hg
        · exact hpage
        · exact hi.guarded g hg
      · intro q hq
        obtain ⟨hne,hor⟩ := hi.mapped q hq
        refine ⟨hne,.inl ?_⟩
        simp only [fetched, frame_addGuard, frame_setPool, hframe]
        exact hi.pageId_of_mapped hq (.inl hv)
      · intro he
        simp [fetched, BufferPool.setFrame, BufferPool.mapReplacer] at he
      · intro hf
        have hst := (hi.unused hf).2.1.symm.trans hv
        cases hst
  · rw [he]
    refine h.select hsel rfl ?_ ?_ ?_ (fun q hq => ?_) (fun hz hs hf => ?_) fun hf => ?_
    · refine PoolAt.trans ?_ (poolAt_map _ p _)
      split
      · exact poolAt_setFrame _ _ _
      · exact ⟨fun _ _ => rfl,fun _ _ _ h => h,fun _ _ h => h,fun _ _ h => h⟩
    · cases sel.fromFreeList <;> rfl
    · cases sel.fromFreeList <;> rfl
    · by_cases hqp : q = p
      · exact .inr ⟨hqp ▸ hp,by rw [hqp]; rfl⟩
      · left
        rw [← selectFrame_table hsel]
        cases hfl : sel.fromFreeList <;>
          simpa [hfl, BufferPool.map, BufferPool.setFrame, hqp] using hq
    · cases hfl : sel.fromFreeList <;> rw [hfl] at hz hs
      · simp only at hz hs ⊢
        refine ⟨by simpa [BufferPool.map] using hz,.inr (by simpa [BufferPool.map] using hs),?_,?_⟩
        · simpa [BufferPool.map] using hz
        · simp [BufferPool.map, hfl]
      · simp only at hz hs ⊢
        refine ⟨by simp [BufferPool.map, BufferPool.setFrame],
          .inl (by simpa [BufferPool.map, BufferPool.setFrame] using hs),?_,?_⟩
        · simp [BufferPool.map, BufferPool.setFrame]
        · simp [BufferPool.map, BufferPool.setFrame, hfl]
    · simp [hf, BufferPool.map]

end Threads
end Buffer
end OurSql
