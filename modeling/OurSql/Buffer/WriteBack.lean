import OurSql.Buffer.WalOrder

/-! Write-backs: the log reaches the frame's LSN before the page reaches the data file,
on every path a page takes out of memory. -/
namespace OurSql
namespace Buffer

set_option linter.unusedSectionVars false

open BufferPool (Fetch Flush Release Finalize Restore)

variable {β ρ : Type} [Zero β] [DecidableEq β] [Replacer ρ]

namespace Threads

section Flushing

variable {s s' : Threads β ρ}

theorem Wal.raise (h : s.Wal) {l : Lsn} (hl : l ≤ s.appendLsn) :
    Wal { s with durableLsn := max s.durableLsn l } where
  covered f m hm := (h.covered f m hm).imp (fun hd => Nat.le_trans hd (Nat.le_max_left _ _)) id
  dirty f m hm := (h.dirty f m hm).imp (fun hd => Nat.le_trans hd (Nat.le_max_left _ _)) id
  settled o ho f hs m hm := Nat.le_trans (h.settled o ho f hs m hm) (Nat.le_max_left _ _)
  free f hf m hm := Nat.le_trans (h.free f hf m hm) (Nat.le_max_left _ _)
  onDisk p m hm := Nat.le_trans (h.onDisk p m hm) (Nat.le_max_left _ _)
  lsns := h.lsns
  durable := Nat.max_le.mpr ⟨h.durable,hl⟩
  logged := h.logged
  latched := h.latched

theorem Wal.setDisk (h : s.Wal) {f : FrameId} (hd : s.Durable f) (p : PageId) :
    Wal { s with onDisk := Function.update s.onDisk p (s.included f) } where
  covered := h.covered
  dirty := h.dirty
  settled := h.settled
  free := h.free
  onDisk q m hm := by
    by_cases hq : q = p
    · subst hq
      simp only [Function.update_self] at hm
      exact hd m hm
    · simp only [Function.update_of_ne hq] at hm
      exact h.onDisk q m hm
  lsns := h.lsns
  durable := h.durable
  logged := h.logged
  latched := h.latched

/-- What a write-back leaves. -/
structure Flushed (s t : Threads β ρ) (f : FrameId) (status : Status) : Prop where
  wal : t.Wal
  back : WritesBack s t
  included : t.included = s.included
  appendLsn : t.appendLsn = s.appendLsn
  durable : status = .ok () → t.Durable f

/-- Without a guard on the frame, its LSN covers whatever is not durable yet. -/
theorem flushFrameToDisk_spec (h : s.Wal) {f : FrameId} (hg : ∀ g ∈ s.guards, g.frame ≠ f)
    (p : PageId) (wal write : Status) : Flushed s (s.flushFrameToDisk p f wal write).2 f
      (s.flushFrameToDisk p f wal write).1 := by
  have hback := flushFrameToDisk_writesBack s p f wal write
  have hraise := h.raise (h.lsns f)
  have hd : Durable { s with durableLsn := max s.durableLsn (s.frame f).pageLsn } f := by
    intro l hm
    rcases h.covered f l hm with hd | hp | ⟨g,hmem,hgf,-⟩
    · exact Nat.le_trans hd (Nat.le_max_left _ _)
    · exact Nat.le_trans hp (Nat.le_max_right _ _)
    · exact absurd hgf (hg g hmem)
  revert hback
  simp only [flushFrameToDisk]
  split
  · exact fun hback => ⟨h,hback,rfl,rfl,fun he => by cases he⟩
  · cases write with
    | error e => exact fun hback => ⟨hraise,hback,rfl,rfl,fun he => by cases he⟩
    | ok u => exact fun hback => ⟨hraise.setDisk hd p,hback,rfl,rfl,fun _ => hd⟩

/-- A clean frame without a guard owes nothing. -/
theorem Wal.clean (h : s.Wal) {f : FrameId} (hg : ∀ g ∈ s.guards, g.frame ≠ f)
    (hc : (s.frame f).isDirty = false) : s.Durable f := by
  intro l hm
  rcases h.dirty f l hm with hd | hd | ⟨g,hmem,hgf,-⟩
  · exact hd
  · rw [hc] at hd
    cases hd
  · exact absurd hgf (hg g hmem)

theorem flushDirty_spec (h : s.Wal) {f : FrameId} (hg : ∀ g ∈ s.guards, g.frame ≠ f)
    (p : PageId) (wal write : Status) : Flushed s (s.flushDirty p f wal write).2 f
      (s.flushDirty p f wal write).1 := by
  simp only [flushDirty]
  split
  · exact flushFrameToDisk_spec h hg p wal write
  · next hc => exact ⟨h,⟨rfl,rfl,rfl⟩,rfl,rfl,fun _ => h.clean hg (by simpa using hc)⟩

theorem flushVictim_spec (h : s.Wal) {sel : FrameSelection}
    (hg : ∀ g ∈ s.guards, g.frame ≠ sel.frameId)
    (hfree : sel.fromFreeList = true → s.Durable sel.frameId) (oldPage : PageId)
    (wal write : Status) : Flushed s (s.flushVictim sel oldPage wal write).2 sel.frameId
      (s.flushVictim sel oldPage wal write).1 := by
  simp only [flushVictim]
  split
  · exact flushFrameToDisk_spec h hg oldPage wal write
  · next hc =>
    refine ⟨h,⟨rfl,rfl,rfl⟩,rfl,rfl,fun _ => ?_⟩
    cases hfl : sel.fromFreeList with
    | true => exact hfree hfl
    | false => exact h.clean hg (by simpa [hfl] using hc)

theorem flushVictim_free {sel : FrameSelection} (hfl : sel.fromFreeList = true)
    (oldPage : PageId) (wal write : Status) :
    (s.flushVictim sel oldPage wal write).1 = .ok () := by
  simp [flushVictim, hfl]

/-- An operation that holds the only pin shares the frame with no guard. -/
theorem Inv.no_guard (hi : s.Inv) {o : Op β} (ho : o ∈ s.ops) {f : FrameId}
    (hof : o.frame? = some f) (hp : (s.frame f).pinCount = 1) : ∀ g ∈ s.guards, g.frame ≠ f := by
  intro g hg hgf
  have hnil := ((hi.at_ f).solo (mem_opsAt.mpr ⟨ho,hof⟩) hp).1
  have hmem : g ∈ s.guardsAt f := mem_guardsAt.mpr ⟨hg,hgf⟩
  rw [hnil] at hmem
  cases hmem

/-- What the I/O of a load or an allocation leaves of the LSN and the dirty bit. -/
def KeepsLsn (b b' : BufferPool β ρ) (f : FrameId) (write : Status) : Prop :=
  (b'.frames f).isDirty = (b.frames f).isDirty ∧ ((b'.frames f).pageLsn = (b.frames f).pageLsn ∨
    write = .ok () ∧ (b'.frames f).pageLsn = invalidLsn)

theorem evictIo_keepsLsn (b : BufferPool β ρ) (sel : FrameSelection) (write : Status) :
    KeepsLsn b (b.evictIo sel write).2 sel.frameId write := by
  by_cases hc : (!sel.fromFreeList && (b.frames sel.frameId).isDirty) = true
  · cases write with
    | ok u =>
      simp [BufferPool.evictIo, hc, KeepsLsn, setFrame_self]
    | error e =>
      simp only [BufferPool.evictIo, hc, if_true]
      exact ⟨rfl,.inl rfl⟩
  · simp only [BufferPool.evictIo, hc]
    exact ⟨rfl,.inl rfl⟩

theorem KeepsLsn.setPage {b b' : BufferPool β ρ} {f : FrameId} {write : Status}
    (h : KeepsLsn b b' f write) (page : β) :
    KeepsLsn b (b'.setFrame f { b'.frames f with page := page }) f write := by
  simp only [KeepsLsn, setFrame_self]
  exact h

theorem loadIo_keepsLsn (b : BufferPool β ρ) (sel : FrameSelection) (write : Status)
    (loaded : Result β) : KeepsLsn b (b.loadIo sel write loaded).2 sel.frameId write := by
  have he := evictIo_keepsLsn b sel write
  unfold BufferPool.loadIo
  rcases hev : b.evictIo sel write with ⟨e | _,b₁⟩ <;> rw [hev] at he
  · exact he
  · cases loaded with
    | ok page => exact he.setPage page
    | error e =>
      cases sel.fromFreeList
      · exact he
      · exact he.setPage 0

theorem newIo_keepsLsn (b : BufferPool β ρ) (sel : FrameSelection) (write : Status)
    (allocated : Result PageId) : KeepsLsn b (b.newIo sel write allocated).2 sel.frameId write := by
  have he := evictIo_keepsLsn b sel write
  unfold BufferPool.newIo
  rcases hev : b.evictIo sel write with ⟨e | _,b₁⟩ <;> rw [hev] at he
  · exact he
  · cases allocated with
    | ok p => exact he
    | error e =>
      cases sel.fromFreeList
      · exact he
      · exact he.setPage 0

/-- After a write-back the frame may lose its LSN. -/
theorem Flushed.owes {f : FrameId} {status : Status} (h : Flushed s s' f status)
    {t : Threads β ρ} (hk : KeepsLsn s'.pool t.pool f status) (hincl : t.included = s'.included)
    (hdur : t.durableLsn = s'.durableLsn) : s'.Owes t f := by
  obtain ⟨hbit,hlsn | ⟨hok,hlsn⟩⟩ := hk
  · exact .inr ⟨by rw [hincl],hlsn,fun hd => hbit.trans hd⟩
  · refine .inl ⟨fun l hm => ?_,?_⟩
    · rw [hincl] at hm
      rw [hdur]
      exact h.durable hok l hm
    · show (t.pool.frames f).pageLsn ≤ _
      rw [hlsn]
      exact Nat.zero_le _

theorem owes_other {t : Threads β ρ} {f : FrameId} (hp : t.pool.frames f = s.pool.frames f)
    (hincl : t.included f = s.included f) : s.Owes t f := by
  refine .inr ⟨hincl,?_⟩
  simp only [frame, hp]
  exact ⟨trivial,id⟩

theorem loadIo_wal (h : s.Wal) (hi : s.Inv) {p : PageId} {sel : FrameSelection} {oldPage : PageId}
    {k : Access} {wal write : Status} {loaded : Result β}
    (hn : s.next (.loadIo p sel oldPage k wal write loaded) = some s') : s'.Wal := by
  simp only [next] at hn
  split at hn
  swap
  · simp at hn
  next hc =>
  have hg := hi.no_guard hc.1 rfl (hi.fits hc.1 rfl).2.1
  have hfree : sel.fromFreeList = true → (s.dropOp (.load p sel oldPage k)).Durable sel.frameId :=
    fun hfl => h.settled _ hc.1 _ (by simp [Op.settles, hfl])
  have hspec := flushVictim_spec (h.dropOp (.load p sel oldPage k)) hg hfree oldPage wal write
  have hok : sel.fromFreeList = true → ((s.dropOp (.load p sel oldPage k)).flushVictim sel oldPage
      wal write).1 = .ok () := fun hfl => flushVictim_free hfl oldPage wal write
  generalize (s.dropOp (.load p sel oldPage k)).flushVictim sel oldPage wal write = y
    at hn hspec hok
  obtain rfl := Option.some.inj hn
  have hkeep := loadIo_keepsLsn y.2.pool sel y.1 loaded
  have hover := loadIo_overwrites y.2.pool sel y.1 loaded
  generalize y.2.pool.loadIo sel y.1 loaded = z at hkeep hover
  -- the bytes come from the data file, or stay what they were
  by_cases hz : z.1 = .ok ()
  · rw [if_pos hz]
    have hself : (y.2.setIncluded sel.frameId (y.2.onDisk p)).included sel.frameId =
        y.2.onDisk p := Function.update_self _ _ _
    have hdur : Durable (((y.2.setIncluded sel.frameId (y.2.onDisk p)).setPool z.2).addOp
        (.loaded p sel oldPage k z.1)) sel.frameId := by
      intro l hm
      exact hspec.wal.onDisk p l (hself ▸ hm)
    refine hspec.wal.step ⟨rfl,rfl,rfl⟩ (fun f => ?_) (.inl rfl) (fun o ho => ?_)
      (fun f hf => .inl ?_) fun g hmem m hm => ?_
    · by_cases hf : f = sel.frameId
      · subst hf
        refine .inl ⟨hdur,?_⟩
        show (z.2.frames sel.frameId).pageLsn ≤ _
        rcases hkeep.2 with hl | ⟨-,hl⟩ <;> rw [hl]
        · exact hspec.wal.lsns _
        · exact Nat.zero_le _
      · exact owes_other (hover.others f hf) (Function.update_of_ne hf _ _)
    · rcases List.mem_cons.mp ho with rfl | ho
      · refine .inr fun f hs => ?_
        simp only [Op.settles, hz, or_true, if_true] at hs
        exact Option.some.inj hs ▸ hdur
      · exact .inl ho
    · have hf' : f ∈ z.2.freeFrames := hf
      rw [hover.freeFrames] at hf'
      exact hf'
    · have hne : g.frame ≠ sel.frameId := hg g (by rw [hspec.back.guards] at hmem; exact hmem)
      have hm' : m ∈ Function.update y.2.included sel.frameId (y.2.onDisk p) g.frame := hm
      rw [Function.update_of_ne hne] at hm'
      exact hm'
  · rw [if_neg hz]
    refine hspec.wal.step ⟨rfl,rfl,rfl⟩ (fun f => ?_) (.inl rfl) (fun o ho => ?_)
      (fun f hf => .inl ?_) fun _ _ _ hm => hm
    · by_cases hf : f = sel.frameId
      · subst hf
        exact hspec.owes hkeep rfl rfl
      · exact owes_other (hover.others f hf) rfl
    · rcases List.mem_cons.mp ho with rfl | ho
      · refine .inr fun f hs => ?_
        simp only [Op.settles, hz, or_false] at hs
        split at hs
        · next hfl => exact Option.some.inj hs ▸ hspec.durable (hok hfl)
        · cases hs
      · exact .inl ho
    · have hf' : f ∈ z.2.freeFrames := hf
      rw [hover.freeFrames] at hf'
      exact hf'

theorem newIo_wal (h : s.Wal) (hi : s.Inv) {sel : FrameSelection} {oldPage : PageId}
    {k : Access} {wal write : Status} {allocated : Result PageId}
    (hn : s.next (.newIo sel oldPage k wal write allocated) = some s') : s'.Wal := by
  simp only [next] at hn
  split at hn
  · simp at hn
  split at hn
  swap
  · simp at hn
  next hc =>
  have hg := hi.no_guard hc.1 rfl (hi.fits hc.1 rfl).2.1
  have hfree : sel.fromFreeList = true → (s.dropOp (.alloc sel oldPage k)).Durable sel.frameId :=
    fun hfl => h.settled _ hc.1 _ (by simp [Op.settles, hfl])
  have hspec := flushVictim_spec (h.dropOp (.alloc sel oldPage k)) hg hfree oldPage wal write
  have hok : sel.fromFreeList = true → ((s.dropOp (.alloc sel oldPage k)).flushVictim sel oldPage
      wal write).1 = .ok () := fun hfl => flushVictim_free hfl oldPage wal write
  generalize (s.dropOp (.alloc sel oldPage k)).flushVictim sel oldPage wal write = y
    at hn hspec hok
  obtain rfl := Option.some.inj hn
  have hkeep := newIo_keepsLsn y.2.pool sel y.1 allocated
  have hover := newIo_overwrites y.2.pool sel y.1 allocated
  generalize y.2.pool.newIo sel y.1 allocated = z at hkeep hover
  refine hspec.wal.step ⟨rfl,rfl,rfl⟩ (fun f => ?_) (.inl rfl) (fun o ho => ?_)
    (fun f hf => .inl ?_) fun _ _ _ hm => hm
  · by_cases hf : f = sel.frameId
    · subst hf
      exact hspec.owes hkeep rfl rfl
    · exact owes_other (hover.others f hf) rfl
  · rcases List.mem_cons.mp ho with rfl | ho
    · refine .inr fun f hs => ?_
      simp only [Op.settles] at hs
      split at hs
      · next hfl => exact Option.some.inj hs ▸ hspec.durable (hok hfl)
      · cases hs
    · exact .inl ho
  · have hf' : f ∈ z.2.freeFrames := hf
    rw [hover.freeFrames] at hf'
    exact hf'

/-- The op that remembers the outcome of a flush. -/
theorem Flushed.addFlushed {f : FrameId} {status : Status} (h : Flushed s s' f status) :
    (s'.addOp (.flushed f status)).Wal := by
  refine h.wal.addOp fun x hx => ?_
  simp only [Op.settles] at hx
  split at hx
  · next hok => exact Option.some.inj hx ▸ h.durable hok
  · cases hx

theorem flushIo_wal (h : s.Wal) (hi : s.Inv) {p : PageId} {f : FrameId} {wal write : Status}
    (hn : s.next (.flushIo p f wal write) = some s') : s'.Wal := by
  simp only [next] at hn
  split at hn
  swap
  · simp at hn
  next hc =>
  split at hn
  · obtain rfl := Option.some.inj hn
    exact h.dropOp _
  split at hn
  · next hp =>
    obtain rfl := Option.some.inj hn
    have hg := hi.no_guard hc.1 rfl hp
    exact (flushDirty_spec (h.dropOp (.flushing p f)) hg p wal write).addFlushed
  · simp at hn

theorem writeThroughIo_wal (h : s.Wal) (hi : s.Inv) {p : PageId} {f : FrameId}
    {wal write : Status} (hn : s.next (.writeThroughIo p f wal write) = some s') : s'.Wal := by
  simp only [next] at hn
  split at hn
  swap
  · simp at hn
  next hc =>
  obtain rfl := Option.some.inj hn
  have hg := hi.no_guard hc.1 rfl (hi.fits hc.1 rfl).2
  exact (flushFrameToDisk_spec (h.dropOp (.writeThrough p f)) hg p wal write).addFlushed

theorem finalizeIo_wal (h : s.Wal) (hi : s.Inv) {p : PageId} {f : FrameId}
    {wal write deallocate : Status}
    (hn : s.next (.finalizeIo p f wal write deallocate) = some s') : s'.Wal := by
  simp only [next] at hn
  split at hn
  swap
  · simp at hn
  next hc =>
  have hg := hi.no_guard hc.1 rfl (hi.fits hc.1 rfl).2.1
  have hspec := flushDirty_spec (h.dropOp (.finalizing p f)) hg p wal write
  generalize (s.dropOp (.finalizing p f)).flushDirty p f wal write = y at hn hspec
  obtain rfl := Option.some.inj hn
  have hmeta : SameMeta y.2.pool (y.2.pool.finalizeIo f y.1 deallocate).2 ∧
      (y.2.pool.finalizeIo f y.1 deallocate).2.freeFrames = y.2.pool.freeFrames := by
    simp only [BufferPool.finalizeIo]
    split
    · exact ⟨sameMeta_setFrame (.refl _) rfl rfl,rfl⟩
    · exact ⟨.refl _,rfl⟩
  generalize y.2.pool.finalizeIo f y.1 deallocate = z at hmeta
  by_cases hz : z.1 = .ok ()
  · rw [if_pos hz]
    -- the page is zeroed, so it holds no update at all
    have hself : (y.2.setIncluded f []).included f = [] := Function.update_self _ _ _
    have hdur : Durable (((y.2.setIncluded f []).setPool z.2).addOp (.finalized p f z.1)) f := by
      intro l hm
      exact absurd (hself ▸ hm) List.not_mem_nil
    refine hspec.wal.step ⟨rfl,rfl,rfl⟩ (fun x => ?_) (.inl rfl) (fun o ho => ?_)
      (fun x hx => .inl ?_) fun g hmem m hm => ?_
    · by_cases hx : x = f
      · subst hx
        refine .inl ⟨hdur,?_⟩
        show (z.2.frames x).pageLsn ≤ _
        rw [(hmeta.1 x).1]
        exact hspec.wal.lsns x
      · exact .inr ⟨Function.update_of_ne hx _ _,(hmeta.1 x).1,fun hd => (hmeta.1 x).2.trans hd⟩
    · rcases List.mem_cons.mp ho with rfl | ho
      · refine .inr fun x hs => ?_
        simp only [Op.settles, hz, if_true] at hs
        exact Option.some.inj hs ▸ hdur
      · exact .inl ho
    · rw [← hmeta.2]
      exact hx
    · have hne : g.frame ≠ f := hg g (by rw [hspec.back.guards] at hmem; exact hmem)
      have hm' : m ∈ Function.update y.2.included f [] g.frame := hm
      rw [Function.update_of_ne hne] at hm'
      exact hm'
  · rw [if_neg hz]
    refine Wal.addFreeOp ?_ (by simp only [Op.settles, hz, if_false])
    refine hspec.wal.meta hmeta.1 fun x hx => ?_
    rw [← hmeta.2]
    exact hx

end Flushing

/-! ### Committing the outcome -/

section Done

variable {s s' : Threads β ρ}

/-- A frame that owes nothing may drop its LSN and its dirty bit, and become free. -/
theorem Wal.settleFrame (h : s.Wal) {b : BufferPool β ρ} {f : FrameId} (hd : s.Durable f)
    (hother : ∀ g, g ≠ f → b.frames g = s.pool.frames g)
    (hlsn : (b.frames f).pageLsn ≤ s.appendLsn)
    (hfree : ∀ g ∈ b.freeFrames, g ∈ s.pool.freeFrames ∨ g = f) : (s.setPool b).Wal := by
  refine h.step ⟨rfl,rfl,rfl⟩ (fun g => ?_) (.inl rfl) (fun _ ho => .inl ho)
    (fun g hg => (hfree g hg).imp id fun he => ?_) fun _ _ _ hm => hm
  swap
  · rw [he]
    exact hd
  by_cases hg : g = f
  · exact hg ▸ .inl ⟨hd,hlsn⟩
  · exact owes_other (hother g hg) rfl

theorem returnFreeFrame_free (b : BufferPool β ρ) (f : FrameId) :
    ∀ g ∈ (b.returnFreeFrame f).2.freeFrames, g ∈ b.freeFrames ∨ g = f := by
  intro g hg
  by_cases hgf : g = f
  · exact .inr hgf
  · exact .inl ((returnFreeFrame_poolAt b f).free g hgf hg)

theorem loadDone_wal (h : s.Wal) {p : PageId} {sel : FrameSelection}
    {oldPage : PageId} {k : Access} {outcome : Status}
    (hn : s.next (.loadDone p sel oldPage k outcome) = some s') : s'.Wal := by
  simp only [next] at hn
  split at hn
  swap
  · simp at hn
  next hc =>
  have hd := h.dropOp (.loaded p sel oldPage k outcome)
  have hsettled := h.settled _ hc sel.frameId
  cases outcome with
  | error e =>
    simp only [BufferPool.finishLoad, pool_dropOp] at hn
    obtain rfl := Option.some.inj hn
    cases hfl : sel.fromFreeList
    · refine hd.meta ?_ fun _ hf => hf
      exact sameMeta_setFrame (sameMeta_of_frames rfl) rfl rfl
    · have hdur : s.Durable sel.frameId := hsettled (by simp [Op.settles, hfl])
      have hsame := (returnFreeFrame_same ((s.pool.unmap p).setFrame sel.frameId
        { (s.pool.unmap p).frames sel.frameId with
          page := 0, pageId := invalidPageId, pinCount := 0, isDirty := false, state := .empty })
        sel.frameId).1
      refine hd.settleFrame hdur (fun g hg => ?_) ?_ (returnFreeFrame_free _ _)
      · show (BufferPool.returnFreeFrame _ _).2.frames g = _
        rw [hsame]
        exact Function.update_of_ne hg _ _
      · show ((BufferPool.returnFreeFrame _ _).2.frames sel.frameId).pageLsn ≤ _
        rw [hsame,setFrame_self]
        exact h.lsns sel.frameId
  | ok u =>
    simp only [BufferPool.finishLoad, pool_dropOp] at hn
    obtain rfl := Option.some.inj hn
    have hdur : s.Durable sel.frameId := hsettled (by simp [Op.settles])
    refine Wal.addGuard ?_ rfl
    refine hd.settleFrame hdur (fun g hg => ?_) ?_ fun g hg => .inl ?_
    · rw [(poolAt_install _ _ _).frames g hg]
      cases sel.fromFreeList <;> rfl
    · rw [install_frame]
      exact Nat.zero_le _
    · revert hg
      cases sel.fromFreeList <;> exact id

theorem newDone_wal (h : s.Wal) (hi : s.Inv) {sel : FrameSelection} {oldPage : PageId}
    {k : Access} {outcome : Result PageId}
    (hn : s.next (.newDone sel oldPage k outcome) = some s') : s'.Wal := by
  simp only [next] at hn
  split at hn
  swap
  · simp at hn
  next hc =>
  have hd := h.dropOp (.allocated sel oldPage k outcome)
  have hsettled := h.settled _ hc sel.frameId
  have hg := hi.no_guard hc rfl (hi.fits hc rfl).2.1
  cases outcome with
  | error e =>
    simp only [BufferPool.finishNew, pool_dropOp] at hn
    obtain rfl := Option.some.inj hn
    cases hfl : sel.fromFreeList
    · refine hd.meta ?_ fun _ hf => hf
      exact sameMeta_setFrame (sameMeta_of_frames rfl) rfl rfl
    · have hdur : s.Durable sel.frameId := hsettled (by simp [Op.settles, hfl])
      have hsame := (returnFreeFrame_same (s.pool.setFrame sel.frameId
        { s.pool.frames sel.frameId with
          pageId := invalidPageId, pinCount := 0, isDirty := false, state := .empty })
        sel.frameId).1
      refine hd.settleFrame hdur (fun g hg => ?_) ?_ (returnFreeFrame_free _ _)
      · show (BufferPool.returnFreeFrame _ _).2.frames g = _
        rw [hsame]
        exact Function.update_of_ne hg _ _
      · show ((BufferPool.returnFreeFrame _ _).2.frames sel.frameId).pageLsn ≤ _
        rw [hsame,setFrame_self]
        exact h.lsns sel.frameId
  | ok p =>
    simp only [BufferPool.finishNew, pool_dropOp] at hn
    obtain rfl := Option.some.inj hn
    have hself : Function.update s.included sel.frameId [] sel.frameId = [] :=
      Function.update_self _ _ _
    refine Wal.addGuard ?_ rfl
    refine hd.step ⟨rfl,rfl,rfl⟩ (fun g => ?_) (.inl rfl) (fun _ ho => .inl ho)
      (fun g hx => .inl ?_) fun g hmem m hm => ?_
    · by_cases hgf : g = sel.frameId
      · refine .inl ⟨fun l hm => ?_,?_⟩
        · have hm' : l ∈ Function.update s.included sel.frameId [] g := hm
          rw [hgf,hself] at hm'
          cases hm'
        · rw [hgf]
          show ((BufferPool.install _ _ _).frames sel.frameId).pageLsn ≤ _
          rw [install_frame]
          exact Nat.zero_le _
      · refine owes_other ?_ (Function.update_of_ne hgf _ _)
        show (BufferPool.install _ _ _).frames g = _
        rw [(poolAt_install _ _ _).frames g hgf]
        cases sel.fromFreeList <;> exact Function.update_of_ne hgf _ _
    · revert hx
      cases sel.fromFreeList <;> exact id
    · have hm' : m ∈ Function.update s.included sel.frameId [] g.frame := hm
      rw [Function.update_of_ne (hg g hmem)] at hm'
      exact hm'

theorem flushDone_wal (h : s.Wal) {f : FrameId} {outcome : Status}
    (hn : s.next (.flushDone f outcome) = some s') : s'.Wal := by
  simp only [next] at hn
  split at hn
  swap
  · simp at hn
  next hc =>
  obtain rfl := Option.some.inj hn
  have hd := h.dropOp (.flushed f outcome)
  cases outcome with
  | error e =>
    refine hd.meta ?_ fun g hg => ?_
    · intro g
      by_cases hg : g = f
      · rw [hg]
        show ((BufferPool.unpinFrame _ f).2.frames f).pageLsn = _ ∧
          ((BufferPool.unpinFrame _ f).2.frames f).isDirty = _
        rw [unpinFrame_frame,setFrame_self]
        exact ⟨rfl,rfl⟩
      · rw [show (s.pool.finishFlush f (.error e)).frames g = s.pool.frames g from
          ((unpinFrame_poolAt _ _).frames g hg).trans (Function.update_of_ne hg _ _)]
        exact ⟨rfl,rfl⟩
    · have hg' : g ∈ (BufferPool.unpinFrame _ f).2.freeFrames := hg
      rw [(unpinFrame_table _ _).2] at hg'
      exact hg'
  | ok u =>
    have hdur : s.Durable f := h.settled _ hc f (by simp [Op.settles])
    refine hd.settleFrame hdur (fun g hg => ?_) ?_ fun g hg => .inl ?_
    · exact ((unpinFrame_poolAt _ _).frames g hg).trans (Function.update_of_ne hg _ _)
    · show ((BufferPool.unpinFrame _ f).2.frames f).pageLsn ≤ _
      rw [unpinFrame_frame,setFrame_self]
      exact Nat.zero_le _
    · have hg' : g ∈ (BufferPool.unpinFrame _ f).2.freeFrames := hg
      rw [(unpinFrame_table _ _).2] at hg'
      exact hg'

theorem finalizeDone_wal (h : s.Wal) {p : PageId} {f : FrameId} {outcome : Status}
    (hn : s.next (.finalizeDone p f outcome) = some s') : s'.Wal := by
  simp only [next] at hn
  split at hn
  swap
  · simp at hn
  next hc =>
  obtain rfl := Option.some.inj hn
  have hd := h.dropOp (.finalized p f outcome)
  cases outcome with
  | error e =>
    refine hd.meta ?_ fun _ hg => hg
    exact sameMeta_setFrame (.refl _) rfl rfl
  | ok u =>
    have hdur : s.Durable f := h.settled _ hc f (by simp [Op.settles])
    have hsame := (returnFreeFrame_same
      ((((s.pool.unmap p).setFrame f { (s.pool.unmap p).frames f with
        pageId := invalidPageId, pinCount := 0, isDirty := false, state := .empty }).setPending p
        false).mapReplacer fun r => Replacer.remove r f) f).1
    refine hd.settleFrame hdur (fun g hg => ?_) ?_ (returnFreeFrame_free _ _)
    · show (BufferPool.returnFreeFrame _ _).2.frames g = _
      rw [hsame]
      exact Function.update_of_ne hg _ _
    · show ((BufferPool.returnFreeFrame _ _).2.frames f).pageLsn ≤ _
      rw [hsame]
      have hself := setFrame_self (s.pool.unmap p) f { (s.pool.unmap p).frames f with
        pageId := invalidPageId, pinCount := 0, isDirty := false, state := .empty }
      exact Nat.le_trans (Nat.le_of_eq (congrArg Frame.pageLsn hself)) (h.lsns f)

end Done

/-! ### Runs -/

/-- Every operation but the before-image restore of an undo. -/
def LoggedStep (s : Threads β ρ) (a : Action β) (s' : Threads β ρ) : Prop :=
  a.isRestore = false ∧ s.next a = some s'

theorem allows_noRestore {a : Action β} (ha : a.isRestore = false) :
    Allows a fun o => o.isRestore = false where
  waits _ _ _ := rfl
  restores hr := by
    rw [ha] at hr
    cases hr
  others _ _ ho := ho

theorem next_wal {s s' : Threads β ρ} (h : s.Wal) (hi : s.Inv) {a : Action β}
    (ha : a.isRestore = false) (hn : s.next a = some s') : s'.Wal := by
  cases a with
  | fetch p k => exact fetch_wal h hn
  | wakeFetch p k => exact wakeFetch_wal h hn
  | loadIo p sel oldPage k wal write loaded => exact loadIo_wal h hi hn
  | loadDone p sel oldPage k outcome => exact loadDone_wal h hn
  | newPage k => exact newPage_wal h hn
  | newIo sel oldPage k wal write allocated => exact newIo_wal h hi hn
  | newDone sel oldPage k outcome => exact newDone_wal h hi hn
  | latch g => exact latch_wal h hn
  | write g page => exact write_wal h hn
  | markDirty g => exact markDirty_wal h hn
  | append g works => exact append_wal h hi hn
  | record g lsn => exact record_wal h hi hn
  | unlatch g => exact unlatch_wal h hn
  | release g => exact release_wal h hi hn
  | flushPage p => exact flushPage_wal h hn
  | wakeFlush p f => exact wakeFlush_wal h hn
  | flushIo p f wal write => exact flushIo_wal h hi hn
  | writeThroughIo p f wal write => exact writeThroughIo_wal h hi hn
  | flushDone f outcome => exact flushDone_wal h hn
  | beginDeletion p expectedPins => exact beginDeletion_wal h hn
  | cancelDeletion p => exact cancelDeletion_wal h hn
  | finalize p => exact finalize_wal h hn
  | finalizeIo p f wal write deallocate => exact finalizeIo_wal h hi hn
  | finalizeDone p f outcome => exact finalizeDone_wal h hn
  | finalizeUncached p deallocate => exact finalizeUncached_wal h hn
  | restorePage p image => cases ha
  | restoreIo f image write => cases ha
  | restoreDone f outcome => cases ha

theorem initial_wal (poolSize : ℕ) (policy : FlushPolicy) (lsn : Lsn) :
    (initial poolSize policy lsn : Threads β ρ).Wal where
  covered _ _ hm := absurd hm List.not_mem_nil
  dirty _ _ hm := absurd hm List.not_mem_nil
  settled _ ho := absurd ho List.not_mem_nil
  free _ _ _ hm := absurd hm List.not_mem_nil
  onDisk _ _ hm := absurd hm List.not_mem_nil
  lsns _ := Nat.zero_le _
  durable := Nat.le_refl _
  logged _ hg := absurd hg List.not_mem_nil
  latched _ hg := absurd hg List.not_mem_nil

theorem reach_wal {s : Threads β ρ} (h : Transition.Reach Initial LoggedStep s) : s.Wal := by
  have hall := h.invariant (P := fun s => s.Wal ∧ s.Inv ∧ s.WaitsValid ∧
    s.AllOps fun o => o.isRestore = false) ?_ ?_
  · exact hall.1
  · rintro s ⟨n,policy,lsn,rfl⟩
    exact ⟨initial_wal n policy lsn,initial_inv n policy lsn,fun o hx => absurd hx List.not_mem_nil,
      fun o hx => absurd hx List.not_mem_nil⟩
  · rintro s a s' ⟨hw,hi,hv,hr⟩ ⟨ha,hn⟩
    have hsteady : s.Steady a := fun f _ o ho hrest => by
      rw [hr o ho] at hrest
      cases hrest
    exact ⟨next_wal hw hi ha hn,next_inv hi hv hsteady hn,next_allOps hv (allows_waitsValid a) hn,
      next_allOps hr (allows_noRestore ha) hn⟩

/-- In every state of every run, whatever update a page of the data file contains is in
the durable log: no write-back ran ahead of it. -/
theorem wal_before_data {s : Threads β ρ} (h : Transition.Reach Initial LoggedStep s) :
    ∀ p, ∀ l ∈ s.onDisk p, l ≤ s.durableLsn :=
  (reach_wal h).onDisk

/-- A transaction updates the new page 5, releases it, and the page is flushed. -/
def flushedUpdate : List (Action ℕ) :=
  let k : Access := ⟨true,true⟩
  let sel : FrameSelection := ⟨0,true⟩
  [.newPage k,.newIo sel invalidPageId k (.ok ()) (.ok ()) (.ok 5),
    .newDone sel invalidPageId k (.ok 5),.latch ⟨0,5,k,.waiting,false,none⟩,
    .write ⟨0,5,k,.latched,false,some 0⟩ 9,.markDirty ⟨0,5,k,.latched,false,some 0⟩,
    .append ⟨0,5,k,.latched,true,some 0⟩ true,.record ⟨0,5,k,.logged 4,true,some 0⟩ 4,
    .unlatch ⟨0,5,k,.recorded,true,some 0⟩,.release ⟨0,5,k,.closed,true,some 0⟩,
    .flushPage 5,.flushIo 5 0 (.ok ()) (.ok ())]

theorem wal_before_data_flushedUpdate : ∃ s : Threads ℕ FIFOReplacer,
    s.onDisk 5 = [4] ∧ ∀ p, ∀ l ∈ s.onDisk p, l ≤ s.durableLsn := by
  have hrun : (Transition.exec (fun (s : Threads ℕ FIFOReplacer) a =>
      if a.isRestore then none else s.next a) (initial 1 .writeBack 3) flushedUpdate).map
      (fun s => s.onDisk 5) = some [4] := by decide
  obtain ⟨s,hx,hs⟩ := Option.map_eq_some_iff.mp hrun
  refine ⟨s,hs,wal_before_data ?_⟩
  have hreach := Transition.exec_reach (.init (show Initial _ from ⟨1,.writeBack,3,rfl⟩)) hx
  refine hreach.invariant (P := fun t => Transition.Reach Initial LoggedStep t) ?_ ?_
  · exact fun t ht => .init ht
  · intro t a t' ht hstep
    simp only [Transition.StepOf] at hstep
    split at hstep
    · cases hstep
    · next ha => exact ht.step ⟨by simpa using ha,hstep⟩

end Threads
end Buffer
end OurSql
