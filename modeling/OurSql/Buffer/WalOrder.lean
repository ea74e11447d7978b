import OurSql.Buffer.Wal

/-! The steps that change what a frame owes to the log: the log append of a guard, its
release, and every write-back. -/
namespace OurSql
namespace Buffer

set_option linter.unusedSectionVars false

open BufferPool (Fetch Flush Release Finalize Restore)

variable {β ρ : Type} [Zero β] [DecidableEq β] [Replacer ρ]

namespace Threads

section Guards

variable {s s' : Threads β ρ}

theorem mem_replaced {g g' h : Guard β} {l : List (Guard β)} (hm : h ∈ l) (hne : h ≠ g) :
    h ∈ g'::l.erase g := List.mem_cons_of_mem _ ((List.mem_erase_of_ne hne).mpr hm)

/-- The latch stays exclusive when one guard turns into another. -/
theorem Wal.latched_replace (h : s.Wal) {g g' : Guard β} (hg : g ∈ s.guards)
    (hf : g'.frame = g.frame) (ha : g'.access = g.access)
    (hlat : g'.hold.hasLatch = true → g.hold.hasLatch = true ∨ s.canLatch g = true) :
    ∀ x ∈ g'::s.guards.erase g, x.hold.hasLatch = true → x.access.writer = true →
      (g'::s.guards.erase g).countP (fun y => y.frame = x.frame && y.hold.hasLatch) ≤ 1 := by
  intro x hx hxl hxw
  have hsplit := (List.perm_cons_erase hg).countP_eq
    (fun y => y.frame = x.frame && y.hold.hasLatch)
  rw [List.countP_cons] at hsplit
  rw [List.countP_cons]
  -- an old holder of the latch bounds the old count
  have hold : x.frame = g.frame → g.hold.hasLatch = true → x = g' → s.guards.countP
      (fun y => y.frame = x.frame && y.hold.hasLatch) ≤ 1 := by
    rintro hxf hgl rfl
    rw [hxf]
    exact h.latched g hg hgl (by rw [← ha]; exact hxw)
  have hkeep : x ∈ s.guards → s.guards.countP
      (fun y => y.frame = x.frame && y.hold.hasLatch) ≤ 1 := fun hm => h.latched x hm hxl hxw
  by_cases hg' : (g'.frame = x.frame && g'.hold.hasLatch) = true
  · rw [Bool.and_eq_true,decide_eq_true_eq] at hg'
    have hxf : x.frame = g.frame := hg'.1.symm.trans hf
    rcases hlat hg'.2 with hgl | hcan
    · have hgp : (decide (g.frame = x.frame) && g.hold.hasLatch) = true := by simp [hxf, hgl]
      have hle : s.guards.countP (fun y => y.frame = x.frame && y.hold.hasLatch) ≤ 1 := by
        rcases List.mem_cons.mp hx with he | hm
        · exact hold hxf hgl he
        · exact hkeep (List.mem_of_mem_erase hm)
      rw [if_pos hgp] at hsplit
      split <;> omega
    · rcases List.mem_cons.mp hx with rfl | hm
      · -- the writer found the latch free
        have hzero : s.guards.countP (fun y => y.frame = x.frame && y.hold.hasLatch) = 0 := by
          refine List.countP_eq_zero.mpr fun y hy hp => ?_
          rw [Bool.and_eq_true,decide_eq_true_eq] at hp
          have hfree := List.all_eq_true.mp hcan y hy
          rw [ha] at hxw
          simp [hp.1, hp.2, hxf, hxw] at hfree
        split <;> omega
      · have hfree := List.all_eq_true.mp hcan x (List.mem_of_mem_erase hm)
        simp [hxf, hxl, hxw] at hfree
  · rw [if_neg hg']
    rcases List.mem_cons.mp hx with rfl | hm
    · exact absurd (by simp [hxl]) hg'
    · have := hkeep (List.mem_of_mem_erase hm)
      omega

/-- The rule for a step of a guard that adds nothing to the log. -/
theorem Wal.reguard (h : s.Wal) (hl : SameLog s s') (hincl : s'.included = s.included)
    (hmeta : ∀ f, (s'.frame f).pageLsn = (s.frame f).pageLsn ∧
      ((s.frame f).isDirty = true → (s'.frame f).isDirty = true))
    (hops : ∀ o ∈ s'.ops, o ∈ s.ops ∨ o.settles = none)
    (hfree : ∀ f ∈ s'.pool.freeFrames, f ∈ s.pool.freeFrames)
    (hkeep : ∀ g ∈ s.guards, ∀ l, g.hold = .logged l → g ∈ s'.guards)
    (hback : ∀ g ∈ s'.guards, ∀ l, g.hold = .logged l → g ∈ s.guards)
    (hset : ∀ g ∈ s.guards, g.settled = true → (s'.frame g.frame).isDirty = true ∨
      ∃ g' ∈ s'.guards, g'.frame = g.frame ∧ g'.settled = true)
    (hlat : ∀ x ∈ s'.guards, x.hold.hasLatch = true → x.access.writer = true →
      s'.guards.countP (fun y => y.frame = x.frame && y.hold.hasLatch) ≤ 1) : s'.Wal where
  covered f l hm := by
    rw [hincl] at hm
    rw [hl.durableLsn,(hmeta f).1]
    exact (h.covered f l hm).imp id fun hx => hx.imp id fun ⟨g,hg,hx⟩ =>
      ⟨g,hkeep g hg l hx.2,hx⟩
  dirty f l hm := by
    rw [hincl] at hm
    rw [hl.durableLsn]
    rcases h.dirty f l hm with hd | hd | ⟨g,hg,hgf,hgs⟩
    · exact .inl hd
    · exact .inr (.inl ((hmeta f).2 hd))
    · exact .inr (hgf ▸ hset g hg hgs)
  settled o ho f hs := by
    rcases hops o ho with hold | hnone
    · intro l hm
      rw [hincl] at hm
      rw [hl.durableLsn]
      exact h.settled o hold f hs l hm
    · rw [hnone] at hs
      cases hs
  free f hf l hm := by
    rw [hincl] at hm
    rw [hl.durableLsn]
    exact h.free f (hfree f hf) l hm
  onDisk p l hm := by
    rw [hl.onDisk] at hm
    rw [hl.durableLsn]
    exact h.onDisk p l hm
  lsns f := by
    rw [hl.appendLsn,(hmeta f).1]
    exact h.lsns f
  durable := by
    rw [hl.appendLsn,hl.durableLsn]
    exact h.durable
  logged g hg l hx := by
    rw [hl.appendLsn,hincl]
    exact h.logged g (hback g hg l hx) l hx
  latched := hlat

/-- One guard turns into another, neither of them between its log append and `page_lsn`. -/
theorem Wal.replaceGuard (h : s.Wal) {g g' : Guard β} (hg : g ∈ s.guards) (hl : SameLog s s')
    (hguards : s'.guards = g'::s.guards.erase g) (hincl : s'.included = s.included)
    (hmeta : SameMeta s.pool s'.pool) (hops : s'.ops = s.ops)
    (hfree : s'.pool.freeFrames = s.pool.freeFrames) (hf : g'.frame = g.frame)
    (ha : g'.access = g.access) (hno : ∀ l, g.hold ≠ .logged l) (hno' : ∀ l, g'.hold ≠ .logged l)
    (hset : g.settled = true → g'.settled = true)
    (hlat : g'.hold.hasLatch = true → g.hold.hasLatch = true ∨ s.canLatch g = true) :
    s'.Wal := by
  refine h.reguard hl hincl (fun f => ⟨(hmeta f).1,fun hd => (hmeta f).2.trans hd⟩)
    (fun o ho => .inl (hops ▸ ho)) (fun f hx => hfree ▸ hx) (fun x hx l hxl => ?_)
    (fun x hx l hxl => ?_) (fun x hx hxs => .inr ?_) ?_
  · rw [hguards]
    exact mem_replaced hx fun he => hno l (he ▸ hxl)
  · rw [hguards] at hx
    rcases List.mem_cons.mp hx with rfl | hx
    · exact absurd hxl (hno' l)
    · exact List.mem_of_mem_erase hx
  · rw [hguards]
    by_cases he : x = g
    · exact ⟨g',List.mem_cons_self,he ▸ hf,hset (he ▸ hxs)⟩
    · exact ⟨x,mem_replaced hx he,rfl,hxs⟩
  · rw [hguards]
    exact h.latched_replace hg hf ha hlat

theorem setPage_meta (s : Threads β ρ) (f : FrameId) (page : β) :
    SameMeta s.pool (s.setPage f page).pool := sameMeta_setFrame (.refl _) rfl rfl

theorem latch_wal (h : s.Wal) {g : Guard β} (hn : s.next (.latch g) = some s') : s'.Wal := by
  simp only [next] at hn
  split at hn
  swap
  · simp at hn
  next hc =>
  obtain rfl := Option.some.inj hn
  refine h.replaceGuard hc.1 ⟨rfl,rfl,rfl⟩ rfl rfl (.refl _) rfl rfl rfl rfl ?_ ?_ ?_ ?_
  · simp [hc.2.1]
  · simp
  · simp [Guard.settled, hc.2.1]
  · exact fun _ => .inr hc.2.2

theorem write_wal (h : s.Wal) {g : Guard β} {page : β} (hn : s.next (.write g page) = some s') :
    s'.Wal := by
  simp only [next] at hn
  split at hn
  · obtain rfl := Option.some.inj hn
    exact h.meta (setPage_meta s _ _) fun _ hf => hf
  · simp at hn

theorem markDirty_wal (h : s.Wal) {g : Guard β} (hn : s.next (.markDirty g) = some s') :
    s'.Wal := by
  simp only [next] at hn
  split at hn
  swap
  · simp at hn
  next hc =>
  obtain rfl := Option.some.inj hn
  refine h.replaceGuard hc.1 ⟨rfl,rfl,rfl⟩ rfl rfl (.refl _) rfl rfl rfl rfl ?_ ?_ ?_ ?_
  · simp [hc.2.1]
  · simp [hc.2.1]
  · simp [Guard.settled, hc.2.1]
  · exact fun hx => .inl hx

theorem unlatch_wal (h : s.Wal) {g : Guard β} (hn : s.next (.unlatch g) = some s') :
    s'.Wal := by
  simp only [next] at hn
  split at hn
  swap
  · simp at hn
  next hc =>
  obtain rfl := Option.some.inj hn
  refine h.replaceGuard hc.1 ⟨rfl,rfl,rfl⟩ rfl rfl (.refl _) rfl rfl rfl rfl ?_ ?_ ?_ ?_
  · rintro l he
    rcases hc.2 with hx | ⟨hx,-⟩ <;> rw [he] at hx <;> cases hx
  · simp
  · intro hs
    simp only [Guard.settled, Bool.and_eq_true] at hs ⊢
    exact ⟨hs.1,trivial⟩
  · exact fun hx => by simp [Hold.hasLatch] at hx

/-- Two guards inside the latch of one frame, one of them a writer, are one guard. -/
theorem Wal.alone_in_latch (h : s.Wal) {g x : Guard β} (hg : g ∈ s.guards) (hx : x ∈ s.guards)
    (hf : x.frame = g.frame) (hgl : g.hold.hasLatch = true) (hw : g.access.writer = true)
    (hxl : x.hold.hasLatch = true) : x = g := by
  by_contra hne
  have hle := h.latched g hg hgl hw
  have hsplit := (List.perm_cons_erase hg).countP_eq
    (fun y => y.frame = g.frame && y.hold.hasLatch)
  rw [List.countP_cons,if_pos (by simp [hgl])] at hsplit
  have hpos : 0 < (s.guards.erase g).countP (fun y => y.frame = g.frame && y.hold.hasLatch) :=
    List.countP_pos_iff.mpr ⟨x,(List.mem_erase_of_ne hne).mpr hx,by simp [hf, hxl]⟩
  omega

/-- A frame with a guard is not settled by any operation and is not free. -/
theorem Inv.unsettled (hi : s.Inv) {g : Guard β} (hg : g ∈ s.guards) :
    (∀ o ∈ s.ops, o.settles ≠ some g.frame) ∧ g.frame ∉ s.pool.freeFrames := by
  refine ⟨fun o ho hs => ?_,fun hf => hi.live_pinned hg ((hi.at_ _).unused hf).1⟩
  have hof : o.frame? = some g.frame := by
    cases o <;> simp only [Op.settles, Op.frame?] at hs ⊢ <;> (try split at hs) <;>
      first | exact hs | cases hs
  have hfit := hi.fits ho hof
  have hp : (s.frame g.frame).pinCount = 1 := by
    cases o <;> simp only [Op.settles] at hs <;> simp only [Op.Fits] at hfit <;>
      first | exact hfit.2.1 | exact hfit.2 | cases hs
  have hnil := ((hi.at_ g.frame).solo (mem_opsAt.mpr ⟨ho,hof⟩) hp).1
  have hmem : g ∈ s.guardsAt g.frame := mem_guardsAt.mpr ⟨hg,rfl⟩
  rw [hnil] at hmem
  cases hmem

theorem Wal.included_le (h : s.Wal) {f : FrameId} {l : Lsn} (hm : l ∈ s.included f) :
    l ≤ s.appendLsn := by
  rcases h.covered f l hm with hd | hp | ⟨g,hg,-,hl⟩
  · exact Nat.le_trans hd h.durable
  · exact Nat.le_trans hp (h.lsns f)
  · exact (h.logged g hg l hl).2.1

theorem append_logged_wal (h : s.Wal) (hi : s.Inv) {g : Guard β} (hg : g ∈ s.guards)
    (hold : g.hold = .latched) (hlogs : g.logs = true) :
    (({ s with appendLsn := s.appendLsn + 1 }.setIncluded g.frame
      ((s.appendLsn + 1)::s.included g.frame)).setGuard g
        { g with hold := .logged (s.appendLsn + 1) }).Wal := by
  obtain ⟨hsettled,hnfree⟩ := hi.unsettled hg
  have hdirty : g.dirty = true := by
    simp only [Guard.logs, Bool.and_eq_true] at hlogs
    exact hlogs.2
  have hwriter : g.access.writer = true := by
    simp only [Guard.logs, Bool.and_eq_true] at hlogs
    exact hlogs.1.1
  have hgl : g.hold.hasLatch = true := by rw [hold]; rfl
  have hself : Function.update s.included g.frame ((s.appendLsn + 1)::s.included g.frame) g.frame =
      (s.appendLsn + 1)::s.included g.frame := Function.update_self _ _ _
  have hother : ∀ f, f ≠ g.frame → Function.update s.included g.frame
      ((s.appendLsn + 1)::s.included g.frame) f = s.included f := fun f hf =>
    Function.update_of_ne hf _ _
  have hkeep : ∀ x ∈ s.guards, x ≠ g →
      x ∈ { g with hold := .logged (s.appendLsn + 1) }::s.guards.erase g := fun x hx hne =>
    mem_replaced hx hne
  -- an update that was there before, or the new one
  have hcase : ∀ f, ∀ l ∈ Function.update s.included g.frame
      ((s.appendLsn + 1)::s.included g.frame) f,
      l ∈ s.included f ∨ f = g.frame ∧ l = s.appendLsn + 1 := by
    intro f l hm
    by_cases hf : f = g.frame
    · subst hf
      rw [hself] at hm
      exact (List.mem_cons.mp hm).symm.imp id fun he => ⟨rfl,he⟩
    · rw [hother f hf] at hm
      exact .inl hm
  refine ⟨fun f l hm => ?_,fun f l hm => ?_,fun o ho f hs l hm => ?_,fun f hf l hm => ?_,h.onDisk,
    fun f => Nat.le_succ_of_le (h.lsns f),Nat.le_succ_of_le h.durable,fun x hx l hxl => ?_,?_⟩
  · rcases hcase f l hm with hm | ⟨rfl,rfl⟩
    · refine (h.covered f l hm).imp id fun hx => hx.imp id ?_
      rintro ⟨x,hx,hxf,hxl⟩
      exact ⟨x,hkeep x hx (fun he => by rw [he,hold] at hxl; cases hxl),hxf,hxl⟩
    · exact .inr (.inr ⟨_,List.mem_cons_self,rfl,rfl⟩)
  · rcases hcase f l hm with hm | ⟨rfl,rfl⟩
    · refine (h.dirty f l hm).imp id fun hx => hx.imp id ?_
      rintro ⟨x,hx,hxf,hxs⟩
      exact ⟨x,hkeep x hx (fun he => by simp [he, Guard.settled, hold] at hxs),hxf,hxs⟩
    · exact .inr (.inr ⟨_,List.mem_cons_self,rfl,by simp [Guard.settled, hdirty]⟩)
  · have hne : f ≠ g.frame := fun he => hsettled o ho (he ▸ hs)
    exact h.settled o ho f hs l (hother f hne ▸ hm)
  · have hne : f ≠ g.frame := fun he => hnfree (he ▸ hf)
    exact h.free f hf l (hother f hne ▸ hm)
  · rcases List.mem_cons.mp hx with rfl | hx
    · obtain rfl := Hold.logged.inj hxl
      refine ⟨hlogs,Nat.le_refl _,fun m hm => ?_⟩
      rcases hcase _ m hm with hm | ⟨-,rfl⟩
      · exact Nat.le_succ_of_le (h.included_le hm)
      · exact Nat.le_refl _
    · have hx := List.mem_of_mem_erase hx
      obtain ⟨hxlogs,hle,hmax⟩ := h.logged x hx l hxl
      have hne : x.frame ≠ g.frame := fun he => by
        have := h.alone_in_latch hg hx he hgl hwriter (by rw [hxl]; rfl)
        rw [this,hold] at hxl
        cases hxl
      exact ⟨hxlogs,Nat.le_succ_of_le hle,fun m hm => hmax m (hother _ hne ▸ hm)⟩
  · exact h.latched_replace hg rfl rfl fun _ => .inl hgl

theorem append_wal (h : s.Wal) (hi : s.Inv) {g : Guard β} {works : Bool}
    (hn : s.next (.append g works) = some s') : s'.Wal := by
  simp only [next] at hn
  split at hn
  swap
  · simp at hn
  next hc =>
  split at hn
  · obtain rfl := Option.some.inj hn
    exact append_logged_wal h hi hc.1 hc.2.1 hc.2.2
  · obtain rfl := Option.some.inj hn
    refine h.replaceGuard hc.1 ⟨rfl,rfl,rfl⟩ rfl rfl (setPage_meta s _ _) rfl rfl rfl rfl ?_ ?_ ?_ ?_
    · simp [hc.2.1]
    · simp
    · simp [Guard.settled, hc.2.1]
    · exact fun _ => .inl (by rw [hc.2.1]; rfl)

theorem setLsn_isDirty (s : Threads β ρ) (f : FrameId) (lsn : Lsn) (x : FrameId) :
    ((s.pool.setFrame f { s.frame f with pageLsn := lsn }).frames x).isDirty =
      (s.frame x).isDirty := by
  by_cases hx : x = f
  · rw [hx,setFrame_self]
  · exact congrArg Frame.isDirty (Function.update_of_ne hx _ _)

theorem record_wal (h : s.Wal) (hi : s.Inv) {g : Guard β} {lsn : Lsn}
    (hn : s.next (.record g lsn) = some s') : s'.Wal := by
  simp only [next] at hn
  split at hn
  swap
  · simp at hn
  next hc =>
  rw [if_pos ((hi.at_ g.frame).guarded g (mem_guardsAt.mpr ⟨hc.1,rfl⟩))] at hn
  obtain rfl := Option.some.inj hn
  obtain ⟨hlogs,hle,hmax⟩ := h.logged g hc.1 lsn hc.2
  have hdirty : g.dirty = true := by
    simp only [Guard.logs, Bool.and_eq_true] at hlogs
    exact hlogs.2
  have hself : ((s.pool.setFrame g.frame { s.frame g.frame with pageLsn := lsn }).frames g.frame) =
      { s.frame g.frame with pageLsn := lsn } := setFrame_self _ _ _
  have hother : ∀ f, f ≠ g.frame → (s.pool.setFrame g.frame
      { s.frame g.frame with pageLsn := lsn }).frames f = s.pool.frames f := fun f hf =>
    Function.update_of_ne hf _ _
  refine ⟨fun f l hm => ?_,fun f l hm => ?_,h.settled,h.free,h.onDisk,fun f => ?_,h.durable,
    fun x hx l hxl => ?_,h.latched_replace hc.1 rfl rfl fun _ => .inl (by rw [hc.2]; rfl)⟩
  · by_cases hf : f = g.frame
    · subst hf
      right; left
      show l ≤ ((s.pool.setFrame g.frame _).frames g.frame).pageLsn
      rw [hself]
      exact hmax l hm
    · rcases h.covered f l hm with hd | hp | ⟨x,hx,hxf,hxl⟩
      · exact .inl hd
      · right; left
        show l ≤ ((s.pool.setFrame g.frame _).frames f).pageLsn
        rw [hother f hf]
        exact hp
      · exact .inr (.inr ⟨x,mem_replaced hx fun he => hf (hxf ▸ he ▸ rfl),hxf,hxl⟩)
  · have hbit : ((s.pool.setFrame g.frame { s.frame g.frame with pageLsn := lsn }).frames f).isDirty =
        (s.frame f).isDirty := setLsn_isDirty s g.frame lsn f
    rcases h.dirty f l hm with hd | hd | ⟨x,hx,hxf,hxs⟩
    · exact .inl hd
    · exact .inr (.inl (hbit.trans hd))
    · by_cases he : x = g
      · exact .inr (.inr ⟨_,List.mem_cons_self,he ▸ hxf,by simp [Guard.settled, hdirty]⟩)
      · exact .inr (.inr ⟨x,mem_replaced hx he,hxf,hxs⟩)
  · show ((s.pool.setFrame g.frame _).frames f).pageLsn ≤ _
    by_cases hf : f = g.frame
    · rw [hf,hself]
      exact hle
    · rw [hother f hf]
      exact h.lsns f
  · rcases List.mem_cons.mp hx with rfl | hx
    · cases hxl
    · exact h.logged x (List.mem_of_mem_erase hx) l hxl

theorem release_wal (h : s.Wal) (hi : s.Inv) {g : Guard β}
    (hn : s.next (.release g) = some s') : s'.Wal := by
  simp only [next] at hn
  split at hn
  swap
  · simp at hn
  next hc =>
  have hpage : (s.pool.frames g.frame).pageId = g.page :=
    (hi.at_ _).guarded g (mem_guardsAt.mpr ⟨hc.1,rfl⟩)
  obtain ⟨x,-,⟨hlsn,-,hbit⟩,hout⟩ :=
    releaseGuard_cases (d := g.dirty) hpage (hi.live_pinned hc.1)
  -- the dirty bit of the guard is now the frame's
  have hrest : ∀ b : BufferPool β ρ, (∀ f, f ≠ g.frame → b.frames f = s.pool.frames f) →
      (b.frames g.frame).pageLsn = x.pageLsn → (b.frames g.frame).isDirty = x.isDirty →
      b.freeFrames = s.pool.freeFrames → ((s.dropGuard g).setPool b).Wal := by
    intro b hother hp hd hfree
    refine h.reguard ⟨rfl,rfl,rfl⟩ rfl (fun f => ?_) (fun o ho => .inl ho)
      (fun f hf => by rw [← hfree]; exact hf) (fun y hy l hyl => ?_)
      (fun y hy l hyl => List.mem_of_mem_erase hy) (fun y hy hys => ?_) fun y hy hyl hyw => ?_
    · rw [frame_setPool]
      by_cases hf : f = g.frame
      · rw [hf]
        refine ⟨hp.trans hlsn,fun hx => ?_⟩
        have hx' : (s.pool.frames g.frame).isDirty = true := hx
        rw [hd,hbit,hx']
        rfl
      · rw [hother f hf]
        exact ⟨rfl,id⟩
    · exact (List.mem_erase_of_ne fun he => by rw [he,hc.2] at hyl; cases hyl).mpr hy
    · by_cases he : y = g
      · left
        rw [frame_setPool,he,hd,hbit]
        rw [he] at hys
        simp only [Guard.settled, Bool.and_eq_true] at hys
        rw [hys.1,Bool.or_true]
      · exact .inr ⟨y,(List.mem_erase_of_ne he).mpr hy,rfl,hys⟩
    · have hle := h.latched y (List.mem_of_mem_erase hy) hyl hyw
      exact Nat.le_trans (List.erase_sublist.countP_le) hle
  rcases hout with ⟨-,-,he⟩ | he
  · simp only [pool_dropGuard, he] at hn
    obtain rfl := Option.some.inj hn
    refine Wal.addFreeOp ?_ rfl
    refine hrest _ (fun f hf => ?_) ?_ ?_ rfl
    · exact (Function.update_of_ne hf _ _).trans (Function.update_of_ne hf _ _)
    · rw [setFrame_self]
    · rw [setFrame_self]
  · simp only [pool_dropGuard, he] at hn
    obtain rfl := Option.some.inj hn
    refine hrest _ (fun f hf => ?_) ?_ ?_ (unpinFrame_table _ _).2
    · exact ((unpinFrame_poolAt _ _).frames f hf).trans (Function.update_of_ne hf _ _)
    · rw [unpinFrame_frame,setFrame_self]
    · rw [unpinFrame_frame,setFrame_self]

end Guards

end Threads
end Buffer
end OurSql
