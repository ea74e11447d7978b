import OurSql.Buffer.Bookkeeping
import OurSql.Buffer.WriteBack

/-! The pool over its disk. Beside the threads stand the pages of the data file and a flat
map of pages. The pool refines the map when the bytes of every page are in the frame that
holds it, and on the disk as soon as no frame does or the frame is clean. -/
namespace OurSql
namespace Buffer

set_option linter.unusedSectionVars false

variable {β ρ : Type} [Zero β] [DecidableEq β] [Replacer ρ]

/-- The page that gets its number from the disk in this step. -/
def Action.allocates : Action β → Option PageId
  | .newDone _ _ _ (.ok p) => some p
  | _ => none

/-- The page the disk gets back; that it was free already does not matter. -/
def Action.frees : Action β → Option PageId
  | .finalizeIo p _ _ _ deallocate | .finalizeUncached p deallocate =>
    if BufferPool.deallocated deallocate = .ok () then some p else none
  | _ => none

/-- `pages` is the flat map: the bytes last marked dirty for a page since it was allocated.
A page counts as allocated from the end of its `NewPage` on. -/
structure PageStore (β ρ : Type) where
  threads : Threads β ρ
  disk : PageId → β
  allocated : PageId → Bool
  pages : PageId → Option β

namespace PageStore

def save (x : PageStore β ρ) (p : PageId) (f : FrameId) : PageId → β :=
  Function.update x.disk p (x.threads.frame f).page

def saveDirty (x : PageStore β ρ) (p : PageId) (f : FrameId) : PageId → β :=
  if (x.threads.frame f).isDirty then x.save p f else x.disk

def saveVictim (x : PageStore β ρ) (sel : FrameSelection) (oldPage : PageId) : PageId → β :=
  if sel.fromFreeList then x.disk else x.saveDirty oldPage sel.frameId

/-- The data file after the write-back of the step, if it does one. -/
def written (x : PageStore β ρ) : Action β → PageId → β
  | .loadIo _ sel oldPage _ _ _ _ => x.saveVictim sel oldPage
  | .newIo sel oldPage _ _ _ _ => x.saveVictim sel oldPage
  | .flushIo p f _ _ => if (x.threads.frame f).state = .flushing then x.saveDirty p f else x.disk
  | .writeThroughIo p f _ _ => x.save p f
  | .finalizeIo p f _ _ _ => x.saveDirty p f
  | _ => x.disk

/-- What the step marks dirty: the bytes at `MarkDirty`, and those the guard writes later. -/
def marks (x : PageStore β ρ) : Action β → Option (PageId × β)
  | .markDirty g => some (g.page,(x.threads.frame g.frame).page)
  | .write g page => if g.dirty then some (g.page,page) else none
  | _ => none

def allocatedAfter (x : PageStore β ρ) (a : Action β) (p : PageId) : Bool :=
  a.allocates = some p || x.allocated p && a.frees ≠ some p

def pagesAfter (x : PageStore β ρ) (a : Action β) (p : PageId) : Option β :=
  if a.allocates = some p ∨ a.frees = some p then none
  else match x.marks a with
    | some (q,page) => if q = p ∧ x.allocated p = true then some page else x.pages p
    | none => x.pages p

/-- The disk and the log work. An allocated page is read as it was written, and is not handed
out again; about pages that are free nothing is promised. -/
def Answers (x : PageStore β ρ) : Action β → Prop
  | .loadIo p sel oldPage _ wal write loaded => wal = .ok () ∧ write = .ok () ∧
    (x.allocated p = true → loaded = .ok (x.saveVictim sel oldPage p))
  | .newIo _ _ _ wal write allocated => wal = .ok () ∧ write = .ok () ∧
    ∀ p, allocated = .ok p → x.allocated p = false
  | .flushIo _ _ wal write | .writeThroughIo _ _ wal write => wal = .ok () ∧ write = .ok ()
  | .finalizeIo p _ wal write deallocate => wal = .ok () ∧ write = .ok () ∧
    (x.allocated p = true → deallocate = .ok ())
  | .finalizeUncached p deallocate => x.allocated p = true → deallocate = .ok ()
  | .append _ works => works = true
  | _ => True

/-- A guard that changed bytes has called `MarkDirty` before it lets go of the latch. -/
def Marked (x : PageStore β ρ) : Action β → Prop
  | .unlatch g => g.dirty = true ∨ g.before = some (x.threads.frame g.frame).page
  | _ => True

/-- One section, piece of I/O or guard step, of one operation at a time. What the disk has in
the pages that are free, before or after the step, is left open. -/
structure Step (x : PageStore β ρ) (a : Action β) (x' : PageStore β ρ) : Prop where
  threads : x.threads.SerialStep a x'.threads
  answers : x.Answers a
  marked : x.Marked a
  disk : ∀ p, x.allocated p = true → x'.allocated p = true → x'.disk p = x.written a p
  allocated : x'.allocated = x.allocatedAfter a
  pages : x'.pages = x.pagesAfter a

/-- A new page is in no other frame and not reserved. -/
def FreshStep (x : PageStore β ρ) (a : Action β) (x' : PageStore β ρ) : Prop :=
  x.threads.Fresh a ∧ x.Step a x'

/-- A pool of `n` frames over any data file. -/
def Opened (n : ℕ) (x : PageStore β ρ) : Prop :=
  Threads.Opened n x.threads ∧ ∀ p, x.pages p = none

end PageStore

/-! ### What a frame holds -/

/-- What the operation has put in its frame, when it is not the page the frame names. -/
def Op.fills (f : FrameId) : Op β → Option (Option PageId)
  | .load _ sel _ _ | .loaded _ sel _ _ (.error _) =>
    if sel.fromFreeList ∧ sel.frameId = f then some none else none
  | .loaded p sel _ _ (.ok _) => if sel.frameId = f then some (some p) else none
  | .finalized _ g (.ok _) => if g = f then some none else none
  | _ => none

/-- Only the operation of the frame itself fills it. -/
theorem Op.frame_of_fills {o : Op β} {f : FrameId} {q : Option PageId} (h : o.fills f = some q) :
    o.frame? = some f := by
  cases o with
  | load p sel oldPage k =>
    simp only [Op.fills] at h
    split at h
    · next hc => exact congrArg some hc.2
    · cases h
  | loaded p sel oldPage k outcome =>
    cases outcome <;> simp only [Op.fills] at h <;> split at h
    · next hc => exact congrArg some hc.2
    · cases h
    · next hc => exact congrArg some hc
    · cases h
  | finalized p g outcome =>
    cases outcome <;> simp only [Op.fills] at h
    · cases h
    · split at h
      · next hc => exact congrArg some hc
      · cases h
  | _ => cases h

/-- The frame the operation has written back. -/
def Op.saved : Op β → Option FrameId
  | .loaded _ sel _ _ _ | .allocated sel _ _ _ => some sel.frameId
  | .flushed f _ | .finalized _ f _ => some f
  | _ => none

/-- The page a flush was begun for. -/
def Op.Names (x : FrameId → Frame β) : Op β → Prop
  | .flushing p f | .writeThrough p f => (x f).pageId = p
  | _ => True

def Frame.name (x : Frame β) : Option PageId :=
  if x.pageId = invalidPageId then none else some x.pageId

theorem Frame.name_some {x : Frame β} {p : PageId} (h : x.name = some p) : x.pageId = p ∧ p ≠ invalidPageId := by
  unfold Frame.name at h
  split at h
  · cases h
  · next hne => exact ⟨Option.some.inj h,Option.some.inj h ▸ hne⟩

theorem Frame.name_eq {x : Frame β} (h : x.pageId ≠ invalidPageId) : x.name = some x.pageId :=
  if_neg h

theorem Frame.name_none {x : Frame β} (h : x.pageId = invalidPageId) : x.name = none := if_pos h

/-- A writer in the latch that has not called `MarkDirty`. -/
def Guard.unmarked (g : Guard β) : Bool := g.hold.hasLatch && g.access.writer && !g.dirty

namespace Threads

/-- The page whose bytes the frame has. -/
def holds (s : Threads β ρ) (f : FrameId) : Option PageId :=
  (s.ops.head?.bind (Op.fills f)).getD (s.frame f).name

def Clean (s : Threads β ρ) (f : FrameId) : Prop :=
  (s.frame f).isDirty = false ∨ ∃ o ∈ s.ops, o.saved = some f

/-- Where the bytes of a page are; `saved` are those on the disk. A guard that has not called
`MarkDirty` yet knows them from the moment it got the latch. -/
structure Current (s : Threads β ρ) (saved : β) (p : PageId) (page : β) : Prop where
  frame : ∀ f, s.holds f = some p → (∀ g ∈ s.guards, g.frame = f → g.unmarked = false) →
    (s.frame f).page = page
  before : ∀ g ∈ s.guards, g.page = p → g.unmarked = true → g.before = some page
  clean : ∀ f, s.holds f = some p → s.Clean f →
    (∀ g ∈ s.guards, g.frame = f → g.dirty = false) → saved = page
  away : (∀ f, s.holds f ≠ some p) → saved = page

end Threads

/-- The invariant of the refinement. -/
structure PageStore.Refines (x : PageStore β ρ) : Prop where
  allocated : ∀ p page, x.pages p = some page → x.allocated p = true
  current : ∀ p page, x.pages p = some page → x.threads.Current (x.disk p) p page
  waiting : ∀ g ∈ x.threads.guards, g.hold = .waiting → g.dirty = false
  named : ∀ o ∈ x.threads.ops, o.Names x.threads.frame

namespace Threads

section Frames

variable {n : ℕ} {s s' : Threads β ρ} {f : FrameId} {p : PageId} {saved saved' page : β}

theorem holds_nil (ho : s.ops = []) (f : FrameId) : s.holds f = (s.frame f).name := by
  simp [holds,ho]

theorem holds_one {o : Op β} (ho : s.ops = [o]) (f : FrameId) :
    s.holds f = (o.fills f).getD (s.frame f).name := by
  simp [holds,ho]

theorem clean_nil (ho : s.ops = []) (f : FrameId) : s.Clean f ↔ (s.frame f).isDirty = false := by
  simp [Clean,ho]

/-- An operation that has put something into its frame is there alone. -/
theorem Inv.fills_alone (hi : s.Inv) {o : Op β} (ho : o ∈ s.ops) {q : Option PageId}
    (hq : o.fills f = some q) : (s.frame f).pinCount = 1 := by
  have hfit := hi.fits ho (Op.frame_of_fills hq)
  cases o <;> simp_all [Op.fills,Op.Fits]

/-- The page a frame holds is mapped to it. -/
theorem holds_mapped (hp : s.Placed n) (h : s.holds f = some p) :
    s.pool.pageTable p = some f := by
  have hname : (s.frame f).name = some p → s.pool.pageTable p = some f := fun hx => by
    obtain ⟨rfl,hne⟩ := Frame.name_some hx
    exact (hp.at_ f).owns hne
  rcases hs : s.ops with _ | ⟨o,l⟩
  · rw [holds_nil hs] at h
    exact hname h
  obtain ⟨hone,hop,-⟩ := hp.sole (o := o) (by simp [hs])
  rw [holds_one hone] at h
  cases hf : o.fills f with
  | none => exact hname (by simpa [hf] using h)
  | some q =>
    have hq : q = some p := by simpa [hf] using h
    subst hq
    cases o with
    | load q sel oldPage k => simp [Op.fills] at hf
    | loaded q sel oldPage k outcome =>
      cases outcome <;> simp only [Op.fills] at hf <;> split at hf <;> simp at hf
      · next hsel =>
        subst hf hsel
        exact hop.2.1
    | finalized q g outcome => cases outcome <;> simp [Op.fills] at hf
    | _ => cases hf

theorem holds_unique (hp : s.Placed n) {g : FrameId} (hf : s.holds f = some p)
    (hg : s.holds g = some p) : f = g :=
  Option.some.inj ((holds_mapped hp hf).symm.trans (holds_mapped hp hg))

/-- An operation that shares its frame with a guard is a flush that waits. -/
theorem Inv.op_frame (hi : s.Inv) {o : Op β} (ho : o ∈ s.ops) (hf : o.frame? = some f) :
    (s.frame f).pinCount = 1 ∨ (s.frame f).state = .flushing := by
  have hfit := hi.fits ho hf
  cases o <;> simp_all [Op.frame?,Op.Fits]

/-- A page that somebody has a guard on is in the guard's frame. -/
theorem holds_guard (hi : s.Inv) (hp : s.Placed n) {g : Guard β} (hg : g ∈ s.guards) :
    s.holds g.frame = some g.page := by
  have hmem : g ∈ s.guardsAt g.frame := mem_guardsAt.mpr ⟨hg,rfl⟩
  have hpage : (s.frame g.frame).pageId = g.page := (hi.at_ g.frame).guarded g hmem
  have hempty : (s.frame g.frame).state ≠ .empty := fun he =>
    hi.live_pinned hg ((hp.at_ g.frame).blank he).2
  have hname : (s.frame g.frame).state ≠ .loading → (s.frame g.frame).name = some g.page :=
    fun hl => (Frame.name_eq ((hp.at_ g.frame).named hempty hl)).trans (congrArg some hpage)
  rcases hs : s.ops with _ | ⟨o,l⟩
  · rw [holds_nil hs]
    exact hname fun hl => hp.calm hs g.frame (by rw [show (s.pool.frames g.frame).state = _ from hl]; trivial)
  have ho : o ∈ s.ops := by simp [hs]
  obtain ⟨hone,-,hcalm⟩ := hp.sole ho
  have hlone : o.frame? = some g.frame → (s.frame g.frame).state = .flushing := fun hf =>
    (hi.op_frame ho hf).resolve_left fun hpin => hi.no_guard ho hf hpin g hg rfl
  have hfill : o.fills g.frame = none := by
    refine Option.eq_none_iff_forall_ne_some.mpr fun q hq => ?_
    exact hi.no_guard ho (Op.frame_of_fills hq) (hi.fills_alone ho hq) g hg rfl
  rw [holds_one hone,hfill]
  refine hname fun hl => ?_
  by_cases hf : o.frame? = some g.frame
  · rw [hlone hf] at hl
    cases hl
  · exact hcalm g.frame hf (by rw [show (s.pool.frames g.frame).state = _ from hl]; trivial)

end Frames

/-! ### Keeping the bytes -/

section Keeping

variable {n : ℕ} {s s' : Threads β ρ} {f : FrameId} {p : PageId} {saved saved' page : β}

/-- A page whose frame, bytes and guards are what they were, or that is on the disk. -/
theorem Current.carry (h : s.Current saved p page)
    (hframe : ∀ f, s'.holds f = some p → s.holds f = some p ∧
      (s'.frame f).page = (s.frame f).page)
    (hsaved : saved' = page ∨ saved' = saved ∧
      ∀ f, s.holds f = some p → s'.holds f = some p ∧ (s'.Clean f → s.Clean f))
    (hkeep : ∀ g ∈ s.guards, g ∈ s'.guards)
    (hback : ∀ g ∈ s'.guards, g ∈ s.guards ∨ g.hold = .waiting) :
    s'.Current saved' p page where
  frame f hf hg := by
    obtain ⟨hold,hpage⟩ := hframe f hf
    rw [hpage]
    exact h.frame f hold fun g hm hgf => hg g (hkeep g hm) hgf
  before g hm hgp hu := by
    rcases hback g hm with hold | hw
    · exact h.before g hold hgp hu
    · simp [Guard.unmarked,hw,Hold.hasLatch] at hu
  clean f hf hc hg := by
    rcases hsaved with rfl | ⟨rfl,hs⟩
    · rfl
    have hold := (hframe f hf).1
    exact h.clean f hold ((hs f hold).2 hc) fun g hm hgf => hg g (hkeep g hm) hgf
  away ha := by
    rcases hsaved with rfl | ⟨rfl,hs⟩
    · rfl
    exact h.away fun f hf => ha f (hs f hf).1

/-- No page changed its place, its bytes or its guards. -/
structure Unmoved (s s' : Threads β ρ) : Prop where
  holds : ∀ f, s'.holds f = s.holds f
  page : ∀ f, s.holds f ≠ none → (s'.frame f).page = (s.frame f).page
  clean : ∀ f, s.holds f ≠ none → s'.Clean f → s.Clean f
  keep : ∀ g ∈ s.guards, g ∈ s'.guards
  back : ∀ g ∈ s'.guards, g ∈ s.guards ∨ g.hold = .waiting ∧ g.dirty = false

theorem Unmoved.current (hs : Unmoved s s') (h : s.Current saved p page) :
    s'.Current saved p page :=
  h.carry (fun f hf => by
      rw [hs.holds] at hf
      exact ⟨hf,hs.page f (by simp [hf])⟩)
    (.inr ⟨rfl,fun f hf => ⟨(hs.holds f).trans hf,hs.clean f (by simp [hf])⟩⟩)
    hs.keep fun g hg => (hs.back g hg).imp_right And.left

/-- One guard turns into another; only a guard that stops being unmarked says what its frame has. -/
theorem Current.regard (h : s.Current saved p page) {g g' : Guard β}
    (hguards : s'.guards = g'::s.guards.erase g) (hf : g'.frame = g.frame)
    (hd : g'.dirty = g.dirty) (hholds : ∀ f, s'.holds f = s.holds f)
    (hpage : ∀ f, (s'.frame f).page = (s.frame f).page) (hclean : ∀ f, s'.Clean f → s.Clean f)
    (hbefore : g'.page = p → g'.unmarked = true → g'.before = some page)
    (hclose : s.holds g.frame = some p → g.unmarked = true → g'.unmarked = false →
      (s.frame g.frame).page = page) : s'.Current saved p page where
  frame f hx hall := by
    rw [hholds] at hx
    rw [hpage]
    rw [hguards] at hall
    by_cases hc : g.frame = f ∧ g.unmarked = true
    · obtain ⟨rfl,hu⟩ := hc
      exact hclose hx hu (hall g' List.mem_cons_self hf)
    refine h.frame f hx fun k hk hkf => ?_
    by_cases hkg : k = g
    · exact Bool.eq_false_iff.mpr fun hu => hc ⟨hkg ▸ hkf,hkg ▸ hu⟩
    · exact hall k (mem_replaced hk hkg) hkf
  before k hk hkp hu := by
    rw [hguards] at hk
    rcases List.mem_cons.mp hk with rfl | hk
    · exact hbefore hkp hu
    · exact h.before k (List.mem_of_mem_erase hk) hkp hu
  clean f hx hc hall := by
    rw [hholds] at hx
    rw [hguards] at hall
    refine h.clean f hx (hclean f hc) fun k hk hkf => ?_
    by_cases hkg : k = g
    · subst hkg
      exact hd.symm.trans (hall g' List.mem_cons_self (hf.trans hkf))
    · exact hall k (mem_replaced hk hkg) hkf
  away ha := h.away fun f hx => ha f ((hholds f).trans hx)

/-- Nobody else is in the latch with a writer. -/
theorem Wal.writer_alone (hw : s.Wal) {g k : Guard β} (hg : g ∈ s.guards)
    (hl : g.hold.hasLatch = true) (hwr : g.access.writer = true) (hk : k ∈ s.guards.erase g)
    (hkf : k.frame = g.frame) : k.hold.hasLatch = false := by
  have hone := hw.latched g hg hl hwr
  rw [(List.perm_cons_erase hg).countP_eq,List.countP_cons_of_pos (by simp [hl])] at hone
  have hzero := List.countP_eq_zero.mp (Nat.le_zero.mp (Nat.le_of_add_le_add_right hone)) k hk
  simpa [hkf] using hzero

/-- A page whose writer has called `MarkDirty` is what its frame has. -/
theorem Current.of_writer (hi : s.Inv) (hp : s.Placed n) (hw : s.Wal) {g : Guard β}
    (hg : g ∈ s.guards) (hl : g.hold.hasLatch = true) (hwr : g.access.writer = true)
    (hd : g.dirty = true) (hpage : (s.frame g.frame).page = page) :
    s.Current saved g.page page where
  frame f hf _ := by
    rw [holds_unique hp hf (holds_guard hi hp hg)]
    exact hpage
  before k hk hkp hu := by
    have hkf : k.frame = g.frame :=
      holds_unique hp ((holds_guard hi hp hk).trans (congrArg some hkp)) (holds_guard hi hp hg)
    have hne : k ≠ g := by
      rintro rfl
      simp [Guard.unmarked,hd] at hu
    have hkl := hw.writer_alone hg hl hwr ((List.mem_erase_of_ne hne).mpr hk) hkf
    simp [Guard.unmarked,hkl] at hu
  clean f hf _ hall := by
    have hfg := holds_unique hp hf (holds_guard hi hp hg)
    exact absurd (hall g hg hfg.symm) (by simp [hd])
  away ha := absurd (holds_guard hi hp hg) (ha g.frame)

/-- What happens in the frame of another page. -/
theorem Current.apart (h : s.Current saved p page) (hf : s.holds f ≠ some p)
    (hholds : ∀ g, s'.holds g = s.holds g)
    (hpage : ∀ g, g ≠ f → (s'.frame g).page = (s.frame g).page)
    (hclean : ∀ g, g ≠ f → s'.Clean g → s.Clean g)
    (hguards : ∀ k : Guard β, k.frame ≠ f → (k ∈ s'.guards ↔ k ∈ s.guards))
    (hown : ∀ k ∈ s'.guards, k.page = p → k.frame ≠ f) : s'.Current saved p page where
  frame g hg hall := by
    rw [hholds] at hg
    have hne : g ≠ f := fun he => hf (he ▸ hg)
    rw [hpage g hne]
    exact h.frame g hg fun k hk hkg => hall k ((hguards k (hkg ▸ hne)).mpr hk) hkg
  before k hk hkp hu := h.before k ((hguards k (hown k hk hkp)).mp hk) hkp hu
  clean g hg hc hall := by
    rw [hholds] at hg
    have hne : g ≠ f := fun he => hf (he ▸ hg)
    exact h.clean g hg (hclean g hne hc) fun k hk hkg =>
      hall k ((hguards k (hkg ▸ hne)).mpr hk) hkg
  away ha := h.away fun g hg => ha g ((hholds g).trans hg)

/-- The bytes, the page number and the dirty bit of a frame. -/
def SameBytes (x x' : Frame β) : Prop :=
  x'.page = x.page ∧ x'.pageId = x.pageId ∧ x'.isDirty = x.isDirty

theorem SameBytes.name {x x' : Frame β} (h : SameBytes x x') : x'.name = x.name := by
  rw [Frame.name,Frame.name,h.2.1]

end Keeping

end Threads

namespace PageStore

variable {x x' : PageStore β ρ} {a : Action β}

/-- The rule for a step that marks nothing: each page that is still allocated is looked at. -/
theorem Refines.unmarked (h : x.Refines) (hstep : x.Step a x') (hmarks : x.marks a = none)
    (hcurrent : ∀ p page, x.pages p = some page → a.allocates ≠ some p → a.frees ≠ some p →
      x'.threads.Current (x.written a p) p page)
    (hwaiting : ∀ g ∈ x'.threads.guards, g.hold = .waiting → g.dirty = false)
    (hnamed : ∀ o ∈ x'.threads.ops, o.Names x'.threads.frame) : x'.Refines := by
  have hpages : ∀ p page, x'.pages p = some page → x.pages p = some page ∧
      a.allocates ≠ some p ∧ a.frees ≠ some p := by
    intro p page hp
    rw [hstep.pages,pagesAfter] at hp
    split at hp
    · cases hp
    · next hc =>
      rw [hmarks] at hp
      exact ⟨hp,not_or.mp hc⟩
  have hallocated : ∀ p page, x'.pages p = some page → x'.allocated p = true := by
    intro p page hp
    obtain ⟨hp,-,hf⟩ := hpages p page hp
    rw [hstep.allocated,allocatedAfter]
    simp [h.allocated p page hp,hf]
  refine ⟨hallocated,fun p page hp => ?_,hwaiting,hnamed⟩
  obtain ⟨hp',ha,hf⟩ := hpages p page hp
  rw [hstep.disk p (h.allocated p page hp') (hallocated p page hp)]
  exact hcurrent p page hp' ha hf

theorem Refines.unmoved (h : x.Refines) (hstep : x.Step a x') (hmarks : x.marks a = none)
    (hwritten : x.written a = x.disk) (hs : x.threads.Unmoved x'.threads)
    (hnamed : ∀ o ∈ x'.threads.ops, o.Names x'.threads.frame) : x'.Refines := by
  refine h.unmarked hstep hmarks (fun p page hp _ _ => ?_) (fun g hg hw => ?_) hnamed
  · rw [hwritten]
    exact hs.current (h.current p page hp)
  · rcases hs.back g hg with hold | hnew
    · exact h.waiting g hold hw
    · exact hnew.2

theorem Refines.marked (h : x.Refines) (hstep : x.Step a x') {q : PageId} {bytes : β}
    (hmarks : x.marks a = some (q,bytes)) (hallocates : a.allocates = none)
    (hfrees : a.frees = none) (hwritten : x.written a = x.disk)
    (hself : ∀ saved, x'.threads.Current saved q bytes)
    (hothers : ∀ p page, p ≠ q → x.pages p = some page → x'.threads.Current (x.disk p) p page)
    (hwaiting : ∀ g ∈ x'.threads.guards, g.hold = .waiting → g.dirty = false)
    (hnamed : ∀ o ∈ x'.threads.ops, o.Names x'.threads.frame) : x'.Refines := by
  have hpages : ∀ p page, x'.pages p = some page →
      p = q ∧ x.allocated p = true ∧ page = bytes ∨ p ≠ q ∧ x.pages p = some page := by
    intro p page hp
    rw [hstep.pages,pagesAfter,if_neg (by simp [hallocates,hfrees]),hmarks] at hp
    dsimp only at hp
    by_cases hpq : p = q
    · by_cases hal : x.allocated p = true
      · rw [if_pos ⟨hpq.symm,hal⟩] at hp
        exact .inl ⟨hpq,hal,(Option.some.inj hp).symm⟩
      · rw [if_neg fun hc => hal hc.2] at hp
        exact absurd (h.allocated p page hp) hal
    · rw [if_neg fun hc => hpq hc.1.symm] at hp
      exact .inr ⟨hpq,hp⟩
  have hallocated : ∀ p, x'.allocated p = x.allocated p := fun p => by
    simp [hstep.allocated,allocatedAfter,hallocates,hfrees]
  refine ⟨fun p page hp => ?_,fun p page hp => ?_,hwaiting,hnamed⟩
  · rw [hallocated]
    rcases hpages p page hp with ⟨-,hal,-⟩ | ⟨-,hold⟩
    · exact hal
    · exact h.allocated p page hold
  · rcases hpages p page hp with ⟨rfl,-,rfl⟩ | ⟨hne,hold⟩
    · exact hself _
    · have hal := h.allocated p page hold
      rw [hstep.disk p hal ((hallocated p).trans hal),hwritten]
      exact hothers p page hne hold

/-! ### The steps of a guard -/

section Guards

variable {n : ℕ} {g : Guard β}

theorem latch_refines (h : x.Refines) (hi : x.threads.Inv) (hp : x.threads.Placed n)
    (hstep : x.Step (.latch g) x') : x'.Refines := by
  have hn := hstep.threads.2.2
  simp only [Threads.next] at hn
  split at hn
  swap
  · simp at hn
  next hc =>
  have hs' := (Option.some.inj hn).symm
  refine h.unmarked hstep rfl (fun p page hx _ _ => ?_) (fun k hk hw => ?_) fun o ho => ?_
  · rw [hs']
    refine (h.current p page hx).regard rfl rfl rfl (fun _ => rfl) (fun _ => rfl) (fun _ => id)
      (fun hpg hu => ?_) fun _ hu => ?_
    · refine congrArg some ((h.current p page hx).frame g.frame ?_ fun k hk hkf => ?_)
      · exact (Threads.holds_guard hi hp hc.1).trans (congrArg some hpg)
      · -- a writer found the latch free
        have hfree := List.all_eq_true.mp hc.2.2 k hk
        have hwr : g.access.writer = true := by
          simp only [Guard.unmarked,Bool.and_eq_true] at hu
          exact hu.1.2
        have hkl : k.hold.hasLatch = false := by simpa [hkf,hwr] using hfree
        simp [Guard.unmarked,hkl]
    · simp [Guard.unmarked,hc.2.1,Hold.hasLatch] at hu
  · rw [hs'] at hk
    rcases List.mem_cons.mp hk with rfl | hk
    · cases hw
    · exact h.waiting k (List.mem_of_mem_erase hk) hw
  · rw [hs'] at ho ⊢
    exact h.named o ho

theorem unlatch_refines (h : x.Refines) (hi : x.threads.Inv) (hp : x.threads.Placed n)
    (hstep : x.Step (.unlatch g) x') : x'.Refines := by
  have hn := hstep.threads.2.2
  simp only [Threads.next] at hn
  split at hn
  swap
  · simp at hn
  next hc =>
  have hs' := (Option.some.inj hn).symm
  refine h.unmarked hstep rfl (fun p page hx _ _ => ?_) (fun k hk hw => ?_) fun o ho => ?_
  · rw [hs']
    refine (h.current p page hx).regard rfl rfl rfl (fun _ => rfl) (fun _ => rfl) (fun _ => id)
      (fun _ hu => ?_) fun hf hu _ => ?_
    · simp [Guard.unmarked,Hold.hasLatch] at hu
    · -- the bytes are those from before, and before they were the page's
      have hpg : g.page = p := Option.some.inj ((Threads.holds_guard hi hp hc.1).symm.trans hf)
      have hbefore := (h.current p page hx).before g hc.1 hpg hu
      have hsame : g.dirty = true ∨ g.before = some (x.threads.frame g.frame).page :=
        hstep.marked
      rcases hsame with hd | hsame
      · simp [Guard.unmarked,hd] at hu
      · exact Option.some.inj (hsame.symm.trans hbefore)
  · rw [hs'] at hk
    rcases List.mem_cons.mp hk with rfl | hk
    · cases hw
    · exact h.waiting k (List.mem_of_mem_erase hk) hw
  · rw [hs'] at ho ⊢
    exact h.named o ho

/-- The log append and `page_lsn`: the guard stays marked. -/
theorem Refines.logged (h : x.Refines) (hstep : x.Step a x') (hmarks : x.marks a = none)
    (hwritten : x.written a = x.disk) (g g' : Guard β) (hd : g.dirty = true)
    (hguards : x'.threads.guards = g'::x.threads.guards.erase g) (hf : g'.frame = g.frame)
    (hd' : g'.dirty = true) (hw' : g'.hold ≠ .waiting) (hops : x'.threads.ops = x.threads.ops)
    (hframe : ∀ f, Threads.SameBytes (x.threads.frame f) (x'.threads.frame f)) : x'.Refines := by
  refine h.unmarked hstep hmarks (fun p page hx _ _ => ?_) (fun k hk hw => ?_) fun o ho => ?_
  · rw [hwritten]
    refine (h.current p page hx).regard hguards hf (hd'.trans hd.symm) (fun f => ?_)
      (fun f => (hframe f).1) (fun f => ?_) (fun _ hu => ?_) fun _ hu => ?_
    · rw [Threads.holds,Threads.holds,hops,(hframe f).name]
    · rw [Threads.Clean,Threads.Clean,hops,(hframe f).2.2]
      exact id
    · simp [Guard.unmarked,hd'] at hu
    · simp [Guard.unmarked,hd] at hu
  · rw [hguards] at hk
    rcases List.mem_cons.mp hk with rfl | hk
    · exact absurd hw hw'
    · exact h.waiting k (List.mem_of_mem_erase hk) hw
  · rw [hops] at ho
    have hold := h.named o ho
    cases o <;> simp only [Op.Names,(hframe _).2.1] at hold ⊢ <;> exact hold

theorem append_refines (h : x.Refines) {works : Bool} (hstep : x.Step (.append g works) x') :
    x'.Refines := by
  have hn := hstep.threads.2.2
  have hworks : works = true := hstep.answers
  simp only [Threads.next,hworks,if_true] at hn
  split at hn
  swap
  · simp at hn
  next hc =>
  have hs' := (Option.some.inj hn).symm
  have hd : g.dirty = true := by
    have hlogs := hc.2.2
    simp only [Guard.logs,Bool.and_eq_true] at hlogs
    exact hlogs.2
  refine h.logged hstep rfl rfl g { g with hold := .logged (x.threads.appendLsn + 1) } hd ?_ rfl
    hd (by simp) ?_ fun f => ?_
  · rw [hs']
    rfl
  · rw [hs']
    rfl
  · rw [hs']
    exact ⟨rfl,rfl,rfl⟩

theorem record_refines (h : x.Refines) (hi : x.threads.Inv) (hw : x.threads.Wal) {lsn : Lsn}
    (hstep : x.Step (.record g lsn) x') : x'.Refines := by
  have hn := hstep.threads.2.2
  simp only [Threads.next] at hn
  split at hn
  swap
  · simp at hn
  next hc =>
  have hpage : (x.threads.frame g.frame).pageId = g.page :=
    (hi.at_ g.frame).guarded g (Threads.mem_guardsAt.mpr ⟨hc.1,rfl⟩)
  rw [if_pos hpage] at hn
  have hs' := (Option.some.inj hn).symm
  have hd : g.dirty = true := by
    have hlogs := (hw.logged g hc.1 lsn hc.2).1
    simp only [Guard.logs,Bool.and_eq_true] at hlogs
    exact hlogs.2
  refine h.logged hstep rfl rfl g { g with hold := .recorded } hd ?_ rfl hd (by simp) ?_
    fun f => ?_
  · rw [hs']
    rfl
  · rw [hs']
    rfl
  · rw [hs']
    by_cases hf : f = g.frame
    · subst hf
      simp [Threads.SameBytes,Threads.setGuard,Threads.setPool,Threads.addGuard,
        Threads.dropGuard,Threads.frame,BufferPool.setFrame]
    · simp [Threads.SameBytes,Threads.setGuard,Threads.setPool,Threads.addGuard,
        Threads.dropGuard,Threads.frame,BufferPool.setFrame,hf]

theorem markDirty_refines (h : x.Refines) (hi : x.threads.Inv) (hp : x.threads.Placed n)
    (hi' : x'.threads.Inv) (hp' : x'.threads.Placed n) (hw' : x'.threads.Wal)
    (hstep : x.Step (.markDirty g) x') : x'.Refines := by
  have hn := hstep.threads.2.2
  simp only [Threads.next] at hn
  split at hn
  swap
  · simp at hn
  next hc =>
  have hs' := (Option.some.inj hn).symm
  have hguards : x'.threads.guards = { g with dirty := true }::x.threads.guards.erase g := by
    rw [hs']
    rfl
  have hframe : ∀ f, x'.threads.frame f = x.threads.frame f := fun f => by
    rw [hs']
    rfl
  have hholds : ∀ f, x'.threads.holds f = x.threads.holds f := fun f => by
    rw [hs']
    rfl
  have hown := Threads.holds_guard hi hp hc.1
  refine h.marked hstep rfl rfl rfl rfl (fun saved => ?_) (fun p page hpg hx => ?_)
    (fun k hk hw => ?_) fun o ho => ?_
  · refine Threads.Current.of_writer hi' hp' hw' (g := { g with dirty := true }) ?_ ?_ hc.2.2 rfl
      (congrArg Frame.page (hframe g.frame))
    · simp [hguards]
    · simp [hc.2.1,Hold.hasLatch]
  · have hne : x.threads.holds g.frame ≠ some p := by
      rw [hown]
      exact fun he => hpg (Option.some.inj he).symm
    refine (h.current p page hx).apart hne hholds (fun f _ => congrArg Frame.page (hframe f))
      (fun f _ => ?_) (fun k hk => ?_) fun k hk hkp hkf => ?_
    · rw [hs']
      exact id
    · rw [hguards]
      have hkg : k ≠ g := by
        rintro rfl
        exact hk rfl
      have hkg' : k ≠ { g with dirty := true } := by
        rintro rfl
        exact hk rfl
      simp [hkg,hkg',List.mem_erase_of_ne]
    · have hkown := Threads.holds_guard hi' hp' hk
      rw [hkf,hkp,hholds] at hkown
      exact hne hkown
  · rw [hguards] at hk
    rcases List.mem_cons.mp hk with rfl | hk
    · simp [hc.2.1] at hw
    · exact h.waiting k (List.mem_of_mem_erase hk) hw
  · rw [hs'] at ho ⊢
    exact h.named o ho

theorem write_refines (h : x.Refines) (hi : x.threads.Inv) (hp : x.threads.Placed n)
    (hi' : x'.threads.Inv) (hp' : x'.threads.Placed n) (hw' : x'.threads.Wal) {bytes : β}
    (hstep : x.Step (.write g bytes) x') : x'.Refines := by
  have hn := hstep.threads.2.2
  simp only [Threads.next] at hn
  split at hn
  swap
  · simp at hn
  next hc =>
  have hs' := (Option.some.inj hn).symm
  have hguards : x'.threads.guards = x.threads.guards := by
    rw [hs']
    rfl
  have hframe : ∀ f, x'.threads.frame f =
      if f = g.frame then { x.threads.frame f with page := bytes } else x.threads.frame f := by
    intro f
    rw [hs']
    by_cases hf : f = g.frame
    · subst hf
      simp [Threads.setPage,Threads.setPool,Threads.frame,BufferPool.setFrame]
    · simp [Threads.setPage,Threads.setPool,Threads.frame,BufferPool.setFrame,hf]
  have hpageId : ∀ f, (x'.threads.frame f).pageId = (x.threads.frame f).pageId := fun f => by
    rw [hframe]
    split <;> rfl
  have hops : x'.threads.ops = x.threads.ops := by
    rw [hs']
    rfl
  have hholds : ∀ f, x'.threads.holds f = x.threads.holds f := fun f => by
    rw [Threads.holds,Threads.holds,hops,Frame.name,Frame.name,hpageId]
  have hclean : ∀ f, x'.threads.Clean f ↔ x.threads.Clean f := fun f => by
    rw [Threads.Clean,Threads.Clean,hops,hframe]
    split <;> exact Iff.rfl
  have hown := Threads.holds_guard hi hp hc.1
  have hl : g.hold.hasLatch = true := by simp [hc.2.1,Hold.hasLatch]
  have hothers : ∀ p page, p ≠ g.page → x.pages p = some page →
      x'.threads.Current (x.disk p) p page := by
    intro p page hpg hx
    have hne : x.threads.holds g.frame ≠ some p := by
      rw [hown]
      exact fun he => hpg (Option.some.inj he).symm
    refine (h.current p page hx).apart hne hholds (fun f hf => ?_) (fun f _ => (hclean f).mp)
      (fun k _ => by rw [hguards]) fun k hk hkp hkf => ?_
    · rw [hframe,if_neg hf]
    · have hkown := Threads.holds_guard hi' hp' hk
      rw [hkf,hkp,hholds] at hkown
      exact hne hkown
  have hwaiting : ∀ k ∈ x'.threads.guards, k.hold = .waiting → k.dirty = false := by
    rw [hguards]
    exact h.waiting
  have hnamed : ∀ o ∈ x'.threads.ops, o.Names x'.threads.frame := by
    intro o ho
    rw [hops] at ho
    have hold := h.named o ho
    cases o <;> simp only [Op.Names,hpageId] at hold ⊢ <;> exact hold
  by_cases hd : g.dirty = true
  · have hmarks : x.marks (.write g bytes) = some (g.page,bytes) := by simp [marks,hd]
    refine h.marked hstep hmarks rfl rfl rfl (fun saved => ?_) hothers hwaiting hnamed
    refine Threads.Current.of_writer hi' hp' hw' (hguards ▸ hc.1) hl hc.2.2 hd ?_
    rw [hframe,if_pos rfl]
  · -- the guard has not called MarkDirty, so nothing is said of its frame
    have hu : g.unmarked = true := by simp [Guard.unmarked,hl,hc.2.2,hd]
    refine h.unmarked hstep (by simp [marks,hd]) (fun p page hx _ _ => ?_) hwaiting hnamed
    by_cases hpg : p = g.page
    · subst hpg
      have hcur := h.current g.page page hx
      refine ⟨fun f hf hall => ?_,fun k hk => ?_,fun f hf hcl hall => ?_,fun ha => ?_⟩
      · rw [hholds] at hf
        rw [Threads.holds_unique hp hf hown] at hall
        exact absurd hu (by simp [hall g (hguards ▸ hc.1) rfl])
      · exact hcur.before k (hguards ▸ hk)
      · rw [hholds] at hf
        exact hcur.clean f hf ((hclean f).mp hcl) (hguards ▸ hall)
      · exact absurd ((hholds g.frame).trans hown) (ha g.frame)
    · exact hothers p page hpg hx

theorem release_refines (h : x.Refines) (hi : x.threads.Inv)
    (hstep : x.Step (.release g) x') : x'.Refines := by
  have hn := hstep.threads.2.2
  have ho : x.threads.ops = [] := hstep.threads.1 rfl
  simp only [Threads.next] at hn
  split at hn
  swap
  · simp at hn
  next hc =>
  have hpage : (x.threads.pool.frames g.frame).pageId = g.page :=
    (hi.at_ g.frame).guarded g (Threads.mem_guardsAt.mpr ⟨hc.1,rfl⟩)
  -- the frame keeps its bytes and takes over the guard's mark
  obtain ⟨hguards,hops,hframes,hbytes,hid,hdirty⟩ :
      x'.threads.guards = x.threads.guards.erase g ∧
      (x'.threads.ops = [] ∨ x'.threads.ops = [.writeThrough g.page g.frame]) ∧
      (∀ f, f ≠ g.frame → x'.threads.frame f = x.threads.frame f) ∧
      (x'.threads.frame g.frame).page = (x.threads.frame g.frame).page ∧
      (x'.threads.frame g.frame).pageId = (x.threads.frame g.frame).pageId ∧
      (x'.threads.frame g.frame).isDirty =
        ((x.threads.frame g.frame).isDirty || g.dirty) := by
    obtain ⟨y,hy,⟨-,hbytes,hdirty⟩,⟨-,-,hout⟩ | hout⟩ :=
      Threads.releaseGuard_cases (d := g.dirty) hpage (hi.live_pinned hc.1) <;>
      simp only [Threads.pool_dropGuard,hout] at hn <;> rw [← Option.some.inj hn]
    · refine ⟨rfl,.inr (congrArg _ ho),fun f hf => ?_,?_⟩
      · simp [Threads.frame,Threads.setPool,Threads.addOp,BufferPool.setFrame,hf]
      · simpa [Threads.frame,Threads.setPool,Threads.addOp,BufferPool.setFrame] using
          ⟨hbytes,hy.2.2,hdirty⟩
    · refine ⟨rfl,.inl ho,fun f hf => ?_,?_⟩
      · refine ((Threads.unpinFrame_poolAt _ g.frame).frames f hf).trans ?_
        exact Function.update_of_ne hf _ _
      · rw [Threads.frame_setPool,Threads.unpinFrame_frame,Threads.setFrame_self]
        exact ⟨hbytes,hy.2.2,hdirty⟩
  have hholds : ∀ f, x'.threads.holds f = x.threads.holds f := by
    intro f
    have hname : (x'.threads.frame f).name = (x.threads.frame f).name := by
      by_cases hf : f = g.frame
      · rw [hf,Frame.name,Frame.name,hid]
      · rw [hframes f hf]
    rcases hops with hops | hops
    · rw [Threads.holds_nil hops,Threads.holds_nil ho,hname]
    · rw [Threads.holds_one hops,Threads.holds_nil ho,hname]
      rfl
  have hclean : ∀ f, x'.threads.Clean f ↔ (x'.threads.frame f).isDirty = false := by
    intro f
    rcases hops with hops | hops
    · exact Threads.clean_nil hops f
    · simp [Threads.Clean,hops,Op.saved]
  refine h.unmarked hstep rfl (fun p page hx _ _ => ?_) (fun k hk hw => ?_) fun o hmem => ?_
  · have hcur := h.current p page hx
    refine ⟨fun f hf hall => ?_,fun k hk => ?_,fun f hf hcl hall => ?_,fun ha => ?_⟩
    · rw [hholds] at hf
      have hsame : (x'.threads.frame f).page = (x.threads.frame f).page := by
        by_cases hfg : f = g.frame
        · rw [hfg,hbytes]
        · rw [hframes f hfg]
      rw [hsame]
      refine hcur.frame f hf fun k hk hkf => ?_
      by_cases hkg : k = g
      · simp [hkg,Guard.unmarked,hc.2,Hold.hasLatch]
      · exact hall k (hguards ▸ (List.mem_erase_of_ne hkg).mpr hk) hkf
    · exact hcur.before k (List.mem_of_mem_erase (hguards ▸ hk))
    · rw [hholds] at hf
      have hdirty' := (hclean f).mp hcl
      have hsplit : (x.threads.frame f).isDirty = false ∧ (g.frame = f → g.dirty = false) := by
        by_cases hfg : f = g.frame
        · rw [hfg,hdirty,Bool.or_eq_false_iff] at hdirty'
          exact ⟨hfg ▸ hdirty'.1,fun _ => hdirty'.2⟩
        · rw [hframes f hfg] at hdirty'
          exact ⟨hdirty',fun he => absurd he.symm hfg⟩
      refine hcur.clean f hf (.inl hsplit.1) fun k hk hkf => ?_
      by_cases hkg : k = g
      · exact hkg ▸ hsplit.2 (hkg ▸ hkf)
      · exact hall k (hguards ▸ (List.mem_erase_of_ne hkg).mpr hk) hkf
    · exact hcur.away fun f hf => ha f ((hholds f).trans hf)
  · exact h.waiting k (List.mem_of_mem_erase (hguards ▸ hk)) hw
  · rcases hops with hops | hops <;> rw [hops] at hmem
    · cases hmem
    · rw [List.mem_singleton.mp hmem]
      exact hid.trans hpage

end Guards

end PageStore
end Buffer
end OurSql
