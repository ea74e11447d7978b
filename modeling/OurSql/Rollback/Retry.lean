import OurSql.Lib.Transition
import OurSql.Rollback.Undo

/-! `Abort` of one transaction, called until it succeeds, with steps of the others before,
between and after the failed attempts. -/
namespace OurSql
namespace Rollback

open Storage Transition

/-- The log of the transaction, newest record first, and the pool. The program has no
`begun`, `spoiled` and `work`: the pages whose deletion some attempt has begun, that one of
them was then not free or is a page the transaction has updated, and what the other
transactions keep on a page of theirs. -/
structure State where
  pool : Pool
  history : List LogRecord
  rolledBack : Bool := false
  begun : Finset PageId := ∅
  spoiled : Bool := false
  work : PageId → Option Page

/-- What the log and the disk answer during one call of `Abort`. -/
structure Attempt where
  scan : Status := .ok ()
  faults : Lsn → Faults := fun _ => {}
  append : Status := .ok ()
  lsn : Lsn := 0
  flush : Status := .ok ()

namespace State

variable (s : State)

def after (x : Undoing) : State :=
  { s with
    pool := x.pool
    begun := x.begun
    spoiled := s.spoiled || decide (∃ p ∈ x.begun,
      p ∉ x.pool.disk.freePages ∨ p ∈ pagesOf .pageUpdate s.history) }

/-- `Abort` of a transaction that is Active or Failed and holds no write guard. -/
def abort (a : Attempt) : Status × State :=
  match a.scan with
  | .error e => (fail .ioError ("transaction undo failed: " ++ e.message),s)
  | .ok () =>
    match undo a.faults s.history ⟨s.pool,s.begun⟩ with
    | (.error e,x) => (fail .ioError ("transaction undo failed: " ++ e.message),s.after x)
    | (.ok (),x) =>
      match a.append with
      | .error e => (.error e,s.after x)
      | .ok () =>
        let s := { s.after x with history := { type := .abort,lsn := a.lsn }::s.history }
        match a.flush with
        | .error e => (fail .ioError ("ABORT WAL was not durable: " ++ e.message),s)
        | .ok () => (.ok (),{ s with rolledBack := true })

/-- A new page, written under the guard that `NewPage` returns. -/
def allocate (page : Page) : Option State :=
  if s.pool.disk.pageCount < 4294967295 then
    match Storage.allocatePage.run ⟨s.pool.disk,.empty⟩ with
    | (some (.ok p),t) => some { s with
        pool := { s.pool with disk := t.disk }.setFrame p (some ⟨page,.valid,0,true⟩)
        work := Function.update s.work p (some page) }
    | _ => none
  else none

end State

inductive Move
  | attempt (a : Attempt)
  | allocate (page : Page)
  | modify (p : PageId) (page : Page)
  | remove (p : PageId)
  | load (p : PageId)
  | evict (p : PageId) (f : Faults)
  | pin (p : PageId) (pins : ℕ)

/-- Only pages in use are read, and only their owners change them. -/
def State.next (s : State) (m : Move) : Option State :=
  if s.rolledBack then none
  else
    match m with
    | .attempt a => some (s.abort a).2
    | .allocate page => s.allocate page
    | .modify p page =>
      match s.pool.frames p with
      | some frame =>
        if s.work p ≠ none ∧ frame.state = .valid then
          some { s with
            pool := s.pool.setFrame p (some { frame with page := page,isDirty := true })
            work := Function.update s.work p (some page) }
        else none
      | none => none
    | .remove p =>
      if s.work p ≠ none ∧ p ∉ s.pool.pending then
        match s.pool.deletePage {} p with
        | (.ok (),pool) => some { s with pool := pool,work := Function.update s.work p none }
        | (.error _,_) => none
      else none
    | .load p =>
      if 0 < p ∧ p < s.pool.disk.pageCount ∧ p ∉ s.pool.disk.freePages ∧ p ∉ s.pool.pending ∧
          (s.pool.frames p).isNone then
        some { s with pool := s.pool.setFrame p (some { page := s.pool.disk.file p }) }
      else none
    | .evict p f =>
      match s.pool.frames p with
      | some frame =>
        if frame.state = .valid ∧ frame.pins = 0 then
          match s.pool.flushFrame f p frame with
          | (.ok (),d) => some { s with pool := { s.pool with disk := d }.setFrame p none }
          | (.error _,d) => some { s with pool := { s.pool with disk := d } }
        else none
      | none => none
    | .pin p pins =>
      match s.pool.frames p with
      | some frame =>
        if frame.state = .valid then
          some { s with pool := s.pool.setFrame p (some { frame with pins := pins }) }
        else none
      | none => none

/-- An attempt finds every page whose deletion an earlier one has begun on the free list, and
has no update of such a page to undo. -/
def Met (s : State) : Move → Prop
  | .attempt _ => s.spoiled = false ∧ ∀ p ∈ s.begun, p ∈ s.pool.disk.freePages
  | _ => True

/-! ### Between two attempts -/

/-- What holds of a page, `first` being the state in which the rollback began. -/
structure Fits (first s : State) (p : PageId) : Prop where
  own : p ∈ lockedPages first.history → p ∉ s.begun →
    p ∉ s.pool.disk.freePages ∧ s.work p = none
  kept : p ∈ lockedPages first.history → p ∉ pagesOf .pageUpdate first.history →
    p ∉ pagesOf .pageAllocate first.history → s.pool.content p = first.pool.content p
  work : ∀ page, s.work p = some page → p ∉ s.pool.disk.freePages ∧ s.pool.content p = page
  idle : p < s.pool.disk.pageCount → p ∉ lockedPages first.history → s.work p = none →
    p ∈ s.pool.disk.freePages
  clean : p ∉ pagesOf .pageUpdate first.history →
    (p ∈ pagesOf .pageAllocate first.history → p ∈ s.begun) → s.pool.Clean p

structure Good (first s : State) : Prop where
  sound : Sound s.pool
  proper : Proper first.history
  log : ∃ ends, s.history = ends ++ first.history ∧ ∀ r ∈ ends, r.type = .abort
  range : ∀ r ∈ first.history, OfPage r → 0 < r.pageId ∧ r.pageId < s.pool.disk.pageCount
  known : ∀ p, s.pool.frames p ≠ none ∨ p ∈ s.pool.pending ∨ s.work p ≠ none →
    0 < p ∧ p < s.pool.disk.pageCount
  reserved : ∀ p ∈ pagesOf .pageAllocate first.history, p ∈ s.pool.pending →
    p ∈ pagesOf .pageFree first.history
  begun : ∀ p ∈ s.begun, p ∈ pagesOf .pageAllocate first.history ∧
    p ∉ pagesOf .pageUpdate first.history
  fits : ∀ p, p ≠ 0 → Fits first s p

/-- A rollback begins: each page is free, or of this transaction, or of another one. -/
structure Start (s : State) : Prop where
  good : Good s s
  begun : s.begun = ∅
  spoiled : s.spoiled = false
  rolledBack : s.rolledBack = false

/-- The rollback has happened once: the pages the transaction changed are as before it, those
it allocated are free, those it freed are accessible, and the others are as their owners have
left them. -/
structure Settled (first s : State) : Prop where
  mounted : ∃ free, Mounted s.pool.disk free
  owned : ∀ p ∈ lockedPages first.history, p ∉ pagesOf .pageAllocate first.history →
    p ∉ s.pool.disk.freePages ∧
      s.pool.content p = (oldest p first.history).getD (first.pool.content p)
  written : ∀ p page, oldest p first.history = some page →
    p ∉ pagesOf .pageAllocate first.history → s.pool.disk.file p = page
  freed : ∀ p ∈ pagesOf .pageAllocate first.history, p ∈ s.pool.disk.freePages
  accessible : ∀ p ∈ pagesOf .pageFree first.history, p ∉ s.pool.pending
  others : ∀ p page, s.work p = some page →
    p ∉ s.pool.disk.freePages ∧ s.pool.content p = page
  idle : ∀ p, 0 < p → p < s.pool.disk.pageCount → p ∉ lockedPages first.history →
    s.work p = none → p ∈ s.pool.disk.freePages

/-! ### Steps of the others -/

/-- Page 0 apart, only `q` may have changed, and no page but `q` is new. -/
structure Spares (s s' : Pool) (q : PageId) : Prop where
  frames : ∀ {p}, p ≠ q → s'.frames p = s.frames p
  file : ∀ {p}, p ≠ q → 0 < p → p < s.disk.pageCount → s'.disk.file p = s.disk.file p
  pending : ∀ {p}, p ≠ q → (p ∈ s'.pending ↔ p ∈ s.pending)
  free : ∀ {p}, p ≠ q → (p ∈ s'.disk.freePages ↔ p ∈ s.disk.freePages)
  grows : s.disk.pageCount ≤ s'.disk.pageCount
  fresh : ∀ {p}, p ≠ q → p < s'.disk.pageCount → p < s.disk.pageCount

variable {first s s' : State} {pool : Pool} {work : PageId → Option Page} {p q : PageId}
  {page : Page} {m : Move}

theorem Leaves.spares {s s' : Pool} (h : Leaves s s' q) : Spares s s' q :=
  ⟨h.frames,fun hp h0 _ => h.file hp (Nat.pos_iff_ne_zero.mp h0),h.pending,h.free,h.count.ge,
    fun _ hp => h.count ▸ hp⟩

theorem Spares.content {s s' : Pool} (h : Spares s s' q) (hp : p ≠ q)
    (hr : 0 < p ∧ p < s.disk.pageCount) : s'.content p = s.content p := by
  simp only [Pool.content,h.frames hp,h.file hp hr.1 hr.2]

theorem Good.locked_range (h : Good first s) (hp : p ∈ lockedPages first.history) :
    0 < p ∧ p < s.pool.disk.pageCount := by
  obtain ⟨r,hr,hof,rfl⟩ := mem_lockedPages.mp hp
  exact h.range r hr hof

/-- A page of another transaction is no page of this one. -/
theorem Fits.not_own (h : Fits first s p) (hw : s.work p ≠ none)
    (hp : p ∈ lockedPages first.history) : p ∈ s.begun := by
  by_contra hb
  exact hw (h.own hp hb).2

theorem Good.clean_of_work (h : Good first s) (hw : s.work p = some page) : s.pool.Clean p := by
  have hne : s.work p ≠ none := by simp [hw]
  have hp0 : p ≠ 0 := Nat.pos_iff_ne_zero.mp (h.known p (.inr (.inr hne))).1
  have hbegun := (h.fits p hp0).not_own hne
  refine (h.fits p hp0).clean (fun hu => ?_) fun ha =>
    hbegun (mem_lockedPages_of ha (.inr (.inl rfl)))
  exact (h.begun p (hbegun (mem_lockedPages_of hu (.inl rfl)))).2 hu

/-- Only the page that a step is about needs a look. -/
theorem Good.touch (h : Good first s) (hsound : Sound pool) (hs : Spares s.pool pool q)
    (hq : 0 < q ∧ q < pool.disk.pageCount) (hwork : ∀ p, p ≠ q → work p = s.work p)
    (hpend : q ∈ pool.pending → q ∈ s.pool.pending)
    (hfit : Fits first { s with pool := pool,work := work } q) :
    Good first { s with pool := pool,work := work } where
  sound := hsound
  proper := h.proper
  log := h.log
  range := fun r hr hof => ⟨(h.range r hr hof).1,(h.range r hr hof).2.trans_le hs.grows⟩
  known := by
    intro p hp
    by_cases he : p = q
    · exact he ▸ hq
    · dsimp only at hp
      rw [hs.frames he,hs.pending he,hwork p he] at hp
      exact ⟨(h.known p hp).1,(h.known p hp).2.trans_le hs.grows⟩
  reserved := by
    intro p hp hin
    by_cases he : p = q
    · exact h.reserved p hp (he ▸ hpend (he ▸ hin))
    · exact h.reserved p hp ((hs.pending he).mp hin)
  begun := h.begun
  fits := by
    intro p h0
    by_cases he : p = q
    · exact he ▸ hfit
    have hold := h.fits p h0
    have hpos := Nat.pos_iff_ne_zero.mpr h0
    refine ⟨fun hl hb => ?_,fun hl hu ha => ?_,fun page hw => ?_,fun hlt hl hw => ?_,
      fun hu ha => ?_⟩
    · obtain ⟨hnot,hnone⟩ := hold.own hl hb
      exact ⟨fun hf => hnot ((hs.free he).mp hf),(hwork p he).trans hnone⟩
    · exact (hs.content he (h.locked_range hl)).trans (hold.kept hl hu ha)
    · have hw' : s.work p = some page := (hwork p he).symm.trans hw
      have hr := h.known p (.inr (.inr (by simp [hw'])))
      obtain ⟨hf,hc⟩ := hold.work page hw'
      exact ⟨fun hf' => hf ((hs.free he).mp hf'),(hs.content he hr).trans hc⟩
    · exact (hs.free he).mpr (hold.idle (hs.fresh he hlt) hl ((hwork p he).symm.trans hw))
    · intro frame hf hd
      have hf' : s.pool.frames p = some frame := (hs.frames he).symm.trans hf
      have hr := h.known p (.inl (by simp [hf']))
      exact (hold.clean hu ha frame hf' hd).trans (hs.file he hpos hr.2).symm

/-- A step that leaves the work of the others as it is. -/
theorem Good.touch_pool (h : Good first s) (hsound : Sound pool) (hs : Leaves s.pool pool q)
    (hq : 0 < q ∧ q < s.pool.disk.pageCount) (hpend : q ∈ pool.pending → q ∈ s.pool.pending)
    (hfree : q ∈ pool.disk.freePages ↔ q ∈ s.pool.disk.freePages)
    (hcontent : s.pool.Clean q → pool.content q = s.pool.content q)
    (hclean : s.pool.Clean q → pool.Clean q) : Good first { s with pool := pool } := by
  have hold := h.fits q (Nat.pos_iff_ne_zero.mp hq.1)
  refine h.touch hsound hs.spares (hs.count ▸ hq) (fun _ _ => rfl) hpend ⟨?_,?_,?_,?_,?_⟩
  · exact fun hl hb => ⟨fun hf => (hold.own hl hb).1 (hfree.mp hf),(hold.own hl hb).2⟩
  · exact fun hl hu ha =>
      (hcontent (hold.clean hu fun hin => absurd hin ha)).trans (hold.kept hl hu ha)
  · exact fun page hw => ⟨fun hf => (hold.work page hw).1 (hfree.mp hf),
      (hcontent (h.clean_of_work hw)).trans (hold.work page hw).2⟩
  · exact fun hlt hl hw => hfree.mpr (hold.idle (hs.count ▸ hlt) hl hw)
  · exact fun hu ha => hclean (hold.clean hu ha)

theorem leaves_frame (s : Pool) (p : PageId) (frame : Option Frame) :
    Leaves s (s.setFrame p frame) p :=
  (Leaves.refl s p).setFrame frame

theorem Good.cached_range (h : Good first s) {frame : Frame} (hf : s.pool.frames p = some frame) :
    0 < p ∧ p < s.pool.disk.pageCount :=
  h.known p (.inl (by simp [hf]))

/-- What another transaction does to a page of its own, given back or rewritten. -/
theorem Good.touch_work (h : Good first s) (hsound : Sound pool) (hs : Spares s.pool pool q)
    (hq : 0 < q ∧ q < pool.disk.pageCount) (hpend : q ∈ pool.pending → q ∈ s.pool.pending)
    (howner : q ∈ lockedPages first.history → q ∈ s.begun) {data : Option Page}
    (hdata : ∀ page, data = some page → q ∉ pool.disk.freePages ∧ pool.content q = page)
    (hnone : data = none → q ∈ pool.disk.freePages)
    (hdirty : ∀ frame, pool.frames q = some frame → frame.isDirty = true) :
    Good first { s with pool := pool,work := Function.update s.work q data } := by
  have hself : Function.update s.work q data q = data := Function.update_self ..
  refine h.touch hsound hs hq (fun p hp => Function.update_of_ne hp ..) hpend ⟨?_,?_,?_,?_,?_⟩
  · exact fun hl hb => absurd (howner hl) hb
  · exact fun hl hu ha => absurd (h.begun q (howner hl)).1 ha
  · exact fun page hw => hdata page (hself.symm.trans hw)
  · exact fun _ _ hw => hnone (hself.symm.trans hw)
  · intro _ _ frame hf hd
    rw [hdirty frame hf] at hd
    cases hd

theorem Good.modify (h : Good first s) (hn : s.next (.modify p page) = some s') :
    Good first s' := by
  simp only [State.next] at hn
  split at hn
  · cases hn
  cases hf : s.pool.frames p with
  | none => simp [hf] at hn
  | some frame =>
    simp only [hf] at hn
    split at hn
    next hc =>
      obtain rfl := Option.some.inj hn
      have hcached := h.sound.cached hf
      have hp := h.cached_range hf
      refine h.touch_work (h.sound.setFrame ?_) (leaves_frame ..).spares hp id
        ((h.fits p (Nat.pos_iff_ne_zero.mp hp.1)).not_own hc.1) ?_ (fun hd => by cases hd) ?_
      · rintro f ⟨rfl⟩
        exact hcached
      · rintro page' ⟨rfl⟩
        exact ⟨hcached.1,by simp [Pool.content,Pool.setFrame]⟩
      · rintro f hf
        obtain rfl : { frame with page := page,isDirty := true } = f := by
          simpa [Pool.setFrame] using hf
        rfl
    next => cases hn

theorem Good.remove (h : Good first s) (hn : s.next (.remove p) = some s') : Good first s' := by
  simp only [State.next] at hn
  split at hn
  · cases hn
  split at hn
  next hc =>
    have hp := h.known p (.inr (.inr hc.1))
    have hspec := deletePage_spec h.sound hp hc.2 {}
    rcases hd : s.pool.deletePage {} p with ⟨answer,pool⟩
    rw [hd] at hspec hn
    cases hspec with
    | done hstart hsound hfree hleaves =>
      obtain rfl := Option.some.inj hn
      refine h.touch_work hsound hleaves.spares (hleaves.count ▸ hp) ?_
        ((h.fits p (Nat.pos_iff_ne_zero.mp hp.1)).not_own hc.1) (fun _ hd => by cases hd)
        (fun _ => hfree) ?_
      · exact fun hpend => absurd hfree (hsound.pending hpend)
      · exact fun frame hf => absurd hfree (hsound.cached hf).1
    | refused e hcode hstart hsame => cases hn
    | stuck e hcode hstart hnot hleaves => cases hn
  next => cases hn

theorem Good.load (h : Good first s) (hn : s.next (.load p) = some s') : Good first s' := by
  simp only [State.next] at hn
  split at hn
  · cases hn
  split at hn
  next hc =>
    obtain ⟨hp0,hp,hfree,hpend,hnone⟩ := hc
    obtain rfl := Option.some.inj hn
    have hnone' : s.pool.frames p = none := by simpa using hnone
    refine h.touch_pool (h.sound.setFrame ?_) (leaves_frame ..) ⟨hp0,hp⟩ id Iff.rfl ?_ ?_
    · rintro f ⟨rfl⟩
      exact ⟨hfree,by simp [hpend]⟩
    · intro _
      simp [Pool.content,Pool.setFrame,hnone']
    · intro _ f hf _
      obtain rfl : ({ page := s.pool.disk.file p } : Frame) = f := by
        simpa [Pool.setFrame] using hf
      rfl
  next => cases hn

theorem Good.pin {pins : ℕ} (h : Good first s) (hn : s.next (.pin p pins) = some s') :
    Good first s' := by
  simp only [State.next] at hn
  split at hn
  · cases hn
  cases hf : s.pool.frames p with
  | none => simp [hf] at hn
  | some frame =>
    simp only [hf] at hn
    split at hn
    next hc =>
      obtain rfl := Option.some.inj hn
      have hcached := h.sound.cached hf
      refine h.touch_pool (h.sound.setFrame ?_) (leaves_frame ..) (h.cached_range hf) id Iff.rfl
        ?_ ?_
      · rintro f ⟨rfl⟩
        exact hcached
      · intro _
        simp [Pool.content,Pool.setFrame,hf]
      · intro hclean f hf' hd
        obtain rfl : { frame with pins := pins } = f := by simpa [Pool.setFrame] using hf'
        exact hclean frame hf hd
    next => cases hn

theorem flushFrame_ok {s : Pool} {d : DiskManager} {f : Faults} {frame : Frame}
    {free : List PageId} (hm : Mounted s.disk free) (hp : p < s.disk.pageCount)
    (hf : s.frames p = some frame) (hc : s.Clean p) (h : s.flushFrame f p frame = (.ok (),d)) :
    d.file p = frame.page := by
  unfold Pool.flushFrame at h
  split at h
  next hd =>
    obtain rfl : s.disk = d := (Prod.ext_iff.mp h).2
    exact (hc frame hf (by simpa using hd)).symm
  split at h
  · cases (Prod.ext_iff.mp h).1
  · obtain ⟨page,hdisk,hpage⟩ := writePhysicalPage_run hm hp f.flush frame.page
    rw [h] at hdisk hpage
    obtain rfl : d = s.disk.writePage p page := hdisk
    exact (Function.update_self ..).trans (hpage rfl)

/-- A flush that fails was asked for a dirty frame. -/
theorem flushFrame_error {s : Pool} {d : DiskManager} {f : Faults} {frame : Frame} {e : Failure}
    (h : s.flushFrame f p frame = (.error e,d)) : frame.isDirty = true := by
  by_contra hd
  rw [Pool.flushFrame,if_pos (by simpa using hd)] at h
  cases (Prod.ext_iff.mp h).1

theorem Good.evict {f : Faults} (h : Good first s) (hn : s.next (.evict p f) = some s') :
    Good first s' := by
  simp only [State.next] at hn
  split at hn
  · cases hn
  cases hf : s.pool.frames p with
  | none => simp [hf] at hn
  | some frame =>
    simp only [hf] at hn
    split at hn
    swap
    · cases hn
    have hp := h.cached_range hf
    obtain ⟨free,hm⟩ := h.sound.mounted
    have hnot : p ∉ free := by
      have := (h.sound.cached hf).1
      rwa [hm.freePages,List.mem_toFinset] at this
    obtain ⟨helse,hm',-⟩ := flushFrame_run hm hp hnot f frame
    rcases hw : s.pool.flushFrame f p frame with ⟨answer,d⟩
    rw [hw] at helse hm' hn
    have hfree : d.freePages = s.pool.disk.freePages := hm'.freePages.trans hm.freePages.symm
    have hsound : Sound { s.pool with disk := d } := by
      refine ⟨⟨free,hm'⟩,fun hq => ?_,fun hq => ?_⟩
      · exact ⟨fun hin => (h.sound.cached hq).1 (hfree ▸ hin),(h.sound.cached hq).2⟩
      · exact fun hin => h.sound.pending hq (hfree ▸ hin)
    have hleaves : Leaves s.pool { s.pool with disk := d } p :=
      helse.leaves (fun _ => rfl) fun _ => Iff.rfl
    have hiff : p ∈ d.freePages ↔ p ∈ s.pool.disk.freePages := by rw [hfree]
    cases answer with
    | ok =>
      obtain rfl := Option.some.inj hn
      refine h.touch_pool (hsound.setFrame fun f hf => by cases hf) (hleaves.setFrame none) hp id
        hiff ?_ ?_
      · intro hclean
        simpa [Pool.content,Pool.setFrame,hf] using flushFrame_ok hm hp.2 hf hclean hw
      · intro _ f hf
        simp [Pool.setFrame] at hf
    | error e =>
      obtain rfl := Option.some.inj hn
      have hdirty := flushFrame_error hw
      refine h.touch_pool hsound hleaves hp id hiff ?_ ?_
      · intro _
        simp [Pool.content,hf]
      · intro _ f hf' hd
        obtain rfl : frame = f := Option.some.inj (hf.symm.trans hf')
        rw [hdirty] at hd
        cases hd

/-- A page that an allocation has taken from the free list or put at the end of the file. -/
theorem allocate_spares {pool : Pool} {t : Store} (hm : ∃ free, Mounted pool.disk free)
    (hroom : pool.disk.pageCount < 4294967295)
    (hrun : Storage.allocatePage.run ⟨pool.disk,.empty⟩ = (some (.ok q),t)) :
    Spares pool { pool with disk := t.disk } q := by
  have ha := allocatePage_run (s := ⟨pool.disk,.empty⟩) hm hroom hrun
  refine ⟨fun _ => rfl,fun _ h0 hp => ha.others _ h0 hp,fun _ => Iff.rfl,fun hp => ?_,ha.count,
    fun hp hlt => ?_⟩
  · rcases allocatePage_taken (s := ⟨pool.disk,.empty⟩) hm hroom hrun with
      ⟨free,-,rfl⟩ | ⟨-,-,rfl⟩
    · exact ⟨Finset.mem_of_mem_erase,fun hin => Finset.mem_erase.mpr ⟨hp,hin⟩⟩
    · exact Iff.rfl
  · rcases allocatePage_taken (s := ⟨pool.disk,.empty⟩) hm hroom hrun with
      ⟨free,-,rfl⟩ | ⟨-,rfl,rfl⟩
    · exact hlt
    · exact Nat.lt_of_le_of_ne (Nat.lt_succ_iff.mp hlt) hp

theorem Spares.setFrame {s s' : Pool} (h : Spares s s' q) (frame : Option Frame) :
    Spares s (s'.setFrame q frame) q :=
  ⟨fun hp => (Function.update_of_ne hp ..).trans (h.frames hp),h.file,h.pending,h.free,h.grows,
    h.fresh⟩

theorem Good.take {t : Store} (h : Good first s) (hroom : s.pool.disk.pageCount < 4294967295)
    (hrun : Storage.allocatePage.run ⟨s.pool.disk,.empty⟩ = (some (.ok p),t)) :
    Good first { s with
      pool := { s.pool with disk := t.disk }.setFrame p (some ⟨page,.valid,0,true⟩)
      work := Function.update s.work p (some page) } := by
  have ha := allocatePage_run (s := ⟨s.pool.disk,.empty⟩) h.sound.mounted hroom hrun
  have hs := allocate_spares h.sound.mounted hroom hrun
  have hp0 : p ≠ 0 := Nat.pos_iff_ne_zero.mp ha.range.1
  -- the page was free or not there, so it is neither cached nor reserved
  have hnew : p ∉ s.pool.pending := by
    rcases ha.origin with hfree | hge
    · exact fun hin => h.sound.pending hin hfree
    · exact fun hin => Nat.not_lt.mpr hge (h.known p (.inr (.inl hin))).2
  have hsound : Sound { s.pool with disk := t.disk } := by
    refine ⟨ha.mounted,fun hq => ?_,fun hq hin => h.sound.pending hq (ha.shrinks hin)⟩
    exact ⟨fun hin => (h.sound.cached hq).1 (ha.shrinks hin),(h.sound.cached hq).2⟩
  refine h.touch_work (hsound.setFrame ?_) (hs.setFrame _) ha.range (fun hin => absurd hin hnew)
    ?_ ?_ (fun hd => by cases hd) ?_
  · rintro f ⟨rfl⟩
    exact ⟨ha.fresh,by simp [hnew]⟩
  · intro hl
    by_contra hb
    rcases ha.origin with hfree | hge
    · exact ((h.fits p hp0).own hl hb).1 hfree
    · exact Nat.not_lt.mpr hge (h.locked_range hl).2
  · rintro page' ⟨rfl⟩
    exact ⟨ha.fresh,by simp [Pool.content,Pool.setFrame]⟩
  · intro f hf
    obtain rfl : (⟨page,.valid,0,true⟩ : Frame) = f := by simpa [Pool.setFrame] using hf
    rfl

theorem Good.allocate (h : Good first s) (hn : s.next (.allocate page) = some s') :
    Good first s' := by
  simp only [State.next] at hn
  split at hn
  · cases hn
  unfold State.allocate at hn
  split at hn
  swap
  · cases hn
  next hroom =>
    rcases hrun : Storage.allocatePage.run ⟨s.pool.disk,.empty⟩ with ⟨answer,t⟩
    rw [hrun] at hn
    cases answer with
    | none => cases hn
    | some answer =>
      cases answer with
      | error e => cases hn
      | ok p =>
        obtain rfl := Option.some.inj hn
        exact h.take hroom hrun

/-! ### Attempts -/

variable {faults : Lsn → Faults} {x : Undoing} {a : Attempt} {ends older : List LogRecord}

theorem undo_append (hends : ∀ r ∈ ends, r.type = .abort) :
    undo faults (ends ++ older) x = undo faults older x := by
  induction ends with
  | nil => rfl
  | cons r ends ih =>
    have hskip : undoRecord (faults r.lsn) r x = (.ok (),x) := by
      simp only [undoRecord,hends r (by simp)]
    simp only [List.cons_append,undo,hskip]
    exact ih fun r' hr' => hends r' (List.mem_cons_of_mem r hr')

theorem pagesOf_append {type : LogRecordType} (hends : ∀ r ∈ ends, r.type = .abort)
    (htype : type ≠ .abort) : p ∈ pagesOf type (ends ++ older) ↔ p ∈ pagesOf type older := by
  simp only [mem_pagesOf,List.mem_append]
  refine ⟨fun ⟨r,hr,ht,hp⟩ => ⟨r,hr.resolve_left fun hin => ?_,ht,hp⟩,
    fun ⟨r,hr,ht,hp⟩ => ⟨r,.inr hr,ht,hp⟩⟩
  exact htype (ht ▸ hends r hin)

/-- Nothing happens, or the walk has ended somewhere and a record may have been appended. -/
theorem abort_cases (s : State) (a : Attempt) (hs : s.rolledBack = false) :
    (s.abort a).2 = s ∨ ∃ ends done,
      (s.abort a).2 = { s.after (undo a.faults s.history ⟨s.pool,s.begun⟩).2 with
        history := ends ++ s.history,rolledBack := done } ∧
      (∀ r ∈ ends, r.type = .abort) ∧
      (done = true → (undo a.faults s.history ⟨s.pool,s.begun⟩).1 = .ok ()) := by
  unfold State.abort
  cases a.scan with
  | error e => exact .inl rfl
  | ok =>
    refine .inr ?_
    rcases undo a.faults s.history ⟨s.pool,s.begun⟩ with ⟨answer,x⟩
    have hsame : s.after x = { s.after x with history := [] ++ s.history,rolledBack := false } := by
      rw [← hs]
      rfl
    cases answer with
    | error e => exact ⟨[],false,hsame,by simp,by simp⟩
    | ok =>
      cases a.append with
      | error e => exact ⟨[],false,hsame,by simp,by simp⟩
      | ok =>
        let r : LogRecord := { type := .abort,lsn := a.lsn }
        have hends : ∀ r' ∈ [r], r'.type = .abort := by simp [r]
        cases a.flush with
        | error e =>
          refine ⟨[r],false,?_,hends,by simp⟩
          rw [← hs]
          rfl
        | ok => exact ⟨[r],true,rfl,hends,fun _ => rfl⟩

theorem abort_ok (h : (s.abort a).1 = .ok ()) : (s.abort a).2.rolledBack = true := by
  unfold State.abort at h ⊢
  cases hscan : a.scan with
  | error e => simp [hscan,fail] at h
  | ok =>
    simp only [hscan] at h ⊢
    rcases hu : undo a.faults s.history ⟨s.pool,s.begun⟩ with ⟨answer,x⟩
    rw [hu] at h
    cases answer with
    | error e => cases h
    | ok =>
      cases happend : a.append with
      | error e => simp [happend] at h
      | ok =>
        simp only [happend] at h ⊢
        cases hflush : a.flush with
        | error e => simp [hflush,fail] at h
        | ok => rfl

section attempt

variable (h : Good first s) (hfree : ∀ p ∈ s.begun, p ∈ s.pool.disk.freePages)

include h

theorem Good.own_of_update (hp : p ∈ lockedPages first.history)
    (hin : p ∈ pagesOf .pageUpdate first.history ∨ p ∉ pagesOf .pageAllocate first.history) :
    p ∉ s.pool.disk.freePages ∧ s.work p = none := by
  refine (h.fits p (Nat.pos_iff_ne_zero.mp (h.locked_range hp).1)).own hp fun hb => ?_
  exact hin.elim (h.begun p hb).2 fun hnot => hnot (h.begun p hb).1

theorem Good.walk : Walk first.history ⟨s.pool,s.begun⟩ where
  sound := h.sound
  proper := h.proper
  range := h.range
  inUse := fun _ hp => (h.own_of_update (mem_lockedPages_of hp (.inl rfl)) (.inl hp)).1
  reserved := h.reserved

include hfree

/-- What another transaction keeps is on none of the pages that an attempt changes. -/
theorem Good.not_locked (hw : s.work p ≠ none) : p ∉ lockedPages first.history := by
  intro hl
  have hp0 : p ≠ 0 := Nat.pos_iff_ne_zero.mp (h.locked_range hl).1
  obtain ⟨page,hpage⟩ := Option.ne_none_iff_exists'.mp hw
  exact ((h.fits p hp0).work page hpage).1 (hfree p ((h.fits p hp0).not_own hw hl))

theorem Good.others {answer : Status} (hr : Ran first.history ⟨s.pool,s.begun⟩ x answer)
    (hw : s.work p = some page) : p ∉ x.pool.disk.freePages ∧ x.pool.content p = page := by
  have hne : s.work p ≠ none := by simp [hw]
  have hl := h.not_locked hfree hne
  have hp0 := Nat.pos_iff_ne_zero.mp (h.known p (.inr (.inr hne))).1
  have hu : p ∉ pagesOf .pageUpdate first.history :=
    fun hin => hl (mem_lockedPages_of hin (.inl rfl))
  have ha : p ∉ pagesOf .pageAllocate first.history :=
    fun hin => hl (mem_lockedPages_of hin (.inr (.inl rfl)))
  obtain ⟨hnot,hpage⟩ := (h.fits p hp0).work page hw
  exact ⟨fun hin => hnot ((hr.free p ha).mp hin),(hr.content p hp0 hu ha).1.trans hpage⟩

omit hfree in
theorem Good.idle {answer : Status} (hr : Ran first.history ⟨s.pool,s.begun⟩ x answer)
    (hp0 : p ≠ 0) (hlt : p < x.pool.disk.pageCount) (hl : p ∉ lockedPages first.history)
    (hw : s.work p = none) : p ∈ x.pool.disk.freePages := by
  have ha : p ∉ pagesOf .pageAllocate first.history :=
    fun hin => hl (mem_lockedPages_of hin (.inr (.inl rfl)))
  exact (hr.free p ha).mpr ((h.fits p hp0).idle (hr.count ▸ hlt) hl hw)

theorem Good.settled {answer : Status} (hr : Ran first.history ⟨s.pool,s.begun⟩ x answer)
    (hd : Undone first.history ⟨s.pool,s.begun⟩ x) (hpool : s'.pool = x.pool)
    (hwork : s'.work = s.work) : Settled first s' where
  mounted := hpool ▸ hd.calm.sound.mounted
  owned := by
    intro p hl ha
    obtain ⟨hnot,-⟩ := h.own_of_update hl (.inr ha)
    rw [hpool]
    refine ⟨fun hin => hnot ((hr.free p ha).mp hin),?_⟩
    cases ho : oldest p first.history with
    | some page => exact (hd.restored p page ho ha).1
    | none =>
      have hp0 : p ≠ 0 := Nat.pos_iff_ne_zero.mp (h.locked_range hl).1
      have hu := oldest_eq_none hd.images ho
      exact (hr.content p hp0 hu ha).1.trans ((h.fits p hp0).kept hl hu ha)
  written := fun p page ho ha => hpool ▸ (hd.restored p page ho ha).2
  freed := fun p hp => hpool ▸ hd.freed p hp
  accessible := by
    intro p hp
    rw [hpool]
    exact hd.cancelled p hp
  others := by
    intro p page hw
    rw [hwork] at hw
    rw [hpool]
    exact h.others hfree hr hw
  idle := by
    intro p h0 hlt hl hw
    rw [hwork] at hw
    rw [hpool] at hlt ⊢
    exact h.idle hr (Nat.pos_iff_ne_zero.mp h0) hlt hl hw

/-- Unless a page is spoiled, everything is as between two attempts. -/
theorem Good.failed {answer : Status} {done : Bool}
    (hr : Ran first.history ⟨s.pool,s.begun⟩ x answer) (hends : ∀ r ∈ ends, r.type = .abort)
    (hspoiled : (s.after x).spoiled = false) :
    Good first { s.after x with history := ends ++ s.history,rolledBack := done } := by
  obtain ⟨old,hhistory,hold⟩ := h.log
  obtain ⟨-,hbegun⟩ : s.spoiled = false ∧ ∀ p ∈ x.begun,
      p ∈ x.pool.disk.freePages ∧ p ∉ pagesOf .pageUpdate s.history := by
    simpa [State.after] using hspoiled
  have hcalm : Calm ⟨s.pool,s.begun⟩ x := by
    rcases hr.calm with hcalm | ⟨p,hp,hnot⟩
    · exact hcalm
    · exact absurd (hbegun p hp).1 hnot
  have hupdate : ∀ p ∈ x.begun, p ∉ pagesOf .pageUpdate first.history := by
    intro p hp hin
    refine (hbegun p hp).2 ?_
    rw [hhistory]
    exact (pagesOf_append hold (by decide)).mpr hin
  refine ⟨hcalm.sound,h.proper,⟨ends ++ old,?_,fun r hin => ?_⟩,fun r hin hof => ?_,fun p hp => ?_,
    fun p hp hin => h.reserved p hp (hcalm.pending hin),fun p hp => ⟨?_,hupdate p hp⟩,
    fun p hp0 => ⟨fun hl hb => ?_,fun hl hu ha => ?_,fun page hw => ?_,fun hlt hl hw => ?_,
      fun hu ha => ?_⟩⟩
  · simp [hhistory]
  · exact (List.mem_append.mp hin).elim (hends r) (hold r)
  · exact ⟨(h.range r hin hof).1,hr.count ▸ (h.range r hin hof).2⟩
  · have hknown : 0 < p ∧ p < s.pool.disk.pageCount := by
      by_cases hl : p ∈ lockedPages first.history
      · exact h.locked_range hl
      · refine h.known p (hp.imp (fun hf => ?_) (Or.imp_left fun hin => hcalm.pending hin))
        rwa [← hr.frames p hl]
    exact ⟨hknown.1,hr.count ▸ hknown.2⟩
  · exact (hr.begun p hp).elim (fun hb => (h.begun p hb).1) id
  · obtain ⟨hnot,hwork⟩ := (h.fits p hp0).own hl fun hin => hb (hr.keeps hin)
    exact ⟨fun hin => (hcalm.free p hin).elim hnot hb,hwork⟩
  · exact (hr.content p hp0 hu ha).1.trans ((h.fits p hp0).kept hl hu ha)
  · exact h.others hfree hr hw
  · exact h.idle hr hp0 hlt hl hw
  · by_cases hin : p ∈ pagesOf .pageAllocate first.history
    · exact fun frame hf _ => absurd (hbegun p (ha hin)).1 (hcalm.sound.cached hf).1
    · exact hr.clean p hp0 hu hin ((h.fits p hp0).clean hu fun hin' => absurd hin' hin)

end attempt

/-! ### Runs -/

/-- What a reader finds on a page in use. -/
def State.view (s : State) (p : PageId) : Option Page :=
  if p ∈ s.pool.disk.freePages then none else some (s.pool.content p)

/-- A rolled back transaction leaves the same pages, whatever has happened meanwhile. -/
theorem Settled.unique (h : Settled first s) (h' : Settled first s')
    (hp : p ∈ lockedPages first.history) : s.view p = s'.view p := by
  unfold State.view
  by_cases ha : p ∈ pagesOf .pageAllocate first.history
  · rw [if_pos (h.freed p ha),if_pos (h'.freed p ha)]
  · obtain ⟨hnot,hpage⟩ := h.owned p hp ha
    obtain ⟨hnot',hpage'⟩ := h'.owned p hp ha
    rw [if_neg hnot,if_neg hnot',hpage,hpage']

theorem next_running (hn : s.next m = some s') : s.rolledBack = false := by
  by_contra hs
  simp [State.next,hs] at hn

/-- The other steps neither end the rollback nor spoil a page. -/
theorem next_other (hn : s.next m = some s') (hm : ∀ a, m ≠ .attempt a) :
    s'.spoiled = s.spoiled ∧ s'.rolledBack = s.rolledBack := by
  have hs := next_running hn
  unfold State.next at hn
  rw [if_neg (by simp [hs])] at hn
  cases m with
  | attempt a => exact absurd rfl (hm a)
  | allocate page =>
    simp only [State.allocate] at hn
    split at hn
    swap
    · cases hn
    split at hn
    · obtain rfl := Option.some.inj hn
      exact ⟨rfl,rfl⟩
    · cases hn
  | _ =>
    dsimp only at hn
    repeat' split at hn
    all_goals first | (obtain rfl := Option.some.inj hn; exact ⟨rfl,rfl⟩) | cases hn

theorem Good.move (h : Good first s) (hn : s.next m = some s') (hm : ∀ a, m ≠ .attempt a) :
    Good first s' := by
  cases m with
  | attempt a => exact absurd rfl (hm a)
  | allocate page => exact h.allocate hn
  | modify p page => exact h.modify hn
  | remove p => exact h.remove hn
  | load p => exact h.load hn
  | evict p f => exact h.evict hn
  | pin p pins => exact h.pin hn

/-- The rollback is over, or everything is as between two attempts unless a page is spoiled. -/
def Course (first s : State) : Prop :=
  (s.rolledBack = true → Settled first s) ∧
    (s.rolledBack = false → s.spoiled = false → Good first s)

theorem Good.attempt (h : Good first s) (hs : s.rolledBack = false)
    (hm : Met s (.attempt a)) : Course first (s.abort a).2 := by
  rcases abort_cases s a hs with hsame | ⟨ends,done,hnew,hends,hdone⟩
  · rw [hsame]
    exact ⟨fun hr => by simp [hs] at hr,fun _ _ => h⟩
  obtain ⟨old,hhistory,hold⟩ := h.log
  have hundo : undo a.faults s.history ⟨s.pool,s.begun⟩ =
      undo a.faults first.history ⟨s.pool,s.begun⟩ := by rw [hhistory,undo_append hold]
  obtain ⟨hran,hundone⟩ := undo_ran h.walk a.faults
  rw [hundo] at hnew hdone
  rw [hnew]
  exact ⟨fun hr => h.settled hm.2 hran (hundone (hdone hr)) rfl rfl,
    fun _ hspoiled => h.failed hm.2 hran hends hspoiled⟩

theorem Course.step (h : Course first s) (hn : s.next m = some s') (hm : Met s m) :
    Course first s' := by
  have hs := next_running hn
  by_cases ha : ∃ a, m = .attempt a
  · obtain ⟨a,rfl⟩ := ha
    obtain rfl : (s.abort a).2 = s' := by simpa [State.next,hs] using hn
    exact (h.2 hs hm.1).attempt hs hm
  · have hother : ∀ a, m ≠ .attempt a := fun a he => ha ⟨a,he⟩
    obtain ⟨hspoiled,hrolled⟩ := next_other hn hother
    refine ⟨fun hr => ?_,fun _ hns => (h.2 hs (hspoiled ▸ hns)).move hn hother⟩
    rw [hrolled,hs] at hr
    cases hr

theorem course (h0 : Start first)
    (hr : Reach (· = first) (fun x m x' => x.next m = some x' ∧ Met x m) s) : Course first s := by
  refine hr.invariant ?_ fun s m s' h hstep => h.step hstep.1 hstep.2
  rintro s rfl
  exact ⟨fun hrolled => by simp [h0.rolledBack] at hrolled,fun _ _ => h0.good⟩

instance (s : State) (m : Move) : Decidable (Met s m) :=
  match m with
  | .attempt _ => inferInstanceAs (Decidable (_ ∧ _))
  | .allocate _ | .modify _ _ | .remove _ | .load _ | .evict _ _ | .pin _ _ => .isTrue trivial

def State.nextMet (s : State) (m : Move) : Option State := if Met s m then s.next m else none

theorem reach_of_exec {moves : List Move} (hx : exec State.nextMet first moves = some s) :
    Reach (· = first) (fun x m x' => x.next m = some x' ∧ Met x m) s := by
  have hr : Reach (· = first) (StepOf State.nextMet) s := exec_reach (.init rfl) hx
  refine hr.mono fun x m x' hstep => ?_
  simp only [StepOf,State.nextMet] at hstep
  split at hstep
  next hm => exact ⟨hstep,hm⟩
  next => cases hstep

/-- A transaction on every page of the file. -/
def alone (d : DiskManager) (history : List LogRecord) : State :=
  { pool := ⟨d,fun _ => none,∅⟩,history := history,work := fun _ => none }

theorem alone_start {d : DiskManager} {history : List LogRecord} (hm : Mounted d [])
    (hproper : Proper history)
    (hrange : ∀ r ∈ history, OfPage r → 0 < r.pageId ∧ r.pageId < d.pageCount)
    (hall : ∀ p, p ≠ 0 → p < d.pageCount → p ∈ lockedPages history) : Start (alone d history) where
  good :=
    { sound := ⟨⟨[],hm⟩,fun hf => by simp [alone] at hf,fun hp => by simp [alone] at hp⟩
      proper := hproper
      log := ⟨[],rfl,by simp⟩
      range := hrange
      known := by simp [alone]
      reserved := by simp [alone]
      begun := by simp [alone]
      fits := by
        intro p h0
        refine ⟨fun _ _ => ⟨?_,rfl⟩,fun _ _ _ => rfl,by simp [alone],?_,fun _ _ => ?_⟩
        · simp [alone,hm.freePages]
        · exact fun hlt hl => absurd (hall p h0 hlt) hl
        · exact fun frame hf => by simp [alone] at hf }
  begun := rfl
  spoiled := rfl
  rolledBack := rfl

def threePages : DiskManager where
  isOpen := true
  pageCount := 3
  freeListHead := invalidPageId
  catalogHead := invalidPageId
  freePages := ∅
  file p := if p = 0 then superblock 3 invalidPageId invalidPageId else samplePage
  fileSize := 3

theorem threePages_mounted : Mounted threePages [] where
  isOpen := rfl
  onFile := ⟨rfl,rfl,by decide,by decide,.inl rfl,rfl,by simp⟩
  freePages := rfl

/-- Page 1 has been changed, and page 2 is new. -/
def writerLog : List LogRecord :=
  [{ type := .pageAllocate,lsn := 2,pageId := 2 },
    { type := .pageUpdate,lsn := 1,pageId := 1,beforeImage := some Page.zero }]

/-- Page 2 is freed, and page 1 cannot be written; page 2 is taken and given back. -/
def retryRun : List Move :=
  [.attempt { faults := fun lsn => if lsn = 1 then { page := some .seek } else {} },
    .allocate samplePage,.remove 2,.attempt {}]

def retried : State := (exec State.nextMet (alone threePages writerLog) retryRun).get rfl

/-- Page 1 is new, and has been changed. -/
def newcomerLog : List LogRecord :=
  [{ type := .pageUpdate,lsn := 2,pageId := 1,beforeImage := some Page.zero },
    { type := .pageAllocate,lsn := 1,pageId := 1 }]

/-- The whole log is undone, and its end cannot be flushed. -/
def repeatedRun : List Move :=
  [.attempt { flush := fail .ioError "cannot flush WAL" },.attempt {}]

def repeated : State := (exec State.next (alone sampleDisk newcomerLog) repeatedRun).get rfl

end Rollback
end OurSql
