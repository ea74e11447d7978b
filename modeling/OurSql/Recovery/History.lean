import OurSql.Recovery.Chains

/-! Histories of committing transactions: where each page's current image is, and
which pages the log has seen freed. -/
namespace OurSql
namespace Recovery

open Crash Storage Transition

/-- The actions of a run in which nothing is aborted and nothing crashes. -/
def Action.forward : Action → Bool
  | .abort _ | .undo _ _ | .abortAppend _ | .abortFlush _ _ => false
  | .crash _ | .recoverCut _ _ _ | .recover _ => false
  | _ => true

def noteImage (by_ : TxnId → Bool) (p : PageId) (image : Option Page) (r : LogRecord) :
    Option Page :=
  if r.type = .pageUpdate ∧ r.pageId = p ∧ by_ r.txnId = true then r.afterImage else image

/-- The after image of the last update of a page by one of these transactions. -/
def lastImage (by_ : TxnId → Bool) (w : List LogRecord) (p : PageId) : Option Page :=
  w.foldl (noteImage by_ p) none

/-- The log has a `PageFree` record of the page. -/
def Freed (w : List LogRecord) (p : PageId) : Prop := ∃ r ∈ w, r.type = .pageFree ∧ r.pageId = p

theorem lastImage_append (by_ : TxnId → Bool) (w : List LogRecord) (r : LogRecord) (p : PageId) :
    lastImage by_ (w ++ [r]) p = noteImage by_ p (lastImage by_ w p) r := by
  simp [lastImage]

theorem noteImage_other {by_ : TxnId → Bool} {p : PageId} {image : Option Page} {r : LogRecord}
    (h : ¬(r.type = .pageUpdate ∧ r.pageId = p ∧ by_ r.txnId = true)) :
    noteImage by_ p image r = image := if_neg h

theorem exists_of_lastImage {by_ : TxnId → Bool} {w : List LogRecord} {p : PageId} {image : Page}
    (h : lastImage by_ w p = some image) :
    ∃ r ∈ w, r.type = .pageUpdate ∧ r.pageId = p ∧ by_ r.txnId = true ∧
      r.afterImage = some image := by
  induction w using List.reverseRecOn with
  | nil => cases h
  | append_singleton w r ih =>
    rw [lastImage_append] at h
    by_cases hr : r.type = .pageUpdate ∧ r.pageId = p ∧ by_ r.txnId = true
    · rw [noteImage,if_pos hr] at h
      exact ⟨r,by simp,hr.1,hr.2.1,hr.2.2,h⟩
    · rw [noteImage_other hr] at h
      obtain ⟨s,hs,hrest⟩ := ih h
      exact ⟨s,by simp [hs],hrest⟩

theorem freed_append (w : List LogRecord) (r : LogRecord) (p : PageId) :
    Freed (w ++ [r]) p ↔ Freed w p ∨ r.type = .pageFree ∧ r.pageId = p := by
  constructor
  · rintro ⟨s,hs,hsf⟩
    rcases List.mem_append.mp hs with hs | hs
    · exact .inl ⟨s,hs,hsf⟩
    · exact .inr (List.mem_singleton.mp hs ▸ hsf)
  · rintro (⟨s,hs,hsf⟩ | h)
    · exact ⟨s,by simp [hs],hsf⟩
    · exact ⟨r,by simp,h⟩

/-- A data page of the file that is not on the free list. -/
structure InUse (d : DiskManager) (p : PageId) : Prop where
  range : 0 < p ∧ p < d.pageCount
  live : p ∉ d.freePages

abbrev everyone : TxnId → Bool := fun _ => true

/-- The pages of a forward run. `current` is about the pages the log has never seen
freed: their last logged image is the current one, and on the file once they are clean. -/
structure Pages (e : Engine) : Prop where
  mounted : ∃ free, Mounted e.store.disk free
  taken : ∀ t p, e.taken t = some p → InUse e.store.disk p ∧ ∀ u, p ∉ e.deferred u
  deferred : ∀ t, ∀ p ∈ e.deferred t, InUse e.store.disk p ∧ Freed e.log p
  once : ∀ t, (e.deferred t).Nodup
  apart : ∀ t u p, p ∈ e.deferred t → p ∈ e.deferred u → t = u
  dirty : ∀ p, e.pageLsn p ≠ invalidLsn → InUse e.store.disk p ∧ e.frame p ≠ none
  range : ∀ r ∈ e.log, r.type = .pageUpdate ∨ r.type = .pageFree →
    0 < r.pageId ∧ r.pageId < e.store.disk.pageCount
  current : ∀ p page, lastImage everyone e.log p = some page → ¬Freed e.log p →
    p ∉ e.store.disk.freePages ∧ (∀ t, e.taken t ≠ some p) ∧ e.image p = page ∧
      (e.pageLsn p = invalidLsn → e.store.disk.file p = page)

theorem Pages.inUse {e : Engine} (h : Pages e) {p : PageId} {page : Page}
    (hl : lastImage everyone e.log p = some page) (hf : ¬Freed e.log p) :
    InUse e.store.disk p := by
  obtain ⟨r,hr,ht,rfl,-⟩ := exists_of_lastImage hl
  exact ⟨h.range r hr (.inl ht),(h.current _ page hl hf).1⟩

/-- A step that touches no page. -/
theorem Pages.silent {e e' : Engine} (h : Pages e) (hdisk : e'.store.disk = e.store.disk)
    (hframe : e'.frame = e.frame) (hlsn : e'.pageLsn = e.pageLsn) (htaken : e'.taken = e.taken)
    (hdeferred : e'.deferred = e.deferred)
    (hlog : e'.log = e.log ∨ ∃ r, r.type ≠ .pageUpdate ∧ r.type ≠ .pageFree ∧ e'.log = e.log ++ [r]) :
    Pages e' := by
  have himage : ∀ p, lastImage everyone e'.log p = lastImage everyone e.log p := by
    intro p
    rcases hlog with hlog | ⟨r,hu,-,hlog⟩
    · rw [hlog]
    · rw [hlog,lastImage_append,noteImage_other fun hc => hu hc.1]
  have hfreed : ∀ p, Freed e'.log p ↔ Freed e.log p := by
    intro p
    rcases hlog with hlog | ⟨r,-,hf,hlog⟩
    · rw [hlog]
    · rw [hlog,freed_append]
      simp [hf]
  have hmem : ∀ r ∈ e'.log, r.type = .pageUpdate ∨ r.type = .pageFree → r ∈ e.log := by
    intro r hr ht
    rcases hlog with hlog | ⟨s,hu,hf,hlog⟩
    · exact hlog ▸ hr
    · rw [hlog] at hr
      rcases List.mem_append.mp hr with hr | hr
      · exact hr
      · rw [List.mem_singleton.mp hr] at ht
        rcases ht with ht | ht
        · exact absurd ht hu
        · exact absurd ht hf
  refine ⟨hdisk ▸ h.mounted,?_,?_,?_,?_,?_,?_,?_⟩
  · rw [htaken,hdeferred,hdisk]
    exact h.taken
  · intro t p hp
    rw [hdeferred] at hp
    rw [hdisk,hfreed]
    exact h.deferred t p hp
  · rw [hdeferred]
    exact h.once
  · rw [hdeferred]
    exact h.apart
  · rw [hlsn,hdisk,hframe]
    exact h.dirty
  · intro r hr ht
    rw [hdisk]
    exact h.range r (hmem r hr ht) ht
  · intro p page hl hf
    rw [himage] at hl
    rw [hfreed] at hf
    have hc := h.current p page hl hf
    simpa only [Engine.image,hdisk,htaken,hframe,hlsn] using hc

theorem Pages.flushFrame {e : Engine} (h : Pages e) {p : PageId} {page : Page}
    (hf : e.frame p = some page) (hd : e.pageLsn p ≠ invalidLsn) : Pages (e.flushFrame p page) := by
  have huse := (h.dirty p hd).1
  obtain ⟨free,hm⟩ := h.mounted
  have hfree : p ∉ free := by
    have hl := huse.live
    rw [hm.freePages] at hl
    simpa using hl
  have hkeep : ∀ q, InUse e.store.disk q → InUse (e.flushFrame p page).store.disk q :=
    fun q hq => ⟨hq.range,hq.live⟩
  refine ⟨⟨free,hm.write huse.range hfree⟩,?_,?_,h.once,h.apart,?_,h.range,?_⟩
  · exact fun t q hq => ⟨hkeep q (h.taken t q hq).1,(h.taken t q hq).2⟩
  · exact fun t q hq => ⟨hkeep q (h.deferred t q hq).1,(h.deferred t q hq).2⟩
  · intro q hq
    by_cases hqp : q = p
    · subst hqp
      exact ⟨hkeep q huse,by simp⟩
    · obtain ⟨hqu,hqf⟩ := h.dirty q (by simpa [hqp] using hq)
      exact ⟨hkeep q hqu,by simpa [hqp] using hqf⟩
  · intro q img hl hfr
    obtain ⟨hlive,htaken,himg,hfile⟩ := h.current q img hl hfr
    refine ⟨hlive,htaken,?_⟩
    by_cases hqp : q = p
    · subst hqp
      have he : page = img := by simpa [Engine.image,hf] using himg
      subst he
      exact ⟨by simp [Engine.image],fun _ => by simp⟩
    · constructor
      · simpa [Engine.image,hqp] using himg
      · intro hz
        simpa [hqp] using hfile (by simpa [hqp] using hz)

/-- The release of a page that is in use. -/
theorem deallocatePage_run {s : Store} {p : PageId} {free : List PageId} (h : Mounted s.disk free)
    (hp : InUse s.disk p) :
    (deallocatePage p).run s = (some (.ok ()),s.mapDisk (·.release p)) := by
  obtain ⟨r,t,hrun,rfl,rfl⟩ := Spec.run (spec_deallocatePage (R := fun _ => True) h.isOpen hp.range
    h.onFile.bound hp.live trivial trivial) rfl
  exact hrun

/-- The part of a cleanup after the dirty frame has gone to the file. -/
theorem Pages.drop {e : Engine} (h : Pages e) {t : TxnId} {p : PageId} {rest : List PageId}
    (hd : e.deferred t = p :: rest) (hclean : e.pageLsn p = invalidLsn) :
    Pages { e.setFrame p none invalidLsn with
      store := ((deallocatePage p).run e.store).2
      deferred := Function.update e.deferred t rest } := by
  obtain ⟨free,hm⟩ := h.mounted
  have hp : p ∈ e.deferred t := by simp [hd]
  obtain ⟨huse,hfreed⟩ := h.deferred t p hp
  have hfree : p ∉ free := by
    have hl := huse.live
    rw [hm.freePages] at hl
    simpa using hl
  have hlater : ∀ u, ∀ q ∈ Function.update e.deferred t rest u, q ∈ e.deferred u ∧ q ≠ p := by
    intro u q hq
    by_cases hut : u = t
    · subst hut
      rw [Function.update_self] at hq
      have hnodup := h.once u
      rw [hd] at hnodup
      exact ⟨by simp [hd,hq],fun hc => (List.nodup_cons.mp hnodup).1 (hc ▸ hq)⟩
    · rw [Function.update_of_ne hut] at hq
      exact ⟨hq,fun hc => hut (h.apart u t p (hc ▸ hq) hp)⟩
  have hkeep : ∀ q, InUse e.store.disk q → q ≠ p → InUse (e.store.disk.release p) q := by
    intro q hq hne
    refine ⟨hq.range,?_⟩
    rw [release_freePages,Finset.mem_insert]
    rintro (hc | hc)
    · exact hne hc
    · exact hq.live hc
  rw [deallocatePage_run hm huse]
  refine ⟨⟨p :: free,hm.release huse.range hfree⟩,?_,?_,?_,?_,?_,h.range,?_⟩
  · intro u q hq
    obtain ⟨hqu,hnone⟩ := h.taken u q hq
    exact ⟨hkeep q hqu fun hc => hnone t (hc ▸ hp),fun v hv => hnone v (hlater v q hv).1⟩
  · intro u q hq
    obtain ⟨hqd,hne⟩ := hlater u q hq
    exact ⟨hkeep q (h.deferred u q hqd).1 hne,(h.deferred u q hqd).2⟩
  · intro u
    by_cases hut : u = t
    · subst hut
      have hnodup := h.once u
      rw [hd] at hnodup
      simpa using (List.nodup_cons.mp hnodup).2
    · simpa [hut] using h.once u
  · exact fun u v q hu hv => h.apart u v q (hlater u q hu).1 (hlater v q hv).1
  · intro q hq
    have hne : q ≠ p := by
      rintro rfl
      exact hq (by simp)
    obtain ⟨hqu,hqf⟩ := h.dirty q (by simpa [hne] using hq)
    exact ⟨hkeep q hqu hne,by simpa [hne] using hqf⟩
  · intro q img hl hfr
    obtain ⟨hlive,htaken,himg,hfile⟩ := h.current q img hl hfr
    have hne : q ≠ p := fun hc => hfr (hc ▸ hfreed)
    have hq0 : q ≠ 0 := Nat.pos_iff_ne_zero.mp (h.inUse hl hfr).range.1
    have hfileq : (e.store.disk.release p).file q = e.store.disk.file q := by
      rw [release_file,Function.update_of_ne hq0,linkPage_file,Function.update_of_ne hne]
    refine ⟨(hkeep q ⟨(h.inUse hl hfr).range,hlive⟩ hne).live,htaken,?_,fun hz => ?_⟩
    · rw [← himg,Engine.image,Engine.image]
      change (Function.update e.frame p none q).getD ((e.store.disk.release p).file q) = _
      rw [hfileq,Function.update_of_ne hne]
    · change (e.store.disk.release p).file q = img
      rw [hfileq]
      exact hfile (by simpa [hne] using hz)

theorem Pages.cleanup {e : Engine} (h : Pages e) {t : TxnId} {p : PageId} {rest : List PageId}
    (hd : e.deferred t = p :: rest) :
    Pages { e.deletePage p with deferred := Function.update e.deferred t rest } := by
  unfold Engine.deletePage
  cases hf : e.frame p with
  | none =>
    by_cases hz : e.pageLsn p = invalidLsn
    · exact h.drop hd hz
    · exact absurd hf (h.dirty p hz).2
  | some page =>
    by_cases hz : e.pageLsn p = invalidLsn
    · simp only [hz,if_true]
      exact h.drop hd hz
    · simp only [hz,if_false]
      exact (h.flushFrame hf hz).drop hd (by simp)

theorem Pages.takePage {e : Engine} (h : Pages e) {t : TxnId} {p : PageId} {store : Store}
    (hb : e.store.disk.pageCount < 4294967295)
    (hrun : allocatePage.run e.store = (some (.ok p),store)) :
    Pages { e with store := store, taken := Function.update e.taken t (some p) } := by
  have ha := allocatePage_run h.mounted hb hrun
  have hlog : store.log.records = e.log := congrArg LogManager.records ha.log
  have hkeep : ∀ q, InUse e.store.disk q → InUse store.disk q := fun q hq =>
    ⟨⟨hq.range.1,lt_of_lt_of_le hq.range.2 ha.count⟩,fun hc => hq.live (ha.shrinks hc)⟩
  have hne : ∀ q, InUse e.store.disk q → q ≠ p := by
    rintro q hq rfl
    rcases ha.origin with ho | ho
    · exact hq.live ho
    · exact absurd hq.range.2 (not_lt.mpr ho)
  refine ⟨ha.mounted,?_,?_,h.once,h.apart,?_,?_,?_⟩
  · intro u q hq
    by_cases hut : u = t
    · subst hut
      have he : p = q := by simpa using hq
      subst he
      exact ⟨⟨ha.range,ha.fresh⟩,fun v hv => hne p (h.deferred v p hv).1 rfl⟩
    · have hq' : e.taken u = some q := by simpa [hut] using hq
      exact ⟨hkeep q (h.taken u q hq').1,(h.taken u q hq').2⟩
  · intro u q hq
    refine ⟨hkeep q (h.deferred u q hq).1,?_⟩
    change Freed store.log.records q
    rw [hlog]
    exact (h.deferred u q hq).2
  · exact fun q hq => ⟨hkeep q (h.dirty q hq).1,(h.dirty q hq).2⟩
  · intro r hr ht
    have hr' : r ∈ e.log := hlog ▸ hr
    exact ⟨(h.range r hr' ht).1,lt_of_lt_of_le (h.range r hr' ht).2 ha.count⟩
  · intro q img hl hfr
    have hl' : lastImage everyone e.log q = some img := hlog ▸ hl
    have hfr' : ¬Freed e.log q := hlog ▸ hfr
    obtain ⟨hlive,htaken,himg,hfile⟩ := h.current q img hl' hfr'
    have huse := h.inUse hl' hfr'
    have hfileq := ha.others q huse.range.1 huse.range.2
    refine ⟨(hkeep q huse).live,?_,?_,fun hz => hfileq.trans (hfile hz)⟩
    · intro u hu
      by_cases hut : u = t
      · subst hut
        exact hne q huse (by simpa using hu.symm)
      · exact htaken u (by simpa [hut] using hu)
    · rw [← himg,Engine.image,Engine.image,hfileq]

theorem Pages.logAllocate {e : Engine} (h : Pages e) {t : TxnId} {p : PageId}
    (htaken : e.taken t = some p) :
    Pages { ((e.appendFor t { type := .pageAllocate, pageId := p }).setFrame p (some Page.zero)
      invalidLsn).lock p t with taken := Function.update e.taken t none } := by
  have hlog : ∀ q, lastImage everyone (e.log ++ [e.stamp t { type := .pageAllocate, pageId := p }]) q =
      lastImage everyone e.log q := by
    intro q
    rw [lastImage_append,noteImage_other]
    rintro ⟨hc,-⟩
    cases hc
  have hfreed : ∀ q, Freed (e.log ++ [e.stamp t { type := .pageAllocate, pageId := p }]) q ↔
      Freed e.log q := by
    intro q
    rw [freed_append]
    constructor
    · rintro (hf | ⟨hc,-⟩)
      · exact hf
      · cases hc
    · exact .inl
  refine ⟨h.mounted,?_,?_,h.once,h.apart,?_,?_,?_⟩
  · intro u q hq
    by_cases hut : u = t
    · subst hut
      simp at hq
    · exact h.taken u q (by simpa [hut] using hq)
  · exact fun u q hq => ⟨(h.deferred u q hq).1,(hfreed q).mpr (h.deferred u q hq).2⟩
  · intro q hq
    have hne : q ≠ p := by
      rintro rfl
      exact hq (by simp)
    obtain ⟨hqu,hqf⟩ := h.dirty q (by simpa [hne] using hq)
    exact ⟨hqu,by simpa [hne] using hqf⟩
  · intro r hr ht
    rcases List.mem_append.mp hr with hr | hr
    · exact h.range r hr ht
    · rw [List.mem_singleton.mp hr] at ht
      rcases ht with ht | ht <;> cases ht
  · intro q img hl hfr
    obtain ⟨hlive,htaken',himg,hfile⟩ := h.current q img ((hlog q).symm.trans hl)
      fun hc => hfr ((hfreed q).mpr hc)
    have hne : q ≠ p := fun hc => htaken' t (hc ▸ htaken)
    refine ⟨hlive,fun u hu => ?_,?_,fun hz => hfile ?_⟩
    · by_cases hut : u = t
      · subst hut
        simp at hu
      · exact htaken' u (by simpa [hut] using hu)
    · simpa [Engine.image,hne] using himg
    · simpa [hne] using hz

theorem Pages.update {e : Engine} (h : Pages e) {t : TxnId} {p : PageId} {page : Page}
    (hu : e.Usable p) :
    Pages (((e.appendFor t (updateRecord p (e.image p) page)).setFrame p (some page)
      (e.store.log.appendLsn + 1)).lock p t) := by
  obtain ⟨hpos,hlt,hlive,htaken,hdeferred⟩ := hu
  have hfreed : ∀ q, Freed (e.log ++ [e.stamp t (updateRecord p (e.image p) page)]) q ↔
      Freed e.log q := by
    intro q
    rw [freed_append]
    constructor
    · rintro (hf | ⟨hc,-⟩)
      · exact hf
      · cases hc
    · exact .inl
  refine ⟨h.mounted,h.taken,?_,h.once,h.apart,?_,?_,?_⟩
  · exact fun u q hq => ⟨(h.deferred u q hq).1,(hfreed q).mpr (h.deferred u q hq).2⟩
  · intro q hq
    by_cases hqp : q = p
    · subst hqp
      exact ⟨⟨⟨hpos,hlt⟩,hlive⟩,by simp⟩
    · obtain ⟨hqu,hqf⟩ := h.dirty q (by simpa [hqp] using hq)
      exact ⟨hqu,by simpa [hqp] using hqf⟩
  · intro r hr ht
    rcases List.mem_append.mp hr with hr | hr
    · exact h.range r hr ht
    · rw [List.mem_singleton.mp hr]
      exact ⟨hpos,hlt⟩
  · intro q img hl hfr
    change lastImage everyone (e.log ++ [_]) q = some img at hl
    rw [lastImage_append] at hl
    by_cases hqp : q = p
    · subst hqp
      have he : page = img := by simpa [noteImage,Engine.stamp,updateRecord] using hl
      subst he
      exact ⟨hlive,htaken,by simp [Engine.image],fun hz => by
        simp [invalidLsn] at hz⟩
    · rw [noteImage_other fun hc => hqp hc.2.1.symm] at hl
      obtain ⟨hlive',htaken',himg,hfile⟩ := h.current q img hl fun hc => hfr ((hfreed q).mpr hc)
      refine ⟨hlive',htaken',?_,fun hz => hfile ?_⟩
      · simpa [Engine.image,hqp] using himg
      · simpa [hqp] using hz

theorem Pages.free {e : Engine} (h : Pages e) {t : TxnId} {p : PageId} (hu : e.Usable p) :
    Pages { ((e.appendFor t { type := .pageFree, pageId := p }).lock p t) with
      deferred := Function.update e.deferred t (e.deferred t ++ [p]) } := by
  obtain ⟨hpos,hlt,hlive,htaken,hdeferred⟩ := hu
  have hmono : ∀ q, Freed e.log q → Freed (e.log ++ [e.stamp t { type := .pageFree, pageId := p }]) q :=
    fun q hq => (freed_append _ _ q).mpr (.inl hq)
  have hold : ∀ u q, q ∈ Function.update e.deferred t (e.deferred t ++ [p]) u →
      q ∈ e.deferred u ∨ u = t ∧ q = p := by
    intro u q hq
    by_cases hut : u = t
    · subst hut
      rw [Function.update_self] at hq
      rcases List.mem_append.mp hq with hq | hq
      · exact .inl hq
      · exact .inr ⟨rfl,List.mem_singleton.mp hq⟩
    · rw [Function.update_of_ne hut] at hq
      exact .inl hq
  refine ⟨h.mounted,?_,?_,?_,?_,h.dirty,?_,?_⟩
  · intro u q hq
    refine ⟨(h.taken u q hq).1,fun v hv => ?_⟩
    rcases hold v q hv with hv | ⟨-,rfl⟩
    · exact (h.taken u q hq).2 v hv
    · exact htaken u hq
  · intro u q hq
    rcases hold u q hq with hq | ⟨rfl,rfl⟩
    · exact ⟨(h.deferred u q hq).1,hmono q (h.deferred u q hq).2⟩
    · exact ⟨⟨⟨hpos,hlt⟩,hlive⟩,(freed_append _ _ _).mpr (.inr ⟨rfl,rfl⟩)⟩
  · intro u
    change (Function.update e.deferred t (e.deferred t ++ [p]) u).Nodup
    by_cases hut : u = t
    · subst hut
      rw [Function.update_self,List.nodup_append]
      refine ⟨h.once u,by simp,fun q hq x hx => ?_⟩
      rw [List.mem_singleton.mp hx]
      exact fun hc => hdeferred u (hc ▸ hq)
    · rw [Function.update_of_ne hut]
      exact h.once u
  · intro u v q hqu hqv
    rcases hold u q hqu with hu | ⟨hu,hup⟩ <;> rcases hold v q hqv with hv | ⟨hv,hvp⟩
    · exact h.apart u v q hu hv
    · exact absurd (hvp ▸ hu) (hdeferred u)
    · exact absurd (hup ▸ hv) (hdeferred v)
    · exact hu.trans hv.symm
  · intro r hr ht
    rcases List.mem_append.mp hr with hr | hr
    · exact h.range r hr ht
    · rw [List.mem_singleton.mp hr]
      exact ⟨hpos,hlt⟩
  · intro q img hl hfr
    change lastImage everyone (e.log ++ [_]) q = some img at hl
    rw [lastImage_append,noteImage_other (by rintro ⟨hc,-⟩; cases hc)] at hl
    exact h.current q img hl fun hc => hfr (hmono q hc)

theorem Pages.evict {e : Engine} (h : Pages e) {p : PageId} (hp : e.pageLsn p = invalidLsn) :
    Pages (e.setFrame p none invalidLsn) := by
  refine ⟨h.mounted,h.taken,h.deferred,h.once,h.apart,?_,h.range,?_⟩
  · intro q hq
    have hne : q ≠ p := by
      rintro rfl
      exact hq (by simp)
    obtain ⟨hqu,hqf⟩ := h.dirty q (by simpa [hne] using hq)
    exact ⟨hqu,by simpa [hne] using hqf⟩
  · intro q img hl hfr
    obtain ⟨hlive,htaken,himg,hfile⟩ := h.current q img hl hfr
    refine ⟨hlive,htaken,?_⟩
    by_cases hqp : q = p
    · subst hqp
      exact ⟨by simpa [Engine.image] using hfile hp,fun _ => hfile hp⟩
    · exact ⟨by simpa [Engine.image,hqp] using himg,fun hz => hfile (by
        simpa [hqp] using hz)⟩

theorem Pages.step {e e' : Engine} {a : Action} (h : Pages e) (hfwd : a.forward = true)
    (hs : Step e a e') : Pages e' := by
  cases hs with
  | begin => exact h.silent rfl rfl rfl rfl rfl (.inr ⟨_,by simp,by simp,rfl⟩)
  | takePage ht htaken hb hrun => exact h.takePage hb hrun
  | logAllocate ht htaken hl => exact h.logAllocate htaken
  | update ht hu hl => exact h.update hu
  | free ht hu hl => exact h.free hu
  | flushLog hl => exact h.silent rfl rfl rfl rfl rfl (.inl rfl)
  | flushPage hf hd hp => exact h.flushFrame hf hd
  | evict hp => exact h.evict hp
  | commit ht htaken => exact h.silent rfl rfl rfl rfl rfl (.inr ⟨_,by simp,by simp,rfl⟩)
  | commitFlush ht => exact h.silent rfl rfl rfl rfl rfl (.inl rfl)
  | cleanup ht hd => exact h.cleanup hd
  | finish ht hd => exact h.silent rfl rfl rfl rfl rfl (.inl rfl)
  | abort ht htaken => cases hfwd
  | undo hr hrt ht => cases hfwd
  | abortAppend ht => cases hfwd
  | abortFlush ht => cases hfwd

/-- The engine over a sound file and an empty log. -/
def Fresh (e : Engine) : Prop :=
  ∃ d free, Mounted d free ∧ e = Engine.start ⟨d,.empty⟩ (nextTransactionId [])

/-- The states of all histories of committing transactions. -/
def Forward (e : Engine) : Prop :=
  Reach Fresh (fun e a e' => a.forward = true ∧ Step e a e') e

theorem Fresh.logOk {e : Engine} (h : Fresh e) : LogOk e := by
  obtain ⟨d,free,-,rfl⟩ := h
  exact ⟨wellFormed_nil,by simp [Engine.log,Engine.start,LogManager.empty],Nat.succ_ne_zero _,
    by simp [Engine.start],by simp [Engine.start],fun t r hr => by
      simp [Engine.log,Engine.start,LogManager.empty] at hr⟩

theorem Fresh.pages {e : Engine} (h : Fresh e) : Pages e := by
  obtain ⟨d,free,hm,rfl⟩ := h
  refine ⟨⟨free,hm⟩,?_,?_,?_,?_,?_,?_,?_⟩ <;>
    simp [Engine.start,Engine.log,LogManager.empty,lastImage]

theorem Forward.logOk {e : Engine} (h : Forward e) : LogOk e :=
  Reach.invariant (fun _ h => h.logOk) (fun _ _ _ h hs => h.step hs.2) h

theorem Forward.pages {e : Engine} (h : Forward e) : Pages e :=
  Reach.invariant (fun _ h => h.pages) (fun _ _ _ h hs => h.step hs.1 hs.2) h

/-- Forward histories log neither Abort nor compensation records. -/
theorem Forward.types {e : Engine} (h : Forward e) :
    ∀ r ∈ e.log, r.type ≠ .abort ∧ r.type ≠ .compensation := by
  refine Reach.invariant (P := fun e => ∀ r ∈ e.log, r.type ≠ .abort ∧ r.type ≠ .compensation)
    ?_ ?_ h
  · rintro e ⟨d,free,-,rfl⟩ r hr
    simp [Engine.log,Engine.start,LogManager.empty] at hr
  · rintro e a e' hi ⟨hfwd,hs⟩
    have hadd : ∀ record : LogRecord, record.type ≠ .abort → record.type ≠ .compensation →
        ∀ r ∈ e.log ++ [record], r.type ≠ .abort ∧ r.type ≠ .compensation := by
      intro record ha hc r hr
      rcases List.mem_append.mp hr with hr | hr
      · exact hi r hr
      · exact List.mem_singleton.mp hr ▸ ⟨ha,hc⟩
    cases hs with
    | begin => exact hadd _ (by simp) (by simp)
    | @takePage t p store ht htaken hb hrun =>
      have hlog := keeps_log_allocatePage.run e.store
      rw [hrun] at hlog
      change ∀ r ∈ store.log.records, _
      rw [show store.log.records = e.log from congrArg LogManager.records hlog]
      exact hi
    | logAllocate ht htaken hl => exact hadd _ (by simp) (by simp)
    | update ht hu hl => exact hadd _ (by simp [updateRecord]) (by simp [updateRecord])
    | free ht hu hl => exact hadd _ (by simp) (by simp)
    | flushLog hl => exact hi
    | flushPage hf hd hp => exact hi
    | evict hp => exact hi
    | commit ht htaken => exact hadd _ (by simp) (by simp)
    | commitFlush ht => exact hi
    | @cleanup t p rest ht hd =>
      change ∀ r ∈ (e.deletePage p).log, _
      rw [deletePage_log]
      exact hi
    | finish ht hd => exact hi
    | abort ht htaken => cases hfwd
    | undo hr hrt ht => cases hfwd
    | abortAppend ht => cases hfwd
    | abortFlush ht => cases hfwd

end Recovery
end OurSql
