import OurSql.Rollback.Pool

/-! `Undo` of a transaction through the buffer pool: its records are undone from the newest
to the oldest, and the first one that fails ends the walk. -/
namespace OurSql
namespace Rollback

open Storage

/-- The pool, and the pages whose deletion a rollback has begun. -/
structure Undoing where
  pool : Pool
  begun : Finset PageId

/-- An error of this kind counts as a success. -/
def forgive (code : ErrorCode) : Status → Status
  | .ok () => .ok ()
  | .error e => if e.code = code then .ok () else .error e

/-- One turn of the loop of `Undo`. -/
def undoRecord (f : Faults) (r : LogRecord) (x : Undoing) : Status × Undoing :=
  match r.type with
  | .pageUpdate =>
    match r.beforeImage with
    | none => (fail .invalidArgument "transaction undo requires one full page image",x)
    | some image =>
      let restored := x.pool.restorePage f.page r.pageId image
      (restored.1,{ x with pool := restored.2 })
  | .pageAllocate =>
    let deleted := x.pool.deletePage f r.pageId
    let begun := if (x.pool.beginPageDeletion r.pageId).1 = .ok () then insert r.pageId x.begun
      else x.begun
    (forgive .alreadyExists deleted.1,⟨deleted.2,begun⟩)
  | .pageFree =>
    let cancelled := x.pool.cancelPageDeletion r.pageId
    (forgive .notFound cancelled.1,{ x with pool := cancelled.2 })
  | _ => (.ok (),x)

/-- The records of the transaction come from the newest to the oldest. -/
def undo (faults : Lsn → Faults) : List LogRecord → Undoing → Status × Undoing
  | [], x => (.ok (),x)
  | r::older, x =>
    match undoRecord (faults r.lsn) r x with
    | (.error e,x) => (.error e,x)
    | (.ok (),x) => undo faults older x

/-- The pages of the records of one kind. -/
def pagesOf (type : LogRecordType) (history : List LogRecord) : List PageId :=
  (history.filter (·.type = type)).map (·.pageId)

/-- The page before the first update of the transaction. -/
def oldest (p : PageId) : List LogRecord → Option Page
  | [] => none
  | r::older =>
    (oldest p older).or (if r.type = .pageUpdate ∧ r.pageId = p then r.beforeImage else none)

def OfPage (r : LogRecord) : Prop :=
  r.type = .pageUpdate ∨ r.type = .pageAllocate ∨ r.type = .pageFree

instance : DecidablePred OfPage := fun _ => inferInstanceAs (Decidable (_ ∨ _ ∨ _))

/-- The pages the transaction holds an X lock on. -/
def lockedPages (history : List LogRecord) : List PageId :=
  (history.filter OfPage).map (·.pageId)

/-- A page is allocated before anything else is done to it. -/
def Proper (history : List LogRecord) : Prop :=
  history.Pairwise fun newer older =>
    newer.type = .pageAllocate → OfPage older → older.pageId ≠ newer.pageId

variable {history older : List LogRecord} {r : LogRecord} {x x' : Undoing} {p q : PageId}
  {type : LogRecordType} {answer : Status} {f : Faults} {page : Page}

theorem mem_pagesOf : p ∈ pagesOf type history ↔ ∃ r ∈ history, r.type = type ∧ r.pageId = p := by
  simp [pagesOf,and_assoc]

theorem mem_lockedPages : p ∈ lockedPages history ↔ ∃ r ∈ history, OfPage r ∧ r.pageId = p := by
  simp [lockedPages,and_assoc]

theorem mem_lockedPages_cons : p ∈ lockedPages (r::older) ↔
    (OfPage r ∧ r.pageId = p) ∨ p ∈ lockedPages older := by
  simp [mem_lockedPages]

theorem mem_lockedPages_of (hp : p ∈ pagesOf type history)
    (htype : type = .pageUpdate ∨ type = .pageAllocate ∨ type = .pageFree) :
    p ∈ lockedPages history := by
  obtain ⟨r,hmem,rfl,hpage⟩ := mem_pagesOf.mp hp
  exact mem_lockedPages.mpr ⟨r,hmem,htype,hpage⟩

theorem mem_pagesOf_cons : p ∈ pagesOf type (r::older) ↔
    (r.type = type ∧ r.pageId = p) ∨ p ∈ pagesOf type older := by
  simp [mem_pagesOf]

/-- The pool before these records are undone. -/
structure Walk (history : List LogRecord) (x : Undoing) : Prop where
  sound : Sound x.pool
  proper : Proper history
  range : ∀ r ∈ history, OfPage r → 0 < r.pageId ∧ r.pageId < x.pool.disk.pageCount
  inUse : ∀ p ∈ pagesOf .pageUpdate history, p ∉ x.pool.disk.freePages
  reserved : ∀ p ∈ pagesOf .pageAllocate history, p ∈ x.pool.pending →
    p ∈ pagesOf .pageFree history

/-- Nothing is left half done. -/
structure Calm (x x' : Undoing) : Prop where
  sound : Sound x'.pool
  pending : x'.pool.pending ⊆ x.pool.pending
  free : ∀ p ∈ x'.pool.disk.freePages, p ∈ x.pool.disk.freePages ∨ p ∈ x'.begun

/-- What undoing these records comes to, whether it fails or not. -/
structure Ran (history : List LogRecord) (x x' : Undoing) (answer : Status) : Prop where
  count : x'.pool.disk.pageCount = x.pool.disk.pageCount
  content : ∀ q, q ≠ 0 → q ∉ pagesOf .pageUpdate history → q ∉ pagesOf .pageAllocate history →
    x'.pool.content q = x.pool.content q ∧ x'.pool.disk.file q = x.pool.disk.file q
  clean : ∀ q, q ≠ 0 → q ∉ pagesOf .pageUpdate history → q ∉ pagesOf .pageAllocate history →
    x.pool.Clean q → x'.pool.Clean q
  free : ∀ q, q ∉ pagesOf .pageAllocate history →
    (q ∈ x'.pool.disk.freePages ↔ q ∈ x.pool.disk.freePages)
  frames : ∀ q, q ∉ lockedPages history → x'.pool.frames q = x.pool.frames q
  begun : ∀ p ∈ x'.begun, p ∈ x.begun ∨ p ∈ pagesOf .pageAllocate history
  keeps : x.begun ⊆ x'.begun
  calm : Calm x x' ∨ ∃ p ∈ x'.begun, p ∉ x'.pool.disk.freePages

/-- What it has reached if it succeeds. -/
structure Undone (history : List LogRecord) (x x' : Undoing) : Prop where
  calm : Calm x x'
  images : ∀ r ∈ history, r.type = .pageUpdate → r.beforeImage ≠ none
  freed : ∀ p ∈ pagesOf .pageAllocate history, p ∈ x'.pool.disk.freePages
  cancelled : ∀ p ∈ pagesOf .pageFree history, p ∉ x'.pool.pending
  restored : ∀ p page, oldest p history = some page → p ∉ pagesOf .pageAllocate history →
    x'.pool.content p = page ∧ x'.pool.disk.file p = page

theorem Calm.refl (h : Sound x.pool) : Calm x x := ⟨h,Finset.Subset.refl _,fun _ hp => .inl hp⟩

theorem Ran.refl (h : Sound x.pool) : Ran history x x answer :=
  ⟨rfl,fun _ _ _ _ => ⟨rfl,rfl⟩,fun _ _ _ _ hc => hc,fun _ _ => Iff.rfl,fun _ _ => rfl,
    fun _ hp => .inl hp,Finset.Subset.refl _,.inl (.refl h)⟩

section records

variable (h : Walk [r] x)

include h

/-- A restored page. -/
theorem undoRecord_update (hr : r.type = .pageUpdate) :
    Ran [r] x (undoRecord f r x).2 (undoRecord f r x).1 ∧
      ((undoRecord f r x).1 = .ok () → Undone [r] x (undoRecord f r x).2) := by
  unfold undoRecord
  simp only [hr]
  cases himage : r.beforeImage with
  | none => exact ⟨.refl h.sound,fun he => by cases he⟩
  | some image =>
    have hin : r.pageId ∈ pagesOf .pageUpdate [r] := by simp [mem_pagesOf,hr]
    have hp := restorePage_spec h.sound (h.range r (by simp) (.inl hr)) (h.inUse r.pageId hin)
      f.page image
    have hcalm : Calm x { x with pool := (x.pool.restorePage f.page r.pageId image).2 } :=
      ⟨hp.sound,subset_of_eq hp.pending,fun p hfree => .inl (hp.free ▸ hfree)⟩
    refine ⟨⟨hp.leaves.count,fun q h0 hq _ => ?_,fun q h0 hq _ => ?_,fun q _ => ?_,
      fun q hq => ?_,fun p hb => .inl hb,Finset.Subset.refl _,.inl hcalm⟩,fun hok => ⟨hcalm,?_,?_,?_,?_⟩⟩
    · have hne : q ≠ r.pageId := fun he => hq (he ▸ hin)
      exact ⟨hp.leaves.content hne h0,hp.leaves.file hne h0⟩
    · exact hp.leaves.clean (fun he => hq (he ▸ hin)) h0
    · exact iff_of_eq (congrArg (q ∈ ·) hp.free)
    · exact hp.leaves.frames fun he => hq (he ▸ mem_lockedPages_of hin (.inl rfl))
    · simp [himage]
    · simp [mem_pagesOf,hr]
    · simp [mem_pagesOf,hr]
    · intro p page hold _
      obtain ⟨rfl,hpage⟩ : r.pageId = p ∧ image = page := by
        simpa [oldest,hr,himage] using hold
      exact hpage ▸ hp.page hok

/-- A cancelled deletion. -/
theorem undoRecord_free (hr : r.type = .pageFree) :
    Ran [r] x (undoRecord f r x).2 (undoRecord f r x).1 ∧
      ((undoRecord f r x).1 = .ok () → Undone [r] x (undoRecord f r x).2) := by
  unfold undoRecord
  simp only [hr]
  have hp := cancelPageDeletion_spec h.sound r.pageId
  have hfile : (x.pool.cancelPageDeletion r.pageId).2.disk = x.pool.disk := hp.disk
  have hcalm : Calm x { x with pool := (x.pool.cancelPageDeletion r.pageId).2 } :=
    ⟨hp.sound,hp.pending,fun p hfree => .inl (hfile ▸ hfree)⟩
  have hin : r.pageId ∈ lockedPages [r] := by simp [mem_lockedPages,OfPage,hr]
  refine ⟨⟨hp.leaves.count,fun q h0 _ _ => ⟨?_,by rw [hfile]⟩,fun q h0 _ _ => ?_,
    fun q _ => by rw [hfile],fun q hq => hp.leaves.frames fun he => hq (he ▸ hin),
    fun p hb => .inl hb,Finset.Subset.refl _,.inl hcalm⟩,fun hok => ⟨hcalm,by simp [hr],?_,?_,?_⟩⟩
  · by_cases he : q = r.pageId
    · exact he ▸ hp.content
    · exact hp.leaves.content he h0
  · by_cases he : q = r.pageId
    · exact he ▸ hp.clean
    · exact hp.leaves.clean he h0
  · simp [mem_pagesOf,hr]
  · intro p hmem
    obtain rfl : r.pageId = p := by simpa [mem_pagesOf,hr] using hmem
    refine hp.gone fun e he => ?_
    rw [he] at hok
    by_contra hcode
    simp [forgive,hcode] at hok
  · simp [oldest,hr]

/-- A page taken back. -/
theorem undoRecord_allocate (hr : r.type = .pageAllocate) :
    Ran [r] x (undoRecord f r x).2 (undoRecord f r x).1 ∧
      ((undoRecord f r x).1 = .ok () → Undone [r] x (undoRecord f r x).2) := by
  unfold undoRecord
  simp only [hr]
  have hin : r.pageId ∈ pagesOf .pageAllocate [r] := by simp [mem_pagesOf,hr]
  have hpend : r.pageId ∉ x.pool.pending := by
    intro hmem
    have := h.reserved r.pageId hin hmem
    simp [mem_pagesOf,hr] at this
  have hp := deletePage_spec h.sound (h.range r (by simp) (.inr (.inl hr))) hpend f
  rcases hd : x.pool.deletePage f r.pageId with ⟨answer,pool⟩
  rw [hd] at hp
  have hcontent : ∀ q, q ≠ 0 → Leaves x.pool pool r.pageId → q ∉ pagesOf .pageAllocate [r] →
      pool.content q = x.pool.content q ∧ pool.disk.file q = x.pool.disk.file q := by
    intro q h0 hleaves hq
    have hne : q ≠ r.pageId := fun he => hq (he ▸ hin)
    exact ⟨hleaves.content hne h0,hleaves.file hne h0⟩
  have hclean : ∀ q, q ≠ 0 → Leaves x.pool pool r.pageId → q ∉ pagesOf .pageAllocate [r] →
      x.pool.Clean q → pool.Clean q := fun q h0 hleaves hq =>
    hleaves.clean (fun he => hq (he ▸ hin)) h0
  have hbegun : ∀ p ∈ insert r.pageId x.begun, p ∈ x.begun ∨ p ∈ pagesOf .pageAllocate [r] := by
    intro p hp
    rcases Finset.mem_insert.mp hp with rfl | hp
    · exact .inr hin
    · exact .inl hp
  have hframes : ∀ q, Leaves x.pool pool r.pageId → q ∉ lockedPages [r] →
      pool.frames q = x.pool.frames q := fun q hleaves hq =>
    hleaves.frames fun he => hq (he ▸ mem_lockedPages_of hin (.inr (.inl rfl)))
  cases hp with
  | done hstart hsound hfreed hleaves =>
    simp only [hstart,if_true]
    have hcalm : Calm x ⟨pool,insert r.pageId x.begun⟩ := by
      refine ⟨hsound,fun p hp => ?_,fun p hp => ?_⟩
      · have hne : p ≠ r.pageId := fun he => hsound.pending hp (he ▸ hfreed)
        exact (hleaves.pending hne).mp hp
      · by_cases hne : p = r.pageId
        · exact .inr (by simp [hne])
        · exact .inl ((hleaves.free hne).mp hp)
    refine ⟨⟨hleaves.count,fun q h0 _ hq => hcontent q h0 hleaves hq,
      fun q h0 _ hq => hclean q h0 hleaves hq,fun q hq => ?_,fun q hq => hframes q hleaves hq,
      hbegun,Finset.subset_insert _ _,.inl hcalm⟩,fun _ => ⟨hcalm,by simp [hr],?_,?_,?_⟩⟩
    · exact hleaves.free fun he => hq (he ▸ hin)
    · intro p hp
      obtain rfl : r.pageId = p := by simpa [mem_pagesOf,hr] using hp
      exact hfreed
    · simp [mem_pagesOf,hr]
    · simp [oldest,hr]
  | refused e hcode hstart hsame =>
    subst hsame
    have hno : (x.pool.beginPageDeletion r.pageId).1 ≠ .ok () := by simp [hstart]
    simp only [hno,if_false]
    refine ⟨.refl h.sound,fun hok => ?_⟩
    simp [forgive,hcode] at hok
  | stuck e hcode hstart hnot hleaves =>
    simp only [hstart,if_true]
    refine ⟨⟨hleaves.count,fun q h0 _ hq => hcontent q h0 hleaves hq,
      fun q h0 _ hq => hclean q h0 hleaves hq,fun q hq => ?_,fun q hq => hframes q hleaves hq,
      hbegun,Finset.subset_insert _ _,.inr ⟨r.pageId,by simp,hnot⟩⟩,fun hok => ?_⟩
    · exact hleaves.free fun he => hq (he ▸ hin)
    · simp [forgive,hcode] at hok

theorem undoRecord_ran (f : Faults) : Ran [r] x (undoRecord f r x).2 (undoRecord f r x).1 ∧
    ((undoRecord f r x).1 = .ok () → Undone [r] x (undoRecord f r x).2) := by
  by_cases hpage : OfPage r
  · rcases hpage with hr | hr | hr
    · exact undoRecord_update h hr
    · exact undoRecord_allocate h hr
    · exact undoRecord_free h hr
  · have hnone : ∀ type, type = .pageUpdate ∨ type = .pageAllocate ∨ type = .pageFree →
        r.type ≠ type := by
      rintro type htype rfl
      exact hpage htype
    have hskip : undoRecord f r x = (.ok (),x) := by
      unfold undoRecord
      split
      next hr => exact absurd hr (hnone _ (.inl rfl))
      next hr => exact absurd hr (hnone _ (.inr (.inl rfl)))
      next hr => exact absurd hr (hnone _ (.inr (.inr rfl)))
      next => rfl
    rw [hskip]
    refine ⟨.refl h.sound,fun _ => ⟨.refl h.sound,?_,?_,?_,?_⟩⟩
    · simp [hnone _ (.inl rfl)]
    · simp [mem_pagesOf,hnone _ (.inr (.inl rfl))]
    · simp [mem_pagesOf,hnone _ (.inr (.inr rfl))]
    · simp [oldest,hnone _ (.inl rfl)]

end records

/-! ### The walk -/

theorem Walk.head (h : Walk (r::older) x) : Walk [r] x where
  sound := h.sound
  proper := List.pairwise_singleton ..
  range := fun r' hr' => h.range r' (by simp_all)
  inUse := fun p hp => h.inUse p (mem_pagesOf_cons.mpr (.inl (by simpa [mem_pagesOf] using hp)))
  reserved := by
    intro p hp hpend
    obtain ⟨hr,rfl⟩ : r.type = .pageAllocate ∧ r.pageId = p := by simpa [mem_pagesOf] using hp
    have hfree := h.reserved r.pageId (mem_pagesOf_cons.mpr (.inl ⟨hr,rfl⟩)) hpend
    rcases mem_pagesOf_cons.mp hfree with ⟨hr',-⟩ | hold
    · exact absurd (hr.symm.trans hr') (by simp)
    · obtain ⟨r',hmem,hr',hpage⟩ := mem_pagesOf.mp hold
      exact absurd hpage ((List.pairwise_cons.mp h.proper).1 r' hmem hr (.inr (.inr hr')))

/-- A page that these records allocate is no page of older ones. -/
theorem Walk.fresh (h : Walk (r::older) x) (hp : p ∈ pagesOf .pageAllocate [r])
    (htype : type = .pageUpdate ∨ type = .pageAllocate ∨ type = .pageFree) :
    p ∉ pagesOf type older := by
  obtain ⟨hr,rfl⟩ : r.type = .pageAllocate ∧ r.pageId = p := by simpa [mem_pagesOf] using hp
  intro hold
  obtain ⟨r',hmem,hr',hpage⟩ := mem_pagesOf.mp hold
  have hof : OfPage r' := by rw [OfPage,hr']; exact htype
  exact (List.pairwise_cons.mp h.proper).1 r' hmem hr hof hpage

theorem Walk.tail (h : Walk (r::older) x) (hr : Ran [r] x x' answer) (hd : Undone [r] x x') :
    Walk older x' where
  sound := hd.calm.sound
  proper := (List.pairwise_cons.mp h.proper).2
  range := fun r' hmem hof => hr.count ▸ h.range r' (List.mem_cons_of_mem r hmem) hof
  inUse := by
    intro p hp hfree
    have hnot : p ∉ pagesOf .pageAllocate [r] := fun hin => h.fresh hin (.inl rfl) hp
    exact h.inUse p (mem_pagesOf_cons.mpr (.inr hp)) ((hr.free p hnot).mp hfree)
  reserved := by
    intro p hp hpend
    have hin := h.reserved p (mem_pagesOf_cons.mpr (.inr hp)) (hd.calm.pending hpend)
    rcases mem_pagesOf_cons.mp hin with ⟨htype,hpage⟩ | hold
    · exact absurd hpend (hd.cancelled p (mem_pagesOf.mpr ⟨r,by simp,htype,hpage⟩))
    · exact hold

theorem Calm.trans {x₁ x₂ : Undoing} (h : Calm x x₁) (h' : Calm x₁ x₂)
    (hkeeps : x₁.begun ⊆ x₂.begun) : Calm x x₂ where
  sound := h'.sound
  pending := h'.pending.trans h.pending
  free := by
    intro p hp
    rcases h'.free p hp with hfree | hbegun
    · exact (h.free p hfree).imp_right fun hb => hkeeps hb
    · exact .inr hbegun

theorem not_locked_cons (h : q ∉ lockedPages (r::older)) :
    q ∉ lockedPages [r] ∧ q ∉ lockedPages older := by
  simp only [mem_lockedPages_cons,not_or] at h ⊢
  exact ⟨⟨h.1,by simp [lockedPages]⟩,h.2⟩

theorem not_mem_cons (h : q ∉ pagesOf type (r::older)) :
    q ∉ pagesOf type [r] ∧ q ∉ pagesOf type older := by
  simp only [mem_pagesOf_cons,not_or] at h ⊢
  exact ⟨⟨h.1,by simp [pagesOf]⟩,h.2⟩

/-- A walk that fails at its first record. -/
theorem Ran.weaken (h : Ran [r] x x' answer) : Ran (r::older) x x' answer where
  count := h.count
  content := fun q h0 hu ha => h.content q h0 (not_mem_cons hu).1 (not_mem_cons ha).1
  clean := fun q h0 hu ha => h.clean q h0 (not_mem_cons hu).1 (not_mem_cons ha).1
  free := fun q ha => h.free q (not_mem_cons ha).1
  frames := fun q hq => h.frames q (not_locked_cons hq).1
  begun := by
    intro p hp
    refine (h.begun p hp).imp_right fun hin => mem_pagesOf_cons.mpr (.inl ?_)
    simpa [mem_pagesOf] using hin
  keeps := h.keeps
  calm := h.calm

variable {x₁ x₂ : Undoing} {answer₁ : Status}

theorem Ran.cons (h : Ran [r] x x₁ answer₁) (hc : Calm x x₁) (h' : Ran older x₁ x₂ answer) :
    Ran (r::older) x x₂ answer where
  count := h'.count.trans h.count
  content := by
    intro q h0 hu ha
    obtain ⟨hc1,hf1⟩ := h.content q h0 (not_mem_cons hu).1 (not_mem_cons ha).1
    obtain ⟨hc2,hf2⟩ := h'.content q h0 (not_mem_cons hu).2 (not_mem_cons ha).2
    exact ⟨hc2.trans hc1,hf2.trans hf1⟩
  clean := fun q h0 hu ha hc => h'.clean q h0 (not_mem_cons hu).2 (not_mem_cons ha).2
    (h.clean q h0 (not_mem_cons hu).1 (not_mem_cons ha).1 hc)
  free := fun q ha => (h'.free q (not_mem_cons ha).2).trans (h.free q (not_mem_cons ha).1)
  frames := fun q hq =>
    (h'.frames q (not_locked_cons hq).2).trans (h.frames q (not_locked_cons hq).1)
  begun := by
    intro p hp
    rcases h'.begun p hp with hp | hp
    · refine (h.begun p hp).imp_right fun hin => mem_pagesOf_cons.mpr (.inl ?_)
      simpa [mem_pagesOf] using hin
    · exact .inr (mem_pagesOf_cons.mpr (.inr hp))
  keeps := h.keeps.trans h'.keeps
  calm := h'.calm.imp_left fun hcalm => hc.trans hcalm h'.keeps

theorem oldest_eq_none (himages : ∀ r ∈ history, r.type = .pageUpdate → r.beforeImage ≠ none)
    (h : oldest p history = none) : p ∉ pagesOf .pageUpdate history := by
  intro hp
  obtain ⟨r,hmem,hr,rfl⟩ := mem_pagesOf.mp hp
  induction history with
  | nil => cases hmem
  | cons r' older ih =>
    simp only [oldest,Option.or_eq_none_iff] at h
    rcases List.mem_cons.mp hmem with rfl | hold
    · exact himages r (by simp) hr (by simpa [hr] using h.2)
    · exact ih (fun r hr => himages r (List.mem_cons_of_mem _ hr)) hold h.1
        (mem_pagesOf.mpr ⟨r,hold,hr,rfl⟩)

theorem Undone.cons (hw : Walk (r::older) x) (h : Ran [r] x x₁ answer₁) (hd : Undone [r] x x₁)
    (h' : Ran older x₁ x₂ answer) (hd' : Undone older x₁ x₂) : Undone (r::older) x x₂ where
  calm := hd.calm.trans hd'.calm h'.keeps
  images := by
    intro r' hmem
    rcases List.mem_cons.mp hmem with rfl | hold
    · exact hd.images r' (by simp)
    · exact hd'.images r' hold
  freed := by
    intro p hp
    by_cases hin : p ∈ pagesOf .pageAllocate [r]
    · exact (h'.free p (hw.fresh hin (.inr (.inl rfl)))).mpr (hd.freed p hin)
    · rcases mem_pagesOf_cons.mp hp with ⟨hr,hpage⟩ | hold
      · exact absurd (mem_pagesOf.mpr ⟨r,by simp,hr,hpage⟩) hin
      · exact hd'.freed p hold
  cancelled := by
    intro p hp
    rcases mem_pagesOf_cons.mp hp with ⟨hr,hpage⟩ | hold
    · have hgone := hd.cancelled p (mem_pagesOf.mpr ⟨r,by simp,hr,hpage⟩)
      exact fun hpend => hgone (hd'.calm.pending hpend)
    · exact hd'.cancelled p hold
  restored := by
    intro p page hold hp
    obtain ⟨hp1,hp2⟩ := not_mem_cons hp
    cases ho : oldest p older with
    | some image =>
      have himage : image = page := by simpa [oldest,ho] using hold
      exact himage ▸ hd'.restored p image ho hp2
    | none =>
      have hfirst : oldest p [r] = some page := by simpa [oldest,ho] using hold
      obtain ⟨hc1,hf1⟩ := hd.restored p page hfirst hp1
      have hupdate : r.type = .pageUpdate ∧ r.pageId = p := by
        by_contra hno
        simp [oldest,hno] at hfirst
      have h0 : p ≠ 0 := by
        rw [← hupdate.2]
        exact Nat.pos_iff_ne_zero.mp (hw.range r (by simp) (.inl hupdate.1)).1
      obtain ⟨hc2,hf2⟩ := h'.content p h0 (oldest_eq_none hd'.images ho) hp2
      exact ⟨hc2.trans hc1,hf2.trans hf1⟩

theorem undo_ran (h : Walk history x) (faults : Lsn → Faults) :
    Ran history x (undo faults history x).2 (undo faults history x).1 ∧
      ((undo faults history x).1 = .ok () → Undone history x (undo faults history x).2) := by
  induction history generalizing x with
  | nil =>
    refine ⟨.refl h.sound,fun _ => ⟨.refl h.sound,?_,?_,?_,?_⟩⟩
    · simp
    · simp [pagesOf]
    · simp [pagesOf]
    · simp [oldest]
  | cons r older ih =>
    obtain ⟨hran,hundone⟩ := undoRecord_ran h.head (faults r.lsn)
    unfold undo
    rcases hr : undoRecord (faults r.lsn) r x with ⟨answer,x₁⟩
    rw [hr] at hran hundone
    cases answer with
    | error e => exact ⟨hran.weaken,fun hok => by cases hok⟩
    | ok =>
      have hd := hundone rfl
      obtain ⟨hran',hundone'⟩ := ih (h.tail hran hd)
      exact ⟨hran.cons hd.calm hran',fun hok => hd.cons h hran hran' (hundone' hok)⟩

end Rollback
end OurSql
