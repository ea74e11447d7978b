import OurSql.Recovery.History
import OurSql.Recovery.Run

/-! Logs written under page locks that are held to the end. On such a log the last
image that recovery writes to a page is its last committed image. -/
namespace OurSql
namespace Recovery

open Crash Storage

def Allocates (w : List LogRecord) (t : TxnId) (p : PageId) : Prop :=
  ∃ r ∈ w, r.txnId = t ∧ r.type = .pageAllocate ∧ r.pageId = p

/-- Two transactions touch a page only one after the other, an update starts from the
current image of its page, and a rollback is final. `base` is what the pages held before. -/
structure Locked (base : PageId → Page) (w : List LogRecord) : Prop where
  exclusive : ∀ a r b s c, w = a ++ r :: (b ++ s :: c) → isUndoable r = true →
    isUndoable s = true → r.pageId = s.pageId → r.txnId ≠ s.txnId → Ended b r.txnId
  current : ∀ a r b, w = a ++ r :: b → r.type = .pageUpdate → ¬Allocates a r.txnId r.pageId →
    r.beforeImage = some ((lastImage (fun t => isWinner (analyze a) t || t = r.txnId) a
      r.pageId).getD (base r.pageId))
  rollback : ∀ a c b, w = a ++ c :: b → c.type = .compensation → ∀ r ∈ b, r.txnId = c.txnId →
    r.type = .compensation ∨ r.type = .abort

theorem isUndoable_update {r : LogRecord} (h : r.type = .pageUpdate) : isUndoable r = true := by
  simp [isUndoable,h]

theorem Locked.of_append {base : PageId → Page} {w z : List LogRecord}
    (h : Locked base (w ++ z)) : Locked base w where
  exclusive a r b s c he := h.exclusive a r b s (c ++ z) (by simp [he])
  current a r b he := h.current a r (b ++ z) (by simp [he])
  rollback a c b he hc r hr := h.rollback a c (b ++ z) (by simp [he]) hc r (by simp [hr])

/-- One more record that respects the locks. -/
theorem Locked.push {base : PageId → Page} {w : List LogRecord} {x : LogRecord}
    (h : Locked base w)
    (hexclusive : isUndoable x = true → ∀ a r b, w = a ++ r :: b → isUndoable r = true →
      r.pageId = x.pageId → r.txnId ≠ x.txnId → Ended b r.txnId)
    (hcurrent : x.type = .pageUpdate → ¬Allocates w x.txnId x.pageId →
      x.beforeImage = some ((lastImage (fun t => isWinner (analyze w) t || t = x.txnId) w
        x.pageId).getD (base x.pageId)))
    (hrollback : ∀ c ∈ w, c.type = .compensation → c.txnId = x.txnId →
      x.type = .compensation ∨ x.type = .abort) : Locked base (w ++ [x]) := by
  refine ⟨fun a r b s c he hr hs hp hne => ?_,fun a r b he ht halloc => ?_,
    fun a c b he hc r hr hrt => ?_⟩
  · have he' : w ++ [x] = (a ++ r :: b) ++ s :: c := by simp [he]
    rcases split_append he' with ⟨rest,-,hw⟩ | ⟨hw,rfl,-⟩
    · exact h.exclusive a r b s rest (by simp [hw]) hr hs hp hne
    · exact hexclusive hs a r b hw.symm hr hp hne
  · rcases split_append he with ⟨rest,-,hw⟩ | ⟨rfl,rfl,-⟩
    · exact h.current a r rest hw ht halloc
    · exact hcurrent ht halloc
  · rcases split_append he with ⟨rest,rfl,hw⟩ | ⟨-,-,rfl⟩
    · rcases List.mem_append.mp hr with hr | hr
      · exact h.rollback a c rest hw hc r hr hrt
      · have hrx : r = x := List.mem_singleton.mp hr
        subst hrx
        exact hrollback c (by simp [hw]) hc hrt.symm
    · cases hr

section images

variable {by_ by_' : TxnId → Bool} {w a b : List LogRecord} {p : PageId}

theorem lastImage_congr (h : ∀ r ∈ w, r.type = .pageUpdate → r.pageId = p →
    by_ r.txnId = by_' r.txnId) : lastImage by_ w p = lastImage by_' w p := by
  induction w using List.reverseRecOn with
  | nil => rfl
  | append_singleton w r ih =>
    rw [lastImage_append,lastImage_append,ih fun s hs => h s (by simp [hs])]
    by_cases hr : r.type = .pageUpdate ∧ r.pageId = p
    · simp only [noteImage,h r (by simp) hr.1 hr.2]
    · rw [noteImage_other fun hc => hr ⟨hc.1,hc.2.1⟩,noteImage_other fun hc => hr ⟨hc.1,hc.2.1⟩]

theorem lastImage_ne_none (henc : ∀ r ∈ w, r.type = .pageUpdate → r.afterImage ≠ none)
    {r : LogRecord} (hr : r ∈ w) (ht : r.type = .pageUpdate) (hp : r.pageId = p)
    (hb : by_ r.txnId = true) : lastImage by_ w p ≠ none := by
  induction w using List.reverseRecOn with
  | nil => cases hr
  | append_singleton w s ih =>
    rw [lastImage_append,noteImage]
    split
    · rename_i hs
      exact henc s (by simp) hs.1
    · rename_i hs
      rcases List.mem_append.mp hr with hr | hr
      · exact ih (fun x hx => henc x (by simp [hx])) hr
      · rw [List.mem_singleton.mp hr] at ht hp hb
        exact absurd ⟨ht,hp,hb⟩ hs

theorem lastImage_append_other (h : ∀ r ∈ b, r.type = .pageUpdate → r.pageId = p →
    by_ r.txnId = false) : lastImage by_ (a ++ b) p = lastImage by_ a p := by
  induction b using List.reverseRecOn with
  | nil => simp
  | append_singleton b r ih =>
    rw [← List.append_assoc,lastImage_append,ih fun s hs => h s (by simp [hs]),noteImage_other]
    rintro ⟨hu,hp,hb⟩
    rw [h r (by simp) hu hp] at hb
    cases hb

end images

theorem committed_of_ended {a b : List LogRecord} {t : TxnId} (hf : Finished (a ++ b))
    (ht : t ≠ invalidTxnId) (he : Ended a t) : Committed (a ++ b) t ↔ Committed a t := by
  constructor
  · rintro ⟨r,hr,hrt,hc⟩
    rcases List.mem_append.mp hr with hra | hrb
    · exact ⟨r,hra,hrt,hc⟩
    · obtain ⟨e,he,het,hterm⟩ := he
      obtain ⟨x,y,rfl⟩ := List.append_of_mem he
      exact absurd (hrt.trans het.symm)
        (hf x e (y ++ b) (by simp) hterm (het ▸ ht) r (List.mem_append_right _ hrb))
  · rintro ⟨r,hr,hrt,hc⟩
    exact ⟨r,by simp [hr],hrt,hc⟩

theorem Compensates.redo {c r : LogRecord} (h : Compensates c r) :
    redoCompensationAct c = undoAct r := by
  unfold redoCompensationAct undoAct
  rw [h.kind,h.pageId]
  cases ht : r.type with
  | pageUpdate => simp only [h.image,ht,if_true]
  | _ => rfl

section locked

variable {base : PageId → Page} {w : List LogRecord} {p : PageId}

/-- What can be behind a redo action: an update or a free of a winner, or the
compensation of a loser's record. -/
theorem redoAct_inv (hw : WellFormed w) (hl : Locked base w) {r : LogRecord} {act : Act}
    (hr : r ∈ w) (ha : redoAct (analyze w) r = some act) :
    (isWinner (analyze w) r.txnId = true ∧ r.type = .pageUpdate ∧
        r.afterImage.map (.write r.pageId) = some act) ∨
      (isWinner (analyze w) r.txnId = true ∧ r.type = .pageFree ∧ act = .release r.pageId) ∨
      (isLoser (analyze w) r.txnId = true ∧ r.type = .compensation ∧ ∀ a b, w = a ++ r :: b →
        ∃ x rest, undoStack a r.txnId = x :: rest ∧ undoAct x = some act) := by
  by_cases hc : r.type = .compensation
  · have hnot : isWinner (analyze w) r.txnId = false := by
      by_contra hwin
      obtain ⟨hid,e,he,het,hcommit⟩ := (isWinner_iff hw.finished _).mp (by simpa using hwin)
      obtain ⟨a,b,rfl⟩ := List.append_of_mem hr
      rcases List.mem_append.mp he with he | he
      · obtain ⟨x,y,rfl⟩ := List.append_of_mem he
        exact hw.finished x e (y ++ r :: b) (by simp) (by simp [isTerminal,hcommit]) (het ▸ hid) r
          (by simp) het.symm
      · rcases List.mem_cons.mp he with rfl | he
        · rw [hc] at hcommit
          cases hcommit
        · rcases hl.rollback a r b rfl hc e he het with h | h <;> simp [hcommit] at h
    by_cases hlose : isLoser (analyze w) r.txnId = true
    · refine .inr (.inr ⟨hlose,hc,fun a b he => ?_⟩)
      obtain ⟨x,rest,hx,hcomp⟩ := hw.compensated a r b he hc
      refine ⟨x,rest,hx,?_⟩
      rw [← hcomp.redo]
      simpa [redoAct,hnot,hlose,hc] using ha
    · simp [redoAct,hnot,hlose] at ha
  · have hwin : isWinner (analyze w) r.txnId = true := by
      by_contra hwin
      simp [redoAct,hwin,hc] at ha
    cases ht : r.type with
    | pageUpdate => exact .inl ⟨hwin,rfl,by simpa [redoAct,hwin,ht] using ha⟩
    | pageFree => exact .inr (.inl ⟨hwin,rfl,by simpa [redoAct,hwin,ht,eq_comm] using ha⟩)
    | compensation => exact absurd ht hc
    | _ => simp [redoAct,hwin,ht] at ha

theorem undoAct_write {r : LogRecord} {page : Page} (h : undoAct r = some (.write p page)) :
    r.type = .pageUpdate ∧ r.pageId = p ∧ r.beforeImage = some page := by
  cases ht : r.type with
  | pageUpdate =>
    simp only [undoAct,ht,Option.map_eq_some_iff] at h
    obtain ⟨img,himg,he⟩ := h
    cases he
    exact ⟨rfl,rfl,himg⟩
  | _ => simp [undoAct,ht] at h

theorem undoAct_release {r : LogRecord} (h : undoAct r = some (.release p)) :
    r.type = .pageAllocate ∧ r.pageId = p := by
  cases ht : r.type with
  | pageUpdate => simp [undoAct,ht] at h
  | pageAllocate => simpa [undoAct,ht] using h
  | _ => simp [undoAct,ht] at h

theorem mem_losersUndo (hw : WellFormed w) {r : LogRecord} (hr : r ∈ losersUndo w) :
    r ∈ w ∧ isLoser (analyze w) r.txnId = true ∧ r ∈ undoStack w r.txnId :=
  mem_openRecords hw.linked (List.mem_reverse.mp hr)

/-- The record behind an action of recovery. -/
theorem act_inv (hw : WellFormed w) (hl : Locked base w) {act : Act} (h : act ∈ recoverActs w) :
    ∃ r ∈ w, (isWinner (analyze w) r.txnId = true ∧ r.type = .pageUpdate ∧
        r.afterImage.map (.write r.pageId) = some act) ∨
      (isWinner (analyze w) r.txnId = true ∧ r.type = .pageFree ∧ act = .release r.pageId) ∨
      (isLoser (analyze w) r.txnId = true ∧ undoAct r = some act) := by
  rcases List.mem_append.mp h with h | h
  · obtain ⟨r,hr,ha⟩ := List.mem_filterMap.mp h
    rcases redoAct_inv hw hl hr ha with hwin | hwin | ⟨hlose,-,hsplit⟩
    · exact ⟨r,hr,.inl hwin⟩
    · exact ⟨r,hr,.inr (.inl hwin)⟩
    · obtain ⟨a,b,rfl⟩ := List.append_of_mem hr
      obtain ⟨x,rest,hx,hact⟩ := hsplit a b rfl
      obtain ⟨hxa,hxt,-⟩ := mem_undoStack (hx ▸ List.mem_cons_self ..)
      exact ⟨x,by simp [hxa],.inr (.inr ⟨hxt ▸ hlose,hact⟩)⟩
  · obtain ⟨r,hr,ha⟩ := List.mem_filterMap.mp h
    obtain ⟨hrw,hlose,-⟩ := mem_losersUndo hw hr
    exact ⟨r,hrw,.inr (.inr ⟨hlose,ha⟩)⟩

/-- A page that recovery writes was updated by a winner or a loser. -/
theorem update_of_write (hw : WellFormed w) (hl : Locked base w) {page : Page}
    (h : Act.write p page ∈ recoverActs w) : ∃ r ∈ w, r.type = .pageUpdate ∧ r.pageId = p ∧
      (isWinner (analyze w) r.txnId = true ∨ isLoser (analyze w) r.txnId = true) := by
  obtain ⟨r,hr,⟨hwin,ht,hact⟩ | ⟨-,-,hact⟩ | ⟨hlose,hact⟩⟩ := act_inv hw hl h
  · obtain ⟨img,-,he⟩ := Option.map_eq_some_iff.mp hact
    exact ⟨r,hr,ht,(Act.write.inj he).1,.inl hwin⟩
  · cases hact
  · obtain ⟨ht,hp,-⟩ := undoAct_write hact
    exact ⟨r,hr,ht,hp,.inr hlose⟩

/-- What is no longer open has been compensated. -/
theorem compensated_of_closed {t : TxnId} {u : LogRecord} (hu : u ∈ w) (ht : u.txnId = t)
    (hundo : isUndoable u = true) (hclosed : u ∉ undoStack w t) :
    ∃ a c b rest, w = a ++ c :: b ∧ c.type = .compensation ∧ c.txnId = t ∧
      undoStack a t = u :: rest := by
  induction w using List.reverseRecOn with
  | nil => cases hu
  | append_singleton w x ih =>
    have hold : u ∈ w → u ∉ undoStack w t → ∃ a c b rest, w ++ [x] = a ++ c :: b ∧
        c.type = .compensation ∧ c.txnId = t ∧ undoStack a t = u :: rest := by
      intro hu hclosed
      obtain ⟨a,c,b,rest,rfl,hrest⟩ := ih hu hclosed
      exact ⟨a,c,b ++ [x],rest,by simp,hrest⟩
    rw [undoStack_append,pushUndo] at hclosed
    rcases List.mem_append.mp hu with hu | hu
    · by_cases hopen : u ∈ undoStack w t
      · split at hclosed
        · exact absurd hopen hclosed
        rename_i hxt
        split at hclosed
        · rename_i hc
          cases hs : undoStack w t with
          | nil => simp [hs] at hopen
          | cons y ys =>
            rw [hs] at hopen hclosed
            rcases List.mem_cons.mp hopen with rfl | hy
            · exact ⟨w,x,[],ys,rfl,hc,by simpa using hxt,hs⟩
            · exact absurd hy hclosed
        split at hclosed
        · exact absurd (List.mem_cons_of_mem _ hopen) hclosed
        · exact absurd hopen hclosed
      · exact hold hu hopen
    · have hux : u = x := List.mem_singleton.mp hu
      subst hux
      rw [if_neg (by simp [ht]),if_neg (not_compensation_of_undoable hundo),if_pos hundo] at hclosed
      simp at hclosed

/-- Whatever a loser has done is undone, in the redo of a compensation or in the undo pass. -/
theorem mem_of_loser (hw : WellFormed w) {r : LogRecord} {act : Act} (hr : r ∈ w)
    (hlose : isLoser (analyze w) r.txnId = true) (hundo : isUndoable r = true)
    (ha : undoAct r = some act) : act ∈ recoverActs w := by
  by_cases hopen : r ∈ undoStack w r.txnId
  · refine List.mem_append_right _ (List.mem_filterMap.mpr ⟨r,?_,ha⟩)
    exact List.mem_reverse.mpr (openRecords_of_stack hlose hopen)
  · obtain ⟨a,c,b,rest,rfl,hct,hctxn,hs⟩ := compensated_of_closed hr rfl hundo hopen
    obtain ⟨x,rest',hx,hcomp⟩ := hw.compensated a c b rfl hct
    rw [hctxn,hs] at hx
    obtain ⟨rfl,-⟩ := List.cons.inj hx
    refine List.mem_append_left _ (List.mem_filterMap.mpr ⟨c,by simp,?_⟩)
    rw [← ha,← hcomp.redo]
    simp [redoAct,hctxn,hlose,hct]

def Frees (w : List LogRecord) (t : TxnId) (p : PageId) : Prop :=
  ∃ r ∈ w, r.txnId = t ∧ r.type = .pageFree ∧ r.pageId = p

/-- The pages that recovery releases. -/
theorem release_iff (hw : WellFormed w) (hl : Locked base w) :
    Act.release p ∈ recoverActs w ↔ (∃ t, isWinner (analyze w) t = true ∧ Frees w t p) ∨
      ∃ t, isLoser (analyze w) t = true ∧ Allocates w t p := by
  constructor
  · intro h
    obtain ⟨r,hr,⟨-,-,hact⟩ | ⟨hwin,ht,hact⟩ | ⟨hlose,hact⟩⟩ := act_inv hw hl h
    · obtain ⟨img,-,he⟩ := Option.map_eq_some_iff.mp hact
      cases he
    · exact .inl ⟨_,hwin,r,hr,rfl,ht,(Act.release.inj hact).symm⟩
    · obtain ⟨ht,hp⟩ := undoAct_release hact
      exact .inr ⟨_,hlose,r,hr,rfl,ht,hp⟩
  · rintro (⟨t,hwin,r,hr,rfl,ht,rfl⟩ | ⟨t,hlose,r,hr,rfl,ht,rfl⟩)
    · refine List.mem_append_left _ (List.mem_filterMap.mpr ⟨r,hr,?_⟩)
      simp [redoAct,hwin,ht]
    · exact mem_of_loser hw hr hlose (by simp [isUndoable,ht]) (by simp [undoAct,ht])

/-- After a compensation the stack of its transaction only shrinks. -/
theorem undoStack_after (hl : Locked base w) {a b b' : List LogRecord} {c u : LogRecord}
    {rest : List LogRecord} (hc : w = a ++ c :: b) (hb : b' <+: b) (ht : c.type = .compensation)
    (hs : undoStack a c.txnId = u :: rest) : undoStack (a ++ c :: b') c.txnId <:+ rest := by
  induction b' using List.reverseRecOn with
  | nil =>
    rw [undoStack_append,pushUndo_compensation ht,hs]
    exact List.suffix_rfl
  | append_singleton b' x ih =>
    have hpre : b' <+: b := (List.prefix_append _ _).trans hb
    have hx : x ∈ b := hb.subset (by simp)
    have hsplit : a ++ c :: (b' ++ [x]) = (a ++ c :: b') ++ [x] := by simp
    rw [hsplit,undoStack_append]
    by_cases hxt : x.txnId = c.txnId
    · rcases hl.rollback a c b hc ht x hx hxt with hx | hx
      · rw [← hxt,pushUndo_compensation hx,hxt]
        exact (List.tail_suffix _).trans (ih hpre)
      · rw [← hxt,pushUndo_neutral (by simp [hx]) (by simp [isUndoable,hx]),hxt]
        exact ih hpre
    · rw [pushUndo_other hxt]
      exact ih hpre

/-- Nobody else touches a page after a transaction that has not ended. -/
theorem Locked.before_open (hl : Locked base w) {a b : List LogRecord} {u s : LogRecord}
    (hu : w = a ++ u :: b) (hundo : isUndoable u = true) (hopen : ¬Ended w u.txnId) (hs : s ∈ w)
    (hsundo : isUndoable s = true) (hp : s.pageId = u.pageId) (hne : s.txnId ≠ u.txnId) :
    s ∈ a ∧ Ended a s.txnId := by
  subst hu
  rcases List.mem_append.mp hs with hs | hs
  · obtain ⟨x,y,rfl⟩ := List.append_of_mem hs
    obtain ⟨e,he,hrest⟩ := hl.exclusive x s y u b (by simp) hsundo hundo hp hne
    exact ⟨by simp,e,by simp [he],hrest⟩
  · rcases List.mem_cons.mp hs with rfl | hs
    · exact absurd rfl hne
    · obtain ⟨x,y,rfl⟩ := List.append_of_mem hs
      obtain ⟨e,he,hrest⟩ := hl.exclusive a u x s y rfl hundo hsundo hp.symm hne.symm
      exact absurd ⟨e,by simp [he],hrest⟩ hopen

/-- The first image that a loser saw of a page is its last committed one. -/
theorem Locked.first_before (hw : WellFormed w) (hl : Locked base w) {a b : List LogRecord}
    {u : LogRecord} (hu : w = a ++ u :: b) (ht : u.type = .pageUpdate) (hopen : ¬Ended w u.txnId)
    (hfirst : ∀ r ∈ a, r.type = .pageUpdate → r.pageId = u.pageId → r.txnId ≠ u.txnId)
    (halloc : ¬Allocates a u.txnId u.pageId) :
    u.beforeImage =
      some ((lastImage (isWinner (analyze w)) w u.pageId).getD (base u.pageId)) := by
  rw [hl.current a u b hu ht halloc]
  congr 2
  have hundo := isUndoable_update ht
  have hnone : ∀ r ∈ u :: b, r.type = .pageUpdate → r.pageId = u.pageId →
      isWinner (analyze w) r.txnId = false := by
    intro r hr hrt hrp
    by_contra hwin
    have hcommit := ((isWinner_iff hw.finished _).mp (by simpa using hwin)).2
    have hne : r.txnId ≠ u.txnId := fun hc => hopen (hc ▸ hcommit.ended)
    have hin := hl.before_open hu hundo hopen (s := r) (by rw [hu]; simp [List.mem_cons.mp hr])
      (isUndoable_update hrt) hrp hne
    -- `r` cannot stand on both sides of `u`
    have hlt : r.lsn < u.lsn := (hu ▸ hw.linked : Linked (a ++ u :: b)).lt hin.1
    rcases List.mem_cons.mp hr with rfl | hr
    · exact hne rfl
    · have hgt := (List.pairwise_cons.mp (List.pairwise_append.mp
        (hu ▸ hw.linked : Linked (a ++ u :: b)).increasing).2.1).1 r hr
      exact absurd hlt (not_lt.mpr (le_of_lt hgt))
  have hright : lastImage (isWinner (analyze w)) w u.pageId =
      lastImage (isWinner (analyze w)) a u.pageId := by
    nth_rewrite 2 [hu]
    exact lastImage_append_other hnone
  rw [hright]
  refine lastImage_congr fun r hr hrt hrp => ?_
  have hne := hfirst r hr hrt hrp
  obtain ⟨-,hend⟩ := hl.before_open hu hundo hopen (s := r) (by rw [hu]; simp [hr])
    (isUndoable_update hrt) hrp hne
  have hwa : WellFormed a := (hu ▸ hw : WellFormed (a ++ u :: b)).of_append
  have hiff : isWinner (analyze a) r.txnId = isWinner (analyze w) r.txnId := by
    rw [Bool.eq_iff_iff,isWinner_iff hwa.finished,isWinner_iff hw.finished,hu]
    refine and_congr_right fun hid => ?_
    exact (committed_of_ended (hu ▸ hw.finished) hid hend).symm
  simp [hne,hiff]

theorem lastWrite_of_split {acts b a : List Act} {page : Page}
    (h : acts = b ++ .write p page :: a) (ha : ∀ img, Act.write p img ∉ a) :
    lastWrite acts p = some page := by
  rw [h,lastWrite_append_list,← List.singleton_append,lastWrite_append_list,lastWrite_eq_none ha]
  simp [lastWrite,noteWrite]

/-- A record of a linked log stands at one place only. -/
theorem split_unique (hl : Linked w) {a b a' B : List LogRecord} {r : LogRecord}
    (h : w = a ++ r :: b) (h' : w = a' ++ r :: B) : a = a' := by
  have hfilter : ∀ c d, w = c ++ r :: d → w.filter (fun s => s.lsn < r.lsn) = c := by
    rintro c d rfl
    have hd : ∀ s ∈ r :: d, ¬(s.lsn < r.lsn) := by
      intro s hs
      rcases List.mem_cons.mp hs with rfl | hs
      · exact lt_irrefl _
      · have hgt := (List.pairwise_cons.mp (List.pairwise_append.mp hl.increasing).2.1).1 s hs
        exact not_lt.mpr (le_of_lt hgt)
    rw [List.filter_append,List.filter_eq_self.mpr (by simpa using fun s hs => hl.lt hs),
      List.filter_eq_nil_iff.mpr (by simpa using hd),List.append_nil]
  rw [← hfilter a b h,hfilter a' B h']

/-- A loser's first update of a page is the last one that recovery undoes there. -/
theorem lastWrite_loser (hw : WellFormed w) (hl : Locked base w) {a b : List LogRecord}
    {u : LogRecord} {page : Page} (hu : w = a ++ u :: b) (ht : u.type = .pageUpdate)
    (hlose : isLoser (analyze w) u.txnId = true) (hbefore : u.beforeImage = some page)
    (hfirst : ∀ r ∈ a, r.type = .pageUpdate → r.pageId = u.pageId → r.txnId ≠ u.txnId) :
    lastWrite (recoverActs w) u.pageId = some page := by
  have hundo := isUndoable_update ht
  have hact : undoAct u = some (.write u.pageId page) := by simp [undoAct,ht,hbefore]
  have huw : u ∈ w := by simp [hu]
  have hopen : ¬Ended w u.txnId := ((isLoser_iff _).mp hlose).2.2
  -- no other loser updates the page
  have halone : ∀ r ∈ w, isUndoable r = true → r.pageId = u.pageId →
      isLoser (analyze w) r.txnId = true → r.txnId = u.txnId := by
    intro r hr hru hrp hrl
    by_contra hne
    obtain ⟨hra,e,he,hend⟩ := hl.before_open hu hundo hopen hr hru hrp hne
    exact ((isLoser_iff _).mp hrl).2.2 ⟨e,by simp [hu,he],hend⟩
  -- what lies below `u` on a stack writes other pages
  have hbelow : ∀ r rest, r ∈ rest → (∃ a' b' above, w = a' ++ b' ∧
      undoStack a' u.txnId = above ++ u :: rest) → ∀ img, undoAct r ≠ some (.write u.pageId img) := by
    rintro r rest hr ⟨a',b',above,hab,hs⟩ img hra
    obtain ⟨hrt,hrp,-⟩ := undoAct_write hra
    obtain ⟨a₁,b₁,ha',hrest⟩ := undoStack_split hs
    have haa : a = a₁ := split_unique hw.linked hu (B := b₁ ++ b') (by rw [hab,ha']; simp)
    obtain ⟨hra₁,hrtxn,-⟩ := mem_undoStack (hrest ▸ hr)
    exact hfirst r (haa ▸ hra₁) hrt hrp hrtxn
  by_cases hstack : u ∈ undoStack w u.txnId
  · have humem : u ∈ losersUndo w := List.mem_reverse.mpr (openRecords_of_stack hlose hstack)
    obtain ⟨xs,ys,hxy⟩ := List.append_of_mem humem
    refine lastWrite_of_split (b := redoActs w ++ xs.filterMap undoAct)
      (a := ys.filterMap undoAct) (by simp [recoverActs,hxy,hact]) fun img himg => ?_
    obtain ⟨r,hr,hra⟩ := List.mem_filterMap.mp himg
    obtain ⟨hrt,hrp,-⟩ := undoAct_write hra
    obtain ⟨hrw,hrl,hrs⟩ := mem_losersUndo hw (r := r) (by simp [hxy,hr])
    have hrtxn := halone r hrw (isUndoable_update hrt) hrp hrl
    have hlt : r.lsn < u.lsn := by
      have hdec : (losersUndo w).Pairwise fun x y => y.lsn < x.lsn :=
        List.pairwise_reverse.mpr (hw.linked.increasing.filter _)
      rw [hxy] at hdec
      exact (List.pairwise_cons.mp (List.pairwise_append.mp hdec).2.1).1 r hr
    exact hfirst r (le_appendLsnOf_of_lt hw.linked hu hrw hlt).1 hrt hrp hrtxn
  · obtain ⟨a',c,b',rest,hc,hct,hctxn,hs⟩ := compensated_of_closed huw rfl hundo hstack
    have hcw : c ∈ w := by simp [hc]
    have hcact : redoAct (analyze w) c = some (.write u.pageId page) := by
      obtain ⟨x,rest',hx,hcomp⟩ := hw.compensated a' c b' hc hct
      rw [hctxn,hs] at hx
      obtain ⟨rfl,-⟩ := List.cons.inj hx
      rw [← hact,← hcomp.redo]
      simp [redoAct,hctxn,hlose,hct]
    have hsc : undoStack a' c.txnId = u :: rest := hctxn ▸ hs
    have hrest : ∀ r ∈ rest, ∀ img, undoAct r ≠ some (.write u.pageId img) := fun r hr =>
      hbelow r rest hr ⟨a',c :: b',[],hc,by simpa using hs⟩
    have huc : u.lsn < c.lsn :=
      (hc ▸ hw.linked : Linked (a' ++ c :: b')).lt (mem_undoStack (hs ▸ List.mem_cons_self ..)).1
    refine lastWrite_of_split (b := a'.filterMap (redoAct (analyze w)))
      (a := b'.filterMap (redoAct (analyze w)) ++ (losersUndo w).filterMap undoAct) ?_ ?_
    · rw [recoverActs,redoActs]
      nth_rewrite 2 [hc]
      simp [hcact]
    intro img himg
    rcases List.mem_append.mp himg with himg | himg
    · obtain ⟨r,hr,hra⟩ := List.mem_filterMap.mp himg
      obtain ⟨b₁,b₂,hb⟩ := List.append_of_mem hr
      have hsplit : w = (a' ++ c :: b₁) ++ r :: b₂ := by rw [hc,hb]; simp
      have hrw : r ∈ w := by simp [hsplit]
      rcases redoAct_inv hw hl hrw hra with ⟨hwin,hrt,hract⟩ | ⟨-,-,hract⟩ | ⟨hrl,-,hinv⟩
      · obtain ⟨img',-,he⟩ := Option.map_eq_some_iff.mp hract
        have hrp : r.pageId = u.pageId := (Act.write.inj he).1
        have hne : r.txnId ≠ u.txnId := fun hcon =>
          hopen (hcon ▸ ((isWinner_iff hw.finished _).mp hwin).2.ended)
        have hra' := (hl.before_open hu hundo hopen hrw (isUndoable_update hrt) hrp hne).1
        have h₁ : r.lsn < u.lsn := (hu ▸ hw.linked : Linked (a ++ u :: b)).lt hra'
        have h₂ : c.lsn < r.lsn :=
          (hsplit ▸ hw.linked : Linked ((a' ++ c :: b₁) ++ r :: b₂)).lt (by simp)
        exact absurd (h₁.trans huc) (not_lt.mpr (le_of_lt h₂))
      · cases hract
      · obtain ⟨x,rest',hx,hxact⟩ := hinv _ _ hsplit
        obtain ⟨hxt,hxp,-⟩ := undoAct_write hxact
        obtain ⟨hxw,hxtxn,-⟩ := mem_undoStack (hx ▸ List.mem_cons_self ..)
        have hxin : x ∈ w := by rw [hsplit]; exact List.mem_append_left _ hxw
        have hsame := halone x hxin (isUndoable_update hxt) hxp (hxtxn ▸ hrl)
        have hsuf : undoStack (a' ++ c :: b₁) c.txnId <:+ rest :=
          undoStack_after hl hc (hb ▸ List.prefix_append _ _) hct hsc
        rw [hctxn,← hsame,hxtxn,hx] at hsuf
        exact hrest x (hsuf.subset (by simp)) img hxact
    · obtain ⟨r,hr,hra⟩ := List.mem_filterMap.mp himg
      obtain ⟨hrt,hrp,-⟩ := undoAct_write hra
      obtain ⟨hrw,hrl,hrs⟩ := mem_losersUndo hw hr
      have hsame := halone r hrw (isUndoable_update hrt) hrp hrl
      have hsuf : undoStack (a' ++ c :: b') c.txnId <:+ rest :=
        undoStack_after hl hc List.prefix_rfl hct hsc
      rw [← hc,hctxn,← hsame] at hsuf
      exact hrest r (hsuf.subset hrs) img hra

/-- Where no loser updates a page, recovery leaves the last image of a winner. -/
theorem lastWrite_winners (hw : WellFormed w) (hl : Locked base w)
    (hnone : ∀ r ∈ w, r.type = .pageUpdate → r.pageId = p → isLoser (analyze w) r.txnId = false) :
    lastWrite (recoverActs w) p = lastImage (isWinner (analyze w)) w p := by
  have hundo : lastWrite ((losersUndo w).filterMap undoAct) p = none := by
    refine lastWrite_eq_none fun page hpage => ?_
    obtain ⟨r,hr,hra⟩ := List.mem_filterMap.mp hpage
    obtain ⟨hrt,hrp,-⟩ := undoAct_write hra
    obtain ⟨hrw,hrl,-⟩ := mem_losersUndo hw hr
    rw [hnone r hrw hrt hrp] at hrl
    cases hrl
  have hprefix : ∀ v, v <+: w → lastWrite (v.filterMap (redoAct (analyze w))) p =
      lastImage (isWinner (analyze w)) v p := by
    intro v hv
    induction v using List.reverseRecOn with
    | nil => rfl
    | append_singleton v r ih =>
      have hr : r ∈ w := hv.subset (by simp)
      have ih := ih ((List.prefix_append _ _).trans hv)
      rw [lastImage_append,← ih,List.filterMap_append]
      by_cases hup : r.type = .pageUpdate ∧ r.pageId = p ∧ isWinner (analyze w) r.txnId = true
      · obtain ⟨ht,hp,hwin⟩ := hup
        obtain ⟨x,img,-,himg⟩ := encoded_update (hw.encoded r hr) ht
        have hact : redoAct (analyze w) r = some (.write p img) := by
          simp [redoAct,hwin,ht,himg,hp]
        simp [hact,noteImage,ht,hp,hwin,himg,lastWrite_append,noteWrite]
      · rw [noteImage_other hup]
        cases hact : redoAct (analyze w) r with
        | none => simp [hact]
        | some act =>
          simp only [List.filterMap_cons,hact,List.filterMap_nil,lastWrite_append]
          cases act with
          | release q => rfl
          | write q page =>
            refine if_neg fun hq => ?_
            subst hq
            rcases redoAct_inv hw hl hr hact with ⟨hwin,hrt,hract⟩ | ⟨-,-,hract⟩ | ⟨hrl,-,hinv⟩
            · obtain ⟨img',-,he⟩ := Option.map_eq_some_iff.mp hract
              cases he
              exact hup ⟨hrt,rfl,hwin⟩
            · cases hract
            · obtain ⟨c,d,hcd⟩ := List.append_of_mem hr
              obtain ⟨x,rest,hx,hxact⟩ := hinv c d hcd
              obtain ⟨hxt,hxp,-⟩ := undoAct_write hxact
              obtain ⟨hxw,hxtxn,-⟩ := mem_undoStack (hx ▸ List.mem_cons_self ..)
              have hxl := hnone x (by simp [hcd,hxw]) hxt hxp
              rw [hxtxn,hrl] at hxl
              cases hxl
  rw [recoverActs,lastWrite_append_list,hundo,Option.none_or]
  exact hprefix w List.prefix_rfl

/-- What recovery leaves on a page that no loser allocated: its last committed image,
if a winner or a loser has updated it at all. -/
theorem lastWrite_recover (hw : WellFormed w) (hl : Locked base w)
    (halloc : ∀ t, isLoser (analyze w) t = true → ¬Allocates w t p)
    (h : ∃ r ∈ w, r.type = .pageUpdate ∧ r.pageId = p ∧
      (isWinner (analyze w) r.txnId = true ∨ isLoser (analyze w) r.txnId = true)) :
    lastWrite (recoverActs w) p =
      some ((lastImage (isWinner (analyze w)) w p).getD (base p)) := by
  by_cases hlose : ∃ r ∈ w, r.type = .pageUpdate ∧ r.pageId = p ∧ isLoser (analyze w) r.txnId = true
  · obtain ⟨r,hr,ht,hp,hrl⟩ := hlose
    -- the first update of the page by this loser
    let mine : LogRecord → Bool := fun s => s.type = .pageUpdate && s.pageId = p && s.txnId = r.txnId
    cases hfind : w.find? mine with
    | none => exact absurd (List.find?_eq_none.mp hfind r hr) (by simp [mine,ht,hp])
    | some u =>
      obtain ⟨hu,a,b,hab,hfirst⟩ := List.find?_eq_some_iff_append.mp hfind
      simp only [mine,Bool.and_eq_true,decide_eq_true_eq,and_assoc] at hu
      obtain ⟨hut,hup,hutxn⟩ := hu
      have hul : isLoser (analyze w) u.txnId = true := hutxn ▸ hrl
      have hfirst' : ∀ s ∈ a, s.type = .pageUpdate → s.pageId = u.pageId → s.txnId ≠ u.txnId := by
        intro s hs hst hsp hstxn
        have hns := hfirst s hs
        simp [mine,hst,hsp,hup,hstxn,hutxn] at hns
      have hua : ¬Allocates a u.txnId u.pageId := by
        rintro ⟨s,hs,hrest⟩
        exact halloc _ hul ⟨s,by simp [hab,hs],hup ▸ hrest⟩
      have hbefore := Locked.first_before hw hl hab hut
        ((isLoser_iff _).mp hul).2.2 hfirst' hua
      have hlast := lastWrite_loser hw hl hab hut hul hbefore hfirst'
      rwa [hup] at hlast
  · rw [lastWrite_winners hw hl fun r hr ht hp => by
      by_contra hc
      exact hlose ⟨r,hr,ht,hp,by simpa using hc⟩]
    obtain ⟨r,hr,ht,hp,hrw | hrl⟩ := h
    · cases hi : lastImage (isWinner (analyze w)) w p with
      | some page => rfl
      | none =>
        exact absurd hi (lastImage_ne_none (fun s hs hst => by
          obtain ⟨y,simg,-,hsimg⟩ := encoded_update (hw.encoded s hs) hst
          simp [hsimg]) hr ht hp hrw)
    · exact absurd ⟨r,hr,ht,hp,hrl⟩ hlose

end locked

end Recovery
end OurSql
