import OurSql.Recovery.Restart

/-! Histories that only update pages. Every page holds the last image by a committed or
a running transaction, and what is on the file is covered by the durable log. -/
namespace OurSql
namespace Recovery

open Crash Storage

/-- The actions that neither allocate nor free a page. -/
def Action.updateOnly : Action → Bool
  | .takePage _ | .logAllocate _ _ | .free _ _ | .cleanup _ _ _ => false
  | _ => true

/-- A winner or a loser. -/
def hasRole (w : List LogRecord) (t : TxnId) : Bool := isWinner (analyze w) t || isLoser (analyze w) t

/-- The update stands: its transaction has committed, or runs and has not undone it. -/
def counted (e : Engine) (r : LogRecord) : Bool :=
  hasRole e.log r.txnId && match e.phase r.txnId with
    | .aborting l => r.lsn ≤ l
    | _ => true

/-- The last image by the records that count. -/
def lastCounted (c : LogRecord → Bool) (w : List LogRecord) (p : PageId) : Option Page :=
  lastImage everyone (w.filter c) p

/-- The engine over a sound file and an empty log. -/
def Began (base : PageId → Page) (e : Engine) : Prop :=
  ∃ d free, Mounted d free ∧ d.file = base ∧ e = Engine.start ⟨d,.empty⟩ (nextTransactionId [])

structure Held (base : PageId → Page) (e : Engine) : Prop where
  logOk : LogOk e
  locked : Locked base e.log
  plain : ∀ r ∈ e.log, r.type ≠ .pageAllocate ∧ r.type ≠ .pageFree
  closed : ∀ r ∈ e.log, r.type = .compensation → Ended e.log r.txnId
  mounted : ∃ free, Mounted e.store.disk free
  within : ∀ r ∈ e.log, isUndoable r = true → InUse e.store.disk r.pageId
  owner : ∀ r ∈ e.log, isUndoable r = true → ¬Ended e.log r.txnId →
    e.owner r.pageId = some r.txnId
  image : ∀ p, e.image p = (lastCounted (counted e) e.log p).getD (base p)
  dirty : ∀ p, e.pageLsn p ≠ invalidLsn → e.frame p ≠ none ∧
    ∃ r ∈ e.log, r.type = .pageUpdate ∧ r.pageId = p ∧ r.lsn = e.pageLsn p ∧
      hasRole e.log r.txnId = true
  clean : ∀ p, e.pageLsn p = invalidLsn → e.image p = e.store.disk.file p
  rollingBack : ∀ t l, e.phase t = .aborting l → ∀ r ∈ e.log, r.txnId = t →
    r.lsn ≤ e.store.log.durableLsn ∧
      (r.type = .pageUpdate → l < r.lsn → e.pageLsn r.pageId = invalidLsn)
  -- the file, whichever part of the log survives a crash
  initial : ∀ v, v <+: e.log → (∀ r ∈ e.log, r.lsn ≤ e.store.log.durableLsn → r ∈ v) →
    ∀ p, ¬Updated v p → e.store.disk.file p = base p

theorem updated_iff {w : List LogRecord} {p : PageId} : Updated w p ↔
    ∃ r ∈ w, r.type = .pageUpdate ∧ r.pageId = p ∧ hasRole w r.txnId = true := by
  simp only [Updated,hasRole,Bool.or_eq_true]

section roles

variable {w a b : List LogRecord} {x : LogRecord} {t : TxnId}

theorem hasRole_iff (hf : Finished w) (t : TxnId) : hasRole w t = true ↔
    t ≠ invalidTxnId ∧ (Committed w t ∨ (∃ r ∈ w, r.txnId = t) ∧ ¬Ended w t) := by
  simp only [hasRole,Bool.or_eq_true,isWinner_iff hf,isLoser_iff,Unfinished]
  tauto

/-- A role in a log was a role before. -/
theorem hasRole_of_append (hf : Finished (a ++ b)) (hx : x ∈ a)
    (h : hasRole (a ++ b) x.txnId = true) : hasRole a x.txnId = true := by
  obtain ⟨hid,h⟩ := (hasRole_iff hf _).mp h
  refine (hasRole_iff hf.of_append _).mpr ⟨hid,?_⟩
  by_cases hend : Ended a x.txnId
  · rcases h with hc | ⟨-,hopen⟩
    · exact .inl ((committed_of_ended hf hid hend).mp hc)
    · exact absurd (ended_append_list.mpr (.inl hend)) hopen
  · exact .inr ⟨⟨x,hx,rfl⟩,hend⟩

theorem isWinner_append_other (hf : Finished (w ++ [x])) (ht : x.txnId ≠ t) :
    isWinner (analyze (w ++ [x])) t = isWinner (analyze w) t := by
  rw [Bool.eq_iff_iff,isWinner_iff hf,isWinner_iff hf.of_append,committed_append]
  simp [ht]

theorem hasRole_append_other (hf : Finished (w ++ [x])) (ht : x.txnId ≠ t) :
    hasRole (w ++ [x]) t = hasRole w t := by
  rw [Bool.eq_iff_iff,hasRole_iff hf,hasRole_iff hf.of_append,committed_append,ended_append]
  simp [ht]

/-- A transaction keeps its role until its Abort record. -/
theorem hasRole_append_self (hf : Finished (w ++ [x])) (hid : x.txnId ≠ invalidTxnId)
    (hx : x.type ≠ .abort) (hopen : ¬Ended w x.txnId) : hasRole (w ++ [x]) x.txnId = true := by
  refine (hasRole_iff hf _).mpr ⟨hid,?_⟩
  rw [committed_append,ended_append]
  by_cases hc : x.type = .commit
  · exact .inl (.inr ⟨rfl,hc⟩)
  · exact .inr ⟨⟨x,by simp,rfl⟩,by simp [hopen,isTerminal,hc,hx]⟩

end roles

theorem not_terminal_of_undoable (h : isUndoable x = true) : isTerminal x = false := by
  simp only [isUndoable,Bool.or_eq_true,decide_eq_true_eq] at h
  rcases h with (h | h) | h <;> simp [isTerminal,h]

/-- The terminal record of a transaction stands behind its other records. -/
theorem ended_after (hf : Finished w) (hw : w = a ++ x :: b) (hid : x.txnId ≠ invalidTxnId)
    (hx : isTerminal x = false) (hend : Ended w x.txnId) : Ended b x.txnId := by
  obtain ⟨y,hy,hyt,hterm⟩ := hend
  rw [hw] at hy
  rcases List.mem_append.mp hy with hy | hy
  · obtain ⟨c,d,rfl⟩ := List.append_of_mem hy
    exact absurd hyt.symm (hf c y (d ++ x :: b) (by simp [hw]) hterm (hyt ▸ hid) x (by simp))
  · rcases List.mem_cons.mp hy with rfl | hy
    · rw [hx] at hterm
      cases hterm
    · exact ⟨y,hy,hyt,hterm⟩

section counted

variable {c c' : LogRecord → Bool} {w : List LogRecord} {r : LogRecord} {p : PageId}

theorem lastCounted_append (c : LogRecord → Bool) (w : List LogRecord) (r : LogRecord)
    (p : PageId) : lastCounted c (w ++ [r]) p =
      if r.type = .pageUpdate ∧ r.pageId = p ∧ c r = true then r.afterImage
      else lastCounted c w p := by
  unfold lastCounted
  rw [List.filter_append]
  by_cases hc : c r = true
  · rw [List.filter_cons_of_pos hc,List.filter_nil,lastImage_append]
    simp [noteImage,hc]
  · rw [List.filter_cons_of_neg hc,List.filter_nil,List.append_nil]
    simp [hc]

theorem lastCounted_congr (h : ∀ r ∈ w, r.type = .pageUpdate → r.pageId = p → c r = C r) :
    lastCounted c w p = lastCounted C w p := by
  induction w using List.reverseRecOn with
  | nil => rfl
  | append_singleton w r ih =>
    rw [lastCounted_append,lastCounted_append,ih fun s hs => h s (by simp [hs])]
    by_cases hr : r.type = .pageUpdate ∧ r.pageId = p
    · rw [h r (by simp) hr.1 hr.2]
    · rw [if_neg fun hc => hr ⟨hc.1,hc.2.1⟩,if_neg fun hc => hr ⟨hc.1,hc.2.1⟩]

theorem lastCounted_txn (by_ : TxnId → Bool) (w : List LogRecord) (p : PageId) :
    lastCounted (fun r => by_ r.txnId) w p = lastImage by_ w p := by
  induction w using List.reverseRecOn with
  | nil => rfl
  | append_singleton w r ih => rw [lastCounted_append,lastImage_append,ih,noteImage]

theorem lastCounted_none (h : ∀ r ∈ w, r.type = .pageUpdate → r.pageId = p → c r = false) :
    lastCounted c w p = none := by
  rw [lastCounted_congr (C := fun _ => false) h]
  simp [lastCounted,lastImage]

end counted

section steps

variable {base : PageId → Page} {e e' : Engine}

theorem Held.finished (h : Held base e) : Finished e.log := h.logOk.wellFormed.finished

/-- A transaction at work, or being rolled back, has not ended. -/
theorem Held.open_of_phase (h : Held base e) {t : TxnId}
    (ht : e.phase t = .active ∨ ∃ l, e.phase t = .aborting l) : ¬Ended e.log t := by
  have hp := h.logOk.phase t
  rcases ht with ht | ⟨l,ht⟩ <;> simpa [ht,PhaseOk] using hp

theorem counted_of_not_aborting {r : LogRecord} (h : ∀ l, e.phase r.txnId ≠ .aborting l) :
    counted e r = hasRole e.log r.txnId := by
  unfold counted
  split
  · rename_i l hl
    exact absurd hl (h l)
  · simp

/-- A step that leaves log, pages and file alone. -/
theorem Held.quiet (h : Held base e) (hok : LogOk e') (hlog : e'.log = e.log)
    (hdisk : e'.store.disk = e.store.disk) (hframe : e'.frame = e.frame)
    (hlsn : e'.pageLsn = e.pageLsn)
    (hdurable : e.store.log.durableLsn ≤ e'.store.log.durableLsn)
    (howner : ∀ p t, e.owner p = some t → ¬Ended e.log t → e'.owner p = some t)
    (hcounted : ∀ r ∈ e.log, r.type = .pageUpdate → counted e' r = counted e r)
    (hrolling : ∀ t l, e'.phase t = .aborting l → ∀ r ∈ e.log, r.txnId = t →
      r.lsn ≤ e'.store.log.durableLsn ∧
        (r.type = .pageUpdate → l < r.lsn → e.pageLsn r.pageId = invalidLsn)) : Held base e' where
  logOk := hok
  locked := hlog ▸ h.locked
  plain := hlog ▸ h.plain
  closed := hlog ▸ h.closed
  mounted := hdisk ▸ h.mounted
  within := by
    rw [hlog,hdisk]
    exact h.within
  owner := by
    rw [hlog]
    exact fun r hr hu hopen => howner _ _ (h.owner r hr hu hopen) hopen
  image p := by
    rw [hlog,lastCounted_congr fun r hr ht _ => hcounted r hr ht,← h.image]
    simp only [Engine.image,hframe,hdisk]
  dirty := by
    rw [hlog,hlsn,hframe]
    exact h.dirty
  clean := by
    rw [hlsn,hdisk]
    intro p hp
    rw [← h.clean p hp]
    simp only [Engine.image,hframe,hdisk]
  rollingBack := by
    rw [hlog,hlsn]
    exact hrolling
  initial := by
    rw [hlog,hdisk]
    exact fun v hv hd => h.initial v hv fun r hr hle => hd r hr (hle.trans hdurable)

/-- What recovery would have had to restore, once more records are in the log. -/
theorem initial_append {w : List LogRecord} {x : LogRecord} {file base : PageId → Page} {d : Lsn}
    (h : ∀ v, v <+: w → (∀ r ∈ w, r.lsn ≤ d → r ∈ v) → ∀ p, ¬Updated v p → file p = base p)
    (hall : ∀ p, Updated w p → ¬Updated (w ++ [x]) p → file p = base p) :
    ∀ v, v <+: w ++ [x] → (∀ r ∈ w ++ [x], r.lsn ≤ d → r ∈ v) → ∀ p, ¬Updated v p →
      file p = base p := by
  intro v hv hd p hp
  rcases List.prefix_concat_iff.mp hv with rfl | hv
  · by_cases hw : Updated w p
    · exact hall p hw hp
    · exact h w List.prefix_rfl (fun r hr _ => hr) p hw
  · exact h v hv (fun r hr hle => hd r (by simp [hr]) hle) p hp

/-- The append of a record that is no page action. -/
theorem Held.note (h : Held base e) {t : TxnId} {record : LogRecord} (hok : LogOk e')
    (hlog : e'.log = e.log ++ [record]) (htxn : record.txnId = t) (hu : isUndoable record = false)
    (hcomp : record.type ≠ .compensation) (ht : t ≠ invalidTxnId) (hopen : ¬Ended e.log t)
    (habort : record.type = .abort → e.phase t = .aborting invalidLsn)
    (hdisk : e'.store.disk = e.store.disk) (hframe : e'.frame = e.frame)
    (hlsn : e'.pageLsn = e.pageLsn) (hdurable : e'.store.log.durableLsn = e.store.log.durableLsn)
    (howner : e'.owner = e.owner) (hcounted : ∀ r ∈ e.log, counted e' r = counted e r)
    (hphase : ∀ u l, e'.phase u = .aborting l → e.phase u = .aborting l ∧ u ≠ t) :
    Held base e' := by
  have hf : Finished (e.log ++ [record]) := hlog ▸ hok.wellFormed.finished
  have hnot : record.type ≠ .pageUpdate := by
    intro hc
    rw [isUndoable_update hc] at hu
    cases hu
  have hmem : ∀ r ∈ e'.log, isUndoable r = true → r ∈ e.log := by
    intro r hr hru
    rw [hlog] at hr
    rcases List.mem_append.mp hr with hr | hr
    · exact hr
    · rw [List.mem_singleton.mp hr,hu] at hru
      cases hru
  have hended : ∀ u, Ended e.log u → Ended e'.log u := by
    intro u hend
    rw [hlog,ended_append]
    exact .inl hend
  have himage : ∀ p, lastCounted (counted e') e'.log p = lastCounted (counted e) e.log p := by
    intro p
    rw [hlog,lastCounted_append,if_neg fun hc => hnot hc.1]
    exact lastCounted_congr fun r hr _ _ => hcounted r hr
  have hpages : e'.image = e.image := by
    funext p
    simp only [Engine.image,hframe,hdisk]
  -- a role is lost with the Abort record only, after all pages have been restored
  have hrole : ∀ r ∈ e.log, r.type = .pageUpdate → hasRole e.log r.txnId = true →
      hasRole e'.log r.txnId = true ∨ e.pageLsn r.pageId = invalidLsn := by
    intro r hr hrt hrole
    rw [hlog]
    by_cases hrtxn : r.txnId = t
    · by_cases ha : record.type = .abort
      · have hpos := h.logOk.wellFormed.linked.positive r hr
        exact .inr ((h.rollingBack t _ (habort ha) r hr hrtxn).2 hrt hpos)
      · rw [hrtxn]
        exact .inl (htxn ▸ hasRole_append_self hf (htxn ▸ ht) ha (htxn ▸ hopen))
    · rw [hasRole_append_other hf fun hc => hrtxn (hc.symm.trans htxn)]
      exact .inl hrole
  refine ⟨hok,?_,?_,?_,hdisk ▸ h.mounted,?_,?_,?_,?_,?_,?_,?_⟩
  · rw [hlog]
    refine h.locked.push (fun hc => ?_) (fun hc => absurd hc hnot) fun c hc hct hctxn => ?_
    · rw [hu] at hc
      cases hc
    · exact absurd (hctxn.trans htxn ▸ h.closed c hc hct) hopen
  · intro r hr
    rw [hlog] at hr
    rcases List.mem_append.mp hr with hr | hr
    · exact h.plain r hr
    · rw [List.mem_singleton.mp hr]
      constructor <;> intro hc <;> simp [isUndoable,hc] at hu
  · intro r hr hct
    rw [hlog] at hr
    rcases List.mem_append.mp hr with hr | hr
    · exact hended _ (h.closed r hr hct)
    · rw [List.mem_singleton.mp hr] at hct
      exact absurd hct hcomp
  · intro r hr hru
    exact hdisk ▸ h.within r (hmem r hr hru) hru
  · intro r hr hru hro
    rw [howner]
    exact h.owner r (hmem r hr hru) hru fun hc => hro (hended _ hc)
  · intro p
    rw [hpages,himage]
    exact h.image p
  · intro p hp
    rw [hlsn] at hp
    obtain ⟨hfr,r,hr,hrt,rfl,hrl,hrr⟩ := h.dirty p hp
    refine ⟨hframe ▸ hfr,r,by simp [hlog,hr],hrt,rfl,hlsn ▸ hrl,?_⟩
    exact (hrole r hr hrt hrr).resolve_right hp
  · rw [hpages,hdisk,hlsn]
    exact h.clean
  · intro u l hul r hr hru
    obtain ⟨hul,hne⟩ := hphase u l hul
    rw [hlog] at hr
    rw [hdurable,hlsn]
    rcases List.mem_append.mp hr with hr | hr
    · exact h.rollingBack u l hul r hr hru
    · rw [List.mem_singleton.mp hr] at hru
      exact absurd (hru.symm.trans htxn) hne
  · rw [hlog,hdisk,hdurable]
    refine initial_append h.initial fun p hp hnp => ?_
    have hnone : lastCounted (counted e) e.log p = none := by
      rw [← himage]
      refine lastCounted_none fun r hr hrt hrp => ?_
      by_contra hc
      have hc : counted e' r = true := by simpa using hc
      simp only [counted,Bool.and_eq_true] at hc
      exact hnp (hlog ▸ updated_iff.mpr ⟨r,hr,hrt,hrp,hc.1⟩)
    obtain ⟨r,hr,hrt,rfl,hrr⟩ := updated_iff.mp hp
    rcases hrole r hr hrt hrr with hrr' | hz
    · exact absurd (updated_iff.mpr ⟨r,by simp [hr],hrt,rfl,hlog ▸ hrr'⟩) hnp
    · rw [← h.clean _ hz,h.image,hnone,Option.getD_none]

theorem Held.update (h : Held base e) {t : TxnId} {p : PageId} {page : Page}
    (ht : e.phase t = .active) (hu : e.Usable p) (hl : e.Lockable p t)
    (hok : LogOk (((e.appendFor t (updateRecord p (e.image p) page)).setFrame p (some page)
      (e.store.log.appendLsn + 1)).lock p t)) :
    Held base (((e.appendFor t (updateRecord p (e.image p) page)).setFrame p (some page)
      (e.store.log.appendLsn + 1)).lock p t) := by
  have hopen := h.open_of_phase (.inl ht)
  have hid : t ≠ invalidTxnId := (h.logOk.started t (by simp [ht])).1
  let x := e.stamp t (updateRecord p (e.image p) page)
  have hf : Finished (e.log ++ [x]) := hok.wellFormed.finished
  -- whoever touched the page before has ended
  have hothers : ∀ r ∈ e.log, isUndoable r = true → r.pageId = p → r.txnId ≠ t →
      Ended e.log r.txnId := by
    intro r hr hru hrp hne
    by_contra hro
    have hown := h.owner r hr hru hro
    rw [hrp] at hown
    rcases hl with hl | hl
    · rw [hl] at hown
      cases hown
    · rw [hl] at hown
      exact hne (Option.some.inj hown).symm
  have hself : hasRole (e.log ++ [x]) t = true :=
    hasRole_append_self (x := x) hf hid (by simp [x,Engine.stamp,updateRecord]) hopen
  have hrole : ∀ r ∈ e.log, hasRole (e.log ++ [x]) r.txnId = hasRole e.log r.txnId := by
    intro r hr
    by_cases hrt : r.txnId = t
    · rw [hrt,hself]
      exact ((hasRole_iff h.finished t).mpr ⟨hid,.inr ⟨⟨r,hr,hrt⟩,hopen⟩⟩).symm
    · exact hasRole_append_other hf fun hc => hrt hc.symm
  have hphase : ∀ u l, e.phase u = .aborting l → u ≠ t := by
    rintro u l hul rfl
    rw [ht] at hul
    cases hul
  let e' := ((e.appendFor t (updateRecord p (e.image p) page)).setFrame p (some page)
      (e.store.log.appendLsn + 1)).lock p t
  have hcounted : ∀ r ∈ e.log, counted e' r = counted e r := by
    intro r hr
    change (hasRole (e.log ++ [x]) r.txnId && _) = _
    rw [hrole r hr]
    rfl
  have hcountedx : counted e' x = true := by
    rw [counted_of_not_aborting]
    · exact hself
    · intro l hl
      exact hphase t l hl rfl
  have hbefore : e.image p = (lastImage (fun u => isWinner (analyze e.log) u || u = t) e.log
      p).getD (base p) := by
    rw [h.image,← lastCounted_txn]
    congr 1
    refine lastCounted_congr fun r hr hrt hrp => ?_
    by_cases hrtxn : r.txnId = t
    · have hr' := (hasRole_iff h.finished t).mpr ⟨hid,.inr ⟨⟨r,hr,hrtxn⟩,hopen⟩⟩
      rw [counted_of_not_aborting fun l hl => hphase _ l hl hrtxn]
      simp [hrtxn,hr']
    · have hend := hothers r hr (isUndoable_update hrt) hrp hrtxn
      have hlose : isLoser (analyze e.log) r.txnId = false := by
        by_contra hc
        exact ((isLoser_iff _).mp (by simpa using hc)).2.2 hend
      rw [counted_of_not_aborting fun l hl => h.open_of_phase (.inr ⟨l,hl⟩) hend]
      simp [hasRole,hlose,hrtxn]
  refine ⟨hok,?_,?_,?_,h.mounted,?_,?_,?_,?_,?_,?_,?_⟩
  · refine h.locked.push (x := x) (fun _ a r b hab hru hrp hne => ?_) (fun _ _ => ?_)
      fun c hc hct (hctxn : c.txnId = t) => absurd (hctxn ▸ h.closed c hc hct) hopen
    · have hr : r ∈ e.log := by simp [hab]
      exact ended_after h.finished hab (h.logOk.ids r hr).1 (not_terminal_of_undoable hru)
        (hothers r hr hru hrp hne)
    · exact congrArg some hbefore
  · intro r hr
    rcases List.mem_append.mp hr with hr | hr
    · exact h.plain r hr
    · rw [List.mem_singleton.mp hr]
      simp [updateRecord]
  · intro r hr hct
    refine (ended_append _ _ _).mpr (.inl ?_)
    rcases List.mem_append.mp hr with hr | hr
    · exact h.closed r hr hct
    · rw [List.mem_singleton.mp hr] at hct
      cases hct
  · intro r hr hru
    rcases List.mem_append.mp hr with hr | hr
    · exact h.within r hr hru
    · rw [List.mem_singleton.mp hr]
      exact ⟨⟨hu.1,hu.2.1⟩,hu.2.2.1⟩
  · intro r hr hru hro
    change Function.update e.owner p (some t) r.pageId = some r.txnId
    rcases List.mem_append.mp hr with hr | hr
    · have hro' : ¬Ended e.log r.txnId := fun hc => hro ((ended_append _ _ _).mpr (.inl hc))
      by_cases hrp : r.pageId = p
      · have hrt : r.txnId = t := by
          by_contra hne
          exact hro' (hothers r hr hru hrp hne)
        rw [hrp,Function.update_self,hrt]
      · rw [Function.update_of_ne hrp]
        exact h.owner r hr hru hro'
    · rw [List.mem_singleton.mp hr]
      simp [updateRecord]
  · intro q
    change e'.image q = (lastCounted (counted e') (e.log ++ [x]) q).getD (base q)
    rw [lastCounted_append,lastCounted_congr fun r hr _ _ => hcounted r hr]
    by_cases hqp : q = p
    · subst hqp
      rw [if_pos ⟨rfl,rfl,hcountedx⟩]
      simp [Engine.image,e',x,Engine.stamp,updateRecord]
    · rw [if_neg fun hc => hqp hc.2.1.symm,← h.image]
      simp [Engine.image,e',hqp]
  · intro q hq
    by_cases hqp : q = p
    · subst hqp
      exact ⟨by simp,x,by simp [x],rfl,rfl,by simp [x,Engine.stamp],hself⟩
    · obtain ⟨hfr,r,hr,hrt,rfl,hrl,hrr⟩ := h.dirty q (by simpa [hqp] using hq)
      refine ⟨by simpa [hqp] using hfr,r,by simp [hr],hrt,rfl,by simpa [hqp] using hrl,?_⟩
      exact (hrole r hr).trans hrr
  · intro q hq
    have hqp : q ≠ p := by
      rintro rfl
      simp [invalidLsn] at hq
    have hold := h.clean q (by simpa [hqp] using hq)
    simpa [Engine.image,hqp] using hold
  · intro u l hul r hr hru
    have hul' : e.phase u = .aborting l := hul
    have hut := hphase u l hul'
    rcases List.mem_append.mp hr with hr | hr
    · obtain ⟨hd,hz⟩ := h.rollingBack u l hul' r hr hru
      refine ⟨hd,fun hrt hlt => ?_⟩
      have hrp : r.pageId ≠ p := fun hc => h.open_of_phase (.inr ⟨l,hul'⟩)
        (hru ▸ hothers r hr (isUndoable_update hrt) hc (hru ▸ hut))
      simpa [hrp] using hz hrt hlt
    · rw [List.mem_singleton.mp hr] at hru
      exact absurd hru.symm hut
  · refine initial_append (x := x) h.initial fun q hq hnq => ?_
    obtain ⟨r,hr,hrt,hrp,hrr⟩ := updated_iff.mp hq
    exact absurd (updated_iff.mpr ⟨r,List.mem_append_left _ hr,hrt,hrp,(hrole r hr).trans hrr⟩) hnq

theorem Held.flushFrame (h : Held base e) {p : PageId} {page : Page} (hf : e.frame p = some page)
    (hd : e.pageLsn p ≠ invalidLsn) (hok : LogOk (e.flushFrame p page)) :
    Held base (e.flushFrame p page) := by
  obtain ⟨-,r,hr,hrt,hrp,hrl,hrr⟩ := h.dirty p hd
  obtain ⟨free,hm⟩ := h.mounted
  have huse : InUse e.store.disk p := hrp ▸ h.within r hr (isUndoable_update hrt)
  have himage : (e.flushFrame p page).image = e.image := by
    funext q
    by_cases hqp : q = p
    · subst hqp
      simp [Engine.image,hf]
    · simp [Engine.image,hqp]
  refine ⟨hok,h.locked,h.plain,h.closed,⟨free,hm.write huse.range
    (not_mem_of_mounted hm huse.live)⟩,fun s hs hsu => ⟨(h.within s hs hsu).range,
    (h.within s hs hsu).live⟩,h.owner,?_,?_,?_,?_,?_⟩
  · intro q
    rw [himage]
    exact h.image q
  · intro q hq
    have hqp : q ≠ p := by
      rintro rfl
      simp at hq
    obtain ⟨hfr,s,hs,hst,hsp,hsl,hsr⟩ := h.dirty q (by simpa [hqp] using hq)
    exact ⟨by simpa [hqp] using hfr,s,hs,hst,hsp,by simpa [hqp] using hsl,hsr⟩
  · intro q hq
    rw [himage]
    by_cases hqp : q = p
    · subst hqp
      simp [Engine.image,hf]
    · rw [h.clean q (by simpa [hqp] using hq)]
      simp [hqp]
  · intro t l htl s hs hst
    obtain ⟨hle,hz⟩ := h.rollingBack t l htl s hs hst
    refine ⟨hle.trans (le_max_left _ _),fun hsu hlt => ?_⟩
    by_cases hsp : s.pageId = p
    · simp [hsp]
    · simpa [hsp] using hz hsu hlt
  · intro v hv hdv q hq
    have hold : ∀ s ∈ e.log, s.lsn ≤ e.store.log.durableLsn → s ∈ v :=
      fun s hs hle => hdv s hs (hle.trans (le_max_left _ _))
    have hqp : q ≠ p := by
      rintro rfl
      -- the last update of the page is durable, and so in `v`
      have hrv : r ∈ v := hdv r hr (le_trans (le_of_eq hrl) (le_max_right _ _))
      obtain ⟨ys,hys⟩ := hv
      have hys' : v ++ ys = e.log := hys
      have hrole := hasRole_of_append (a := v) (b := ys) (hys' ▸ h.finished) hrv (hys' ▸ hrr)
      exact hq (updated_iff.mpr ⟨r,hrv,hrt,hrp,hrole⟩)
    rw [flushFrame_file,Function.update_of_ne hqp]
    exact h.initial v hv hold q hq

theorem Held.evict (h : Held base e) {p : PageId} (hp : e.pageLsn p = invalidLsn)
    (hok : LogOk (e.setFrame p none invalidLsn)) : Held base (e.setFrame p none invalidLsn) := by
  have hlsn : (e.setFrame p none invalidLsn).pageLsn = e.pageLsn := by
    rw [setFrame_pageLsn,← hp,Function.update_eq_self]
  have himage : (e.setFrame p none invalidLsn).image = e.image := by
    funext q
    by_cases hqp : q = p
    · subst hqp
      rw [h.clean q hp]
      simp [Engine.image]
    · simp [Engine.image,hqp]
  refine ⟨hok,h.locked,h.plain,h.closed,h.mounted,h.within,h.owner,?_,?_,?_,?_,h.initial⟩
  · intro q
    rw [himage]
    exact h.image q
  · intro q hq
    rw [hlsn] at hq
    have hqp : q ≠ p := fun hc => hq (hc ▸ hp)
    obtain ⟨hfr,hrest⟩ := h.dirty q hq
    exact ⟨by simpa [hqp] using hfr,by rw [hlsn]; exact hrest⟩
  · rw [himage,hlsn]
    exact h.clean
  · rw [hlsn]
    exact h.rollingBack

/-- The records of a transaction before one of its records. -/
theorem le_prevLsn_iff {w : List LogRecord} (hl : Linked w) {r s : LogRecord} (hr : r ∈ w)
    (hs : s ∈ w) (ht : s.txnId = r.txnId) (hid : r.txnId ≠ invalidTxnId) :
    s.lsn ≤ r.prevLsn ↔ s.lsn < r.lsn := by
  obtain ⟨a,b,hab⟩ := List.append_of_mem hr
  have hla : Linked (a ++ r :: b) := hab ▸ hl
  rw [hl.prev a r b hab hid]
  constructor
  · exact fun hle => lt_of_le_of_lt (hle.trans (lastLsnOf_le_appendLsnOf a _)) hla.appendLsnOf_lt
  · intro hlt
    have hsa := (le_appendLsnOf_of_lt hl hab hs hlt).1
    exact le_appendLsnOf (by simp [hsa,ht])

/-- The engine once `r` is undone. -/
def Engine.undone (e : Engine) (r : LogRecord) : Engine :=
  (e.undoRecord r.txnId r).setPhase r.txnId (.aborting r.prevLsn)

@[simp] theorem Engine.undone_log (e : Engine) (r : LogRecord) : (e.undone r).log = e.log := by
  simp [Engine.undone]

@[simp] theorem Engine.undone_phase (e : Engine) (r : LogRecord) :
    (e.undone r).phase = Function.update e.phase r.txnId (.aborting r.prevLsn) := by
  simp [Engine.undone,Engine.setPhase]

/-- The next record that the rollback of its transaction undoes. -/
structure UndoesNext (base : PageId → Page) (e : Engine) (r : LogRecord) : Prop where
  held : Held base e
  mem : r ∈ e.log
  phase : e.phase r.txnId = .aborting r.lsn

namespace UndoesNext

variable {r s : LogRecord} {a b : List LogRecord} {img : Page}

theorem linked (h : UndoesNext base e r) : Linked e.log := h.held.logOk.wellFormed.linked

theorem running (h : UndoesNext base e r) : ¬Ended e.log r.txnId :=
  h.held.open_of_phase (.inr ⟨_,h.phase⟩)

theorem valid (h : UndoesNext base e r) : r.txnId ≠ invalidTxnId :=
  (h.held.logOk.started _ (by simp [h.phase])).1

theorem hasRole (h : UndoesNext base e r) : hasRole e.log r.txnId = true :=
  (hasRole_iff h.held.finished _).mpr ⟨h.valid,.inr ⟨⟨r,h.mem,rfl⟩,h.running⟩⟩

theorem before (h : UndoesNext base e r) (hs : s ∈ e.log) (hst : s.txnId = r.txnId) :
    s.lsn ≤ r.prevLsn ↔ s.lsn < r.lsn := le_prevLsn_iff h.linked h.mem hs hst h.valid

theorem lsn_ne (h : UndoesNext base e r) (hs : s ∈ e.log) (hsr : s ≠ r) : s.lsn ≠ r.lsn :=
  fun hc => hsr (eq_of_lsn_eq h.linked hs h.mem hc)

/-- `r` no longer counts, and nothing else changes. -/
theorem counted_other (h : UndoesNext base e r) (hs : s ∈ e.log) (hsr : s ≠ r) :
    counted (e.undone r) s = counted e s := by
  unfold counted
  rw [Engine.undone_log,Engine.undone_phase]
  by_cases hst : s.txnId = r.txnId
  · have hiff : s.lsn ≤ r.prevLsn ↔ s.lsn ≤ r.lsn := by
      rw [h.before hs hst]
      exact ⟨le_of_lt,fun hc => lt_of_le_of_ne hc (h.lsn_ne hs hsr)⟩
    simp [hst,h.phase,hiff]
  · rw [Function.update_of_ne hst]

theorem counted_self (h : UndoesNext base e r) : counted (e.undone r) r = false := by
  unfold counted
  rw [Engine.undone_phase,Function.update_self]
  have hnot : ¬r.lsn ≤ r.prevLsn := fun hc => lt_irrefl _ ((h.before h.mem rfl).mp hc)
  simp [hnot]

theorem rollingBack (h : UndoesNext base e r) {u : TxnId} {l : Lsn}
    (hul : (e.undone r).phase u = .aborting l) (hs : s ∈ e.log) (hsu : s.txnId = u) :
    s.lsn ≤ e.store.log.durableLsn ∧
      (s.type = .pageUpdate → l < s.lsn → s = r ∨ e.pageLsn s.pageId = invalidLsn) := by
  rw [Engine.undone_phase] at hul
  by_cases hut : u = r.txnId
  · subst hut
    rw [Function.update_self] at hul
    cases hul
    obtain ⟨hd,hz⟩ := h.held.rollingBack _ _ h.phase s hs hsu
    refine ⟨hd,fun hst hlt => ?_⟩
    by_cases hsr : s = r
    · exact .inl hsr
    · have hge : r.lsn ≤ s.lsn :=
        not_lt.mp fun hc => absurd ((h.before hs hsu).mpr hc) (not_le.mpr hlt)
      exact .inr (hz hst (lt_of_le_of_ne hge (h.lsn_ne hs hsr).symm))
  · rw [Function.update_of_ne hut] at hul
    obtain ⟨hd,hz⟩ := h.held.rollingBack u l hul s hs hsu
    exact ⟨hd,fun hst hlt => .inr (hz hst hlt)⟩

/-! The image that `r` has seen is the one that counts without `r`. -/

/-- No update of the page counts from `r` on. -/
theorem lastCounted_eq (h : UndoesNext base e r) (hab : e.log = a ++ r :: b)
    (hupdate : r.type = .pageUpdate) :
    lastCounted (counted (e.undone r)) e.log r.pageId =
      lastCounted (counted (e.undone r)) a r.pageId := by
  have hl : Linked (a ++ r :: b) := hab ▸ h.linked
  rw [hab,lastCounted,lastCounted,List.filter_append]
  refine lastImage_append_other fun s hs hst hsp => ?_
  obtain ⟨hs,hsc⟩ := List.mem_filter.mp hs
  exfalso
  have hsw : s ∈ e.log := by rw [hab]; exact List.mem_append_right _ hs
  rcases List.mem_cons.mp hs with rfl | hsb
  · rw [h.counted_self] at hsc
    cases hsc
  have hgt : r.lsn < s.lsn :=
    (List.pairwise_cons.mp (List.pairwise_append.mp hl.increasing).2.1).1 s hsb
  by_cases hstxn : s.txnId = r.txnId
  · unfold counted at hsc
    rw [Engine.undone_phase,hstxn,Function.update_self] at hsc
    have hnot : ¬s.lsn ≤ r.prevLsn := fun hc =>
      absurd ((h.before hsw hstxn).mp hc) (not_lt.mpr (le_of_lt hgt))
    simp [hnot] at hsc
  · have hsa := (h.held.locked.before_open hab (isUndoable_update hupdate) h.running hsw
      (isUndoable_update hst) hsp hstxn).1
    exact absurd (hl.lt hsa) (not_lt.mpr (le_of_lt hgt))

/-- Before `r` those of its own transaction and of the committed ones count. -/
theorem counted_before (h : UndoesNext base e r) (hab : e.log = a ++ r :: b)
    (hupdate : r.type = .pageUpdate) (hs : s ∈ a) (hst : s.type = .pageUpdate)
    (hsp : s.pageId = r.pageId) : counted (e.undone r) s =
      (isWinner (analyze a) s.txnId || decide (s.txnId = r.txnId)) := by
  have hl : Linked (a ++ r :: b) := hab ▸ h.linked
  have hsw : s ∈ e.log := by simp [hab,hs]
  have hsr : s ≠ r := by
    rintro rfl
    exact absurd (hl.lt hs) (lt_irrefl _)
  rw [h.counted_other hsw hsr]
  by_cases hstxn : s.txnId = r.txnId
  · have hslt : s.lsn ≤ r.lsn := le_of_lt (hl.lt hs)
    simp [counted,hstxn,h.hasRole,h.phase,hslt]
  · have hend := (h.held.locked.before_open hab (isUndoable_update hupdate) h.running hsw
      (isUndoable_update hst) hsp hstxn).2
    have hfa : Finished a := (hab ▸ h.held.finished : Finished (a ++ r :: b)).of_append
    have hendw : Ended e.log s.txnId := by
      rw [hab]
      exact ended_append_list.mpr (.inl hend)
    have hlose : isLoser (analyze e.log) s.txnId = false := by
      by_contra hc
      exact ((isLoser_iff _).mp (by simpa using hc)).2.2 hendw
    have hwin : isWinner (analyze a) s.txnId = isWinner (analyze e.log) s.txnId := by
      rw [Bool.eq_iff_iff,isWinner_iff hfa,isWinner_iff h.held.finished]
      refine and_congr_right fun hsid => ?_
      rw [hab]
      exact (committed_of_ended (hab ▸ h.held.finished) hsid hend).symm
    rw [counted_of_not_aborting fun l hc => h.held.open_of_phase (.inr ⟨l,hc⟩) hendw]
    simp [Recovery.hasRole,hlose,hwin,hstxn]

/-- The image that `r` has seen is the one that counts without `r`. -/
theorem image_before (h : UndoesNext base e r) (hupdate : r.type = .pageUpdate)
    (himg : r.beforeImage = some img) :
    (lastCounted (counted (e.undone r)) e.log r.pageId).getD (base r.pageId) = img := by
  obtain ⟨a,b,hab⟩ := List.append_of_mem h.mem
  have hplain : ¬Allocates a r.txnId r.pageId := by
    rintro ⟨s,hs,-,hst,-⟩
    exact (h.held.plain s (by simp [hab,hs])).1 hst
  have hcur := h.held.locked.current a r b hab hupdate hplain
  rw [himg,Option.some.injEq] at hcur
  rw [hcur,h.lastCounted_eq hab hupdate,← lastCounted_txn]
  congr 1
  exact lastCounted_congr fun s hs hst hsp => h.counted_before hab hupdate hs hst hsp

end UndoesNext

/-- The image of a page is put back in its frame and on the file. -/
structure PutBack (e e' : Engine) (p : PageId) (img : Page) : Prop where
  image : e'.image p = img
  imageOther : ∀ q, q ≠ p → e'.image q = e.image q
  frame : ∀ q, q ≠ p → e'.frame q = e.frame q
  pageLsn : e'.pageLsn = Function.update e.pageLsn p invalidLsn
  owner : e'.owner = e.owner
  disk : e'.store.disk = e.store.disk.writePage p img
  durable : e'.store.log.durableLsn = e.store.log.durableLsn

theorem putBack_undone {r : LogRecord} {img : Page} (hupdate : r.type = .pageUpdate)
    (himg : r.beforeImage = some img) : PutBack e (e.undone r) r.pageId img := by
  have he : e.undone r =
      (e.restorePage r.pageId img).setPhase r.txnId (.aborting r.prevLsn) := by
    simp only [Engine.undone,Engine.undoRecord,hupdate,himg]
  rw [he]
  refine ⟨?_,fun q hq => ?_,fun q hq => ?_,rfl,rfl,rfl,rfl⟩
  · cases hf : e.frame r.pageId <;>
      simp [Engine.image,Engine.setPhase,Engine.restorePage,Store.mapDisk,hf]
  · simp [Engine.image,Engine.setPhase,Engine.restorePage,Store.mapDisk,hq]
  · simp [Engine.setPhase,Engine.restorePage,hq]

theorem UndoesNext.update {r : LogRecord} {img : Page} (h : UndoesNext base e r)
    (hok : LogOk (e.undone r)) (hupdate : r.type = .pageUpdate)
    (himg : r.beforeImage = some img) : Held base (e.undone r) := by
  have hback := putBack_undone (e := e) hupdate himg
  have hlog := e.undone_log r
  have hinUse : ∀ q, InUse e.store.disk q → InUse (e.undone r).store.disk q := by
    intro q hq
    rw [hback.disk]
    exact ⟨hq.range,hq.live⟩
  have hfile : (e.undone r).store.disk.file = Function.update e.store.disk.file r.pageId img := by
    rw [hback.disk]
    rfl
  refine ⟨hok,hlog ▸ h.held.locked,hlog ▸ h.held.plain,hlog ▸ h.held.closed,?_,?_,?_,?_,?_,?_,?_,?_⟩
  · obtain ⟨free,hm⟩ := h.held.mounted
    have huse := h.held.within r h.mem (isUndoable_update hupdate)
    refine ⟨free,?_⟩
    rw [hback.disk]
    exact hm.write huse.range (not_mem_of_mounted hm huse.live)
  · intro s hs hsu
    exact hinUse _ (h.held.within s (hlog ▸ hs) hsu)
  · intro s hs hsu hso
    exact (congrFun hback.owner _).trans (h.held.owner s (hlog ▸ hs) hsu (hlog ▸ hso))
  · intro q
    rw [hlog]
    by_cases hq : q = r.pageId
    · rw [hq,hback.image,h.image_before hupdate himg]
    · rw [hback.imageOther q hq,h.held.image]
      congr 1
      refine lastCounted_congr fun s hs _ hsp => (h.counted_other hs ?_).symm
      rintro rfl
      exact hq hsp.symm
  · intro q hq
    have hq' : q ≠ r.pageId := by
      rintro rfl
      simp [hback.pageLsn] at hq
    have hq'' : e.pageLsn q ≠ invalidLsn := by simpa [hback.pageLsn,hq'] using hq
    obtain ⟨hfr,s,hs,hst,hsp,hsl,hsr⟩ := h.held.dirty q hq''
    refine ⟨?_,s,hlog ▸ hs,hst,hsp,?_,?_⟩
    · rwa [hback.frame q hq']
    · rw [hback.pageLsn,Function.update_of_ne hq',hsl]
    · rwa [hlog]
  · intro q hq
    by_cases hqp : q = r.pageId
    · rw [hqp,hback.image,hfile,Function.update_self]
    · rw [hback.imageOther q hqp,hfile,Function.update_of_ne hqp]
      refine h.held.clean q ?_
      simpa [hback.pageLsn,hqp] using hq
  · intro u l hul s hs hsu
    obtain ⟨hd,hz⟩ := h.rollingBack hul (hlog ▸ hs) hsu
    refine ⟨hback.durable ▸ hd,fun hst hlt => ?_⟩
    rw [hback.pageLsn]
    by_cases hsp : s.pageId = r.pageId
    · rw [hsp,Function.update_self]
    · rw [Function.update_of_ne hsp]
      rcases hz hst hlt with rfl | hz
      · exact absurd rfl hsp
      · exact hz
  · intro v hv hdv q hq
    have hv' : v <+: e.log := hlog ▸ hv
    have hdv' : ∀ s ∈ e.log, s.lsn ≤ e.store.log.durableLsn → s ∈ v := fun s hs hsl =>
      hdv s (hlog ▸ hs) (hback.durable ▸ hsl)
    have hqp : q ≠ r.pageId := by
      rintro rfl
      -- the whole rollback is durable, so `r` is in `v`, where its transaction is open
      have hrv : r ∈ v := hdv' r h.mem (h.held.rollingBack _ _ h.phase r h.mem rfl).1
      obtain ⟨ys,hys⟩ := hv'
      have hrole := hasRole_of_append (a := v) (b := ys) (hys ▸ h.held.finished) hrv
        (hys ▸ h.hasRole)
      exact hq (updated_iff.mpr ⟨r,hrv,hupdate,rfl,hrole⟩)
    rw [hfile,Function.update_of_ne hqp]
    exact h.held.initial v hv' hdv' q hq

/-- A record that is no update is passed over. -/
theorem UndoesNext.skip {r : LogRecord} (h : UndoesNext base e r) (hok : LogOk (e.undone r))
    (hupdate : r.type ≠ .pageUpdate) : Held base (e.undone r) := by
  have hrecord : e.undoRecord r.txnId r = e := by
    unfold Engine.undoRecord
    split
    · rename_i hc _
      exact absurd hc hupdate
    · rename_i hc
      exact absurd hc (h.held.plain r h.mem).1
    · rename_i hc
      exact absurd hc (h.held.plain r h.mem).2
    · rfl
  have he : e.undone r = e.setPhase r.txnId (.aborting r.prevLsn) := by
    rw [Engine.undone,hrecord]
  have hsr : ∀ s, s.type = .pageUpdate → s ≠ r := by
    rintro s hst rfl
    exact hupdate hst
  refine h.held.quiet hok (e.undone_log r) (by rw [he]; rfl) (by rw [he]; rfl) (by rw [he]; rfl)
    (by rw [he]; exact le_rfl) (fun p u hp _ => by rw [he]; exact hp)
    (fun s hs hst => h.counted_other hs (hsr s hst)) fun u l hul s hs hsu => ?_
  obtain ⟨hd,hz⟩ := h.rollingBack hul hs hsu
  exact ⟨by rw [he]; exact hd,fun hst hlt => (hz hst hlt).resolve_left (hsr s hst)⟩

theorem Held.undo (h : Held base e) {t : TxnId} {r : LogRecord} (hr : r ∈ e.log)
    (hrt : r.txnId = t) (ht : e.phase t = .aborting r.lsn)
    (hok : LogOk ((e.undoRecord t r).setPhase t (.aborting r.prevLsn))) :
    Held base ((e.undoRecord t r).setPhase t (.aborting r.prevLsn)) := by
  subst hrt
  have hnext : UndoesNext base e r := ⟨h,hr,ht⟩
  by_cases hupdate : r.type = .pageUpdate
  · obtain ⟨img,-,himg,-⟩ := encoded_update (h.logOk.wellFormed.encoded r hr) hupdate
    exact hnext.update hok hupdate himg
  · exact hnext.skip hok hupdate

/-- A change of phase that takes no rollback along. -/
theorem Held.rephase (h : Held base e) {t : TxnId} {x : Phase} (hok : LogOk e')
    (hlog : e'.log = e.log) (hdisk : e'.store.disk = e.store.disk) (hframe : e'.frame = e.frame)
    (hlsn : e'.pageLsn = e.pageLsn)
    (hdurable : e.store.log.durableLsn ≤ e'.store.log.durableLsn)
    (howner : ∀ p u, e.owner p = some u → ¬Ended e.log u → e'.owner p = some u)
    (hphase : e'.phase = Function.update e.phase t x) (hx : ∀ l, x ≠ .aborting l)
    (ht : ∀ l, e.phase t ≠ .aborting l) : Held base e' := by
  have hother : ∀ u l, e'.phase u = .aborting l → e.phase u = .aborting l := by
    intro u l hul
    rw [hphase] at hul
    by_cases hut : u = t
    · subst hut
      rw [Function.update_self] at hul
      exact absurd hul (hx l)
    · rwa [Function.update_of_ne hut] at hul
  refine h.quiet hok hlog hdisk hframe hlsn hdurable howner (fun r hr _ => ?_) fun u l hul r hr hru => ?_
  · by_cases hrt : r.txnId = t
    · rw [counted_of_not_aborting (by rw [hphase,hrt,Function.update_self]; exact hx),
        counted_of_not_aborting (by rw [hrt]; exact ht),hlog]
    · unfold counted
      rw [hlog,hphase,Function.update_of_ne hrt]
  · obtain ⟨hd,hz⟩ := h.rollingBack u l (hother u l hul) r hr hru
    exact ⟨hd.trans hdurable,hz⟩

/-- An append that ends a transaction, or begins one. -/
theorem Held.noteStep (h : Held base e) {t : TxnId} {record : LogRecord} {x : Phase}
    (hok : LogOk e') (hlog : e'.log = e.log ++ [record]) (htxn : record.txnId = t)
    (hu : isUndoable record = false) (hcomp : record.type ≠ .compensation)
    (hid : t ≠ invalidTxnId) (hopen : ¬Ended e.log t)
    (habort : record.type = .abort → e.phase t = .aborting invalidLsn)
    (hrole : record.type ≠ .abort → ∀ l, e.phase t ≠ .aborting l)
    (hdisk : e'.store.disk = e.store.disk) (hframe : e'.frame = e.frame)
    (hlsn : e'.pageLsn = e.pageLsn) (hdurable : e'.store.log.durableLsn = e.store.log.durableLsn)
    (howner : e'.owner = e.owner) (hphase : e'.phase = Function.update e.phase t x)
    (hx : ∀ l, x ≠ .aborting l) : Held base e' := by
  have hf : Finished (e.log ++ [record]) := hlog ▸ hok.wellFormed.finished
  refine h.note hok hlog htxn hu hcomp hid hopen habort hdisk hframe hlsn hdurable howner
    (fun r hr => ?_) fun u l hul => ?_
  · by_cases hrt : r.txnId = t
    · rw [counted_of_not_aborting (by rw [hphase,hrt,Function.update_self]; exact hx),hlog]
      by_cases ha : record.type = .abort
      · -- rolled back to its begin, nothing of the transaction counts any more
        have hnone : hasRole (e.log ++ [record]) r.txnId = false := by
          by_contra hc
          have hrole := ((hasRole_iff hf _).mp (by simpa using hc)).2
          rw [hrt,committed_append,ended_append] at hrole
          rcases hrole with (hc | hc) | ⟨-,hc⟩
          · exact hopen hc.ended
          · rw [ha] at hc
            cases hc.2
          · exact hc (.inr ⟨htxn,by simp [isTerminal,ha]⟩)
        have hpos : ¬r.lsn ≤ invalidLsn :=
          not_le.mpr (h.logOk.wellFormed.linked.positive r hr)
        rw [hnone,counted,hrt,habort ha]
        simp [hpos]
      · have hself := hasRole_append_self hf (htxn ▸ hid) ha (htxn ▸ hopen)
        rw [htxn] at hself
        have hold := (hasRole_iff h.finished t).mpr ⟨hid,.inr ⟨⟨r,hr,hrt⟩,hopen⟩⟩
        rw [counted_of_not_aborting (by rw [hrt]; exact hrole ha),hrt,hold]
        exact hself
    · unfold counted
      rw [hlog,hasRole_append_other hf fun hc => hrt (hc.symm.trans htxn),hphase,Function.update_of_ne hrt]
  · rw [hphase] at hul
    by_cases hut : u = t
    · subst hut
      rw [Function.update_self] at hul
      exact absurd hul (hx l)
    · rw [Function.update_of_ne hut] at hul
      exact ⟨hul,hut⟩

theorem Held.abort (h : Held base e) {t : TxnId} (ht : e.phase t = .active)
    (hok : LogOk ((e.setDurable e.store.log.appendLsn).setPhase t (.aborting (e.lastLsn t)))) :
    Held base ((e.setDurable e.store.log.appendLsn).setPhase t (.aborting (e.lastLsn t))) := by
  have hlast : e.lastLsn t = lastLsnOf e.log t := h.logOk.last t (by simp [ht])
  have hle : ∀ r ∈ e.log, r.txnId = t → r.lsn ≤ e.lastLsn t := by
    intro r hr hrt
    rw [hlast]
    exact le_appendLsnOf (by simp [hr,hrt])
  have hall : ∀ r ∈ e.log, r.lsn ≤ max e.store.log.durableLsn e.store.log.appendLsn :=
    fun r hr => le_trans (le_appendLsnOf hr) (le_max_right _ _)
  refine h.quiet hok rfl rfl rfl rfl (le_max_left _ _) (fun p u hp _ => hp) (fun r hr _ => ?_)
    fun u l hul r hr hru => ⟨hall r hr,fun hrt hlt => ?_⟩
  · by_cases hrt : r.txnId = t
    · rw [counted_of_not_aborting (e := e) (by simp [hrt,ht])]
      simp only [counted,setPhase_log,setDurable_log,setPhase_phase,hrt,Function.update_self]
      simp [hle r hr hrt]
    · simp only [counted,setPhase_log,setDurable_log,setPhase_phase]
      rw [Function.update_of_ne hrt]
      rfl
  · rw [setPhase_phase] at hul
    by_cases hut : u = t
    · subst hut
      rw [Function.update_self] at hul
      cases hul
      exact absurd hlt (not_lt.mpr (hle r hr hru))
    · rw [Function.update_of_ne hut] at hul
      exact (h.rollingBack u l hul r hr hru).2 hrt hlt

theorem Held.step {a : Action} (h : Held base e) (ha : a.updateOnly = true) (hs : Step e a e') :
    Held base e' := by
  have hok := h.logOk.step hs
  have hid : ∀ t, e.phase t ≠ .idle → t ≠ invalidTxnId := fun t ht => (h.logOk.started t ht).1
  cases hs with
  | begin =>
    obtain ⟨hidle,hnone⟩ := h.logOk.fresh
    exact h.noteStep hok rfl rfl rfl (by simp) h.logOk.next
      (fun ⟨r,hr,hrt,_⟩ => hnone r hr hrt) (by simp) (by simp [hidle]) rfl rfl rfl rfl
      rfl rfl (by simp)
  | takePage ht htaken hb hrun => cases ha
  | logAllocate ht htaken hl => cases ha
  | update ht hu hl => exact h.update ht hu hl hok
  | free ht hu hl => cases ha
  | flushLog hl =>
    exact h.quiet hok rfl rfl rfl rfl (le_max_left _ _) (fun _ _ hp _ => hp) (fun _ _ _ => rfl)
      fun u l hul r hr hru => ⟨((h.rollingBack u l hul r hr hru).1).trans (le_max_left _ _),
        (h.rollingBack u l hul r hr hru).2⟩
  | flushPage hf hd hp => exact h.flushFrame hf hd hok
  | evict hp => exact h.evict hp hok
  | @commit t ht htaken =>
    exact h.noteStep hok rfl rfl rfl (by simp) (hid t (by simp [ht]))
      (h.open_of_phase (.inl ht)) (by simp) (by simp [ht]) rfl rfl rfl rfl rfl rfl
      (by simp)
  | @commitFlush t lsn ht =>
    exact h.rephase hok rfl rfl rfl rfl (le_max_left _ _) (fun _ _ hp _ => hp) rfl (by simp)
      (by simp [ht])
  | cleanup ht hd => cases ha
  | @finish t ht hd =>
    have hc : Committed e.log t := by simpa [ht,PhaseOk] using h.logOk.phase t
    refine h.rephase hok rfl rfl rfl rfl le_rfl (fun p u hp hu => ?_) rfl (by simp) (by simp [ht])
    have hne : u ≠ t := fun heq => hu (heq ▸ hc.ended)
    simp [Engine.setPhase,Engine.unlockAll,hp,hne]
  | abort ht htaken => exact h.abort ht hok
  | undo hr hrt ht => exact h.undo hr hrt ht hok
  | @abortAppend t ht =>
    exact h.noteStep hok rfl rfl rfl (by simp) (hid t (by simp [ht]))
      (h.open_of_phase (.inr ⟨_,ht⟩)) (fun _ => ht) (by simp) rfl rfl rfl rfl rfl rfl
      (by simp)
  | @abortFlush t lsn ht =>
    have hc : Ended e.log t := by
      have hp := h.logOk.phase t
      rw [ht] at hp
      exact hp.1
    refine h.rephase hok rfl rfl rfl rfl (le_max_left _ _) (fun p u hp hu => ?_) rfl (by simp)
      (by simp [ht])
    have hne : u ≠ t := fun heq => hu (heq ▸ hc)
    simp [Engine.setPhase,Engine.unlockAll,Engine.setDurable,hp,hne]

theorem Began.held (h : Began base e) : Held base e := by
  obtain ⟨d,free,hm,rfl,rfl⟩ := h
  have hnone : ∀ r, r ∉ (Engine.start ⟨d,.empty⟩ (nextTransactionId [])).log := by
    simp [Engine.log,Engine.start,LogManager.empty]
  refine ⟨Fresh.logOk ⟨d,free,hm,rfl⟩,⟨?_,?_,?_⟩,?_,?_,⟨free,hm⟩,?_,?_,?_,?_,?_,?_,?_⟩
  · exact fun a r b s c he => absurd (by rw [he]; simp) (hnone r)
  · exact fun a r b he => absurd (by rw [he]; simp) (hnone r)
  · exact fun a c b he => absurd (by rw [he]; simp) (hnone c)
  · exact fun r hr => absurd hr (hnone r)
  · exact fun r hr => absurd hr (hnone r)
  · exact fun r hr => absurd hr (hnone r)
  · exact fun r hr => absurd hr (hnone r)
  · exact fun p => rfl
  · simp [Engine.start]
  · exact fun p _ => rfl
  · simp [Engine.start]
  · exact fun v hv hd p hp => rfl

end steps

end Recovery
end OurSql
