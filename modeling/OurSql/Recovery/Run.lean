import OurSql.Recovery.Effect

/-! A run of `Recover`: it does the redo and the undo actions of the log in order and
appends compensation records and then Abort records; cut off, it has done a part. -/
namespace OurSql
namespace Recovery

open Crash Storage

theorem WellFormed.of_append {w z : List LogRecord} (h : WellFormed (w ++ z)) : WellFormed w where
  linked := h.linked.of_append
  encoded r hr := h.encoded r (by simp [hr])
  finished := h.finished.of_append
  compensated before c after he hc := h.compensated before c (after ++ z) (by simp [he]) hc

/-- `xs` is what recoveries of `w` have appended to it. -/
structure Later (w xs : List LogRecord) : Prop where
  wellFormed : WellFormed (w ++ xs)
  kinds : ∀ x ∈ xs, x.type = .compensation ∨ x.type = .abort
  losers : ∀ x ∈ xs, Unfinished w x.txnId

theorem later_nil {w : List LogRecord} (h : WellFormed w) : Later w [] :=
  ⟨by simpa using h,by simp,by simp⟩

theorem Later.of_append {w xs ys : List LogRecord} (h : Later w (xs ++ ys)) : Later w xs :=
  ⟨WellFormed.of_append (z := ys) (by simpa using h.wellFormed),fun x hx => h.kinds x (by simp [hx]),
    fun x hx => h.losers x (by simp [hx])⟩

/-- `d'` is `d` after some of the actions, the last of them perhaps half done. -/
def Partway (d : DiskManager) (acts : List Act) (d' : DiskManager) : Prop :=
  ∃ done, done <+: acts ∧
    (d' = applyAll d done ∨ ∃ a, done ++ [a] <+: acts ∧ d' = a.midway (applyAll d done))

/-- `s` is open and holds a well-formed log whose actions stay within the file. -/
structure Ready (s : Store) : Prop where
  wellFormed : WellFormed s.log.records
  isOpen : s.disk.isOpen = true
  bound : s.disk.pageCount ≤ 4294967295
  inFile : InFile s.disk (recoverActs s.log.records)

structure Recovered (s : Store) (xs : List LogRecord) (t : Store) : Prop where
  log : t.log.records = s.log.records ++ xs
  later : Later s.log.records xs
  ended : ∀ u, Unfinished s.log.records u → Ended t.log.records u
  durable : t.log.appendLsn ≤ t.log.durableLsn
  kept : s.log.durableLsn ≤ t.log.durableLsn
  disk : t.disk = applyAll s.disk (recoverActs s.log.records)

structure Interrupted (s : Store) (xs : List LogRecord) (t : Store) : Prop where
  log : t.log.records = s.log.records ++ xs
  later : Later s.log.records xs
  durable : s.log.durableLsn ≤ t.log.durableLsn
  disk : Partway s.disk (recoverActs s.log.records) t.disk
  aborted : ∀ x ∈ xs, x.type = .abort → t.disk = applyAll s.disk (recoverActs s.log.records)

section stack

variable {v : List LogRecord} {loser : TxnId → Bool} {o : List LogRecord} {r c : LogRecord}

theorem undoStack_top {t : TxnId} {x : LogRecord} {rest : List LogRecord} (hl : Linked v)
    (h : undoStack v t = x :: rest) (hr : r ∈ undoStack v t) : r = x ∨ r.lsn < x.lsn := by
  have hsplit : undoStack v t = [] ++ x :: rest := h
  obtain ⟨a,b,rfl,ha⟩ := undoStack_split hsplit
  rw [h] at hr
  rcases List.mem_cons.mp hr with hr | hr
  · exact .inl hr
  · exact .inr (hl.lt (mem_undoStack (ha ▸ hr)).1)

theorem mem_openRecords (hl : Linked v) (hr : r ∈ openRecords l v) :
    r ∈ v ∧ l r.txnId = true ∧ r ∈ undoStack v r.txnId := by
  obtain ⟨hv,hrem⟩ := List.mem_filter.mp hr
  simp only [remains,Bool.and_eq_true,List.any_eq_true,decide_eq_true_eq] at hrem
  obtain ⟨ht,s,hs,hsl⟩ := hrem
  have hsr : s = r := eq_of_lsn_eq hl (mem_undoStack hs).1 hv hsl
  exact ⟨hv,ht,hsr ▸ hs⟩

theorem openRecords_of_stack (ht : loser r.txnId = true) (hr : r ∈ undoStack v r.txnId) :
    r ∈ openRecords loser v := by
  refine List.mem_filter.mpr ⟨(mem_undoStack hr).1,?_⟩
  simp only [remains,ht,Bool.true_and,List.any_eq_true,decide_eq_true_eq]
  exact ⟨r,hr,rfl⟩

theorem openRecords_lt (hl : Linked v) (h : openRecords loser v = o ++ [r]) :
    ∀ y ∈ o, y.lsn < r.lsn := by
  intro y hy
  have hinc : (openRecords loser v).Pairwise fun x y => x.lsn < y.lsn := hl.increasing.filter _
  rw [h] at hinc
  exact (List.pairwise_append.mp hinc).2.2 y hy r (by simp)

/-- The last open record is what its transaction has to undo next. -/
theorem openRecords_last (hl : Linked v) (h : openRecords loser v = o ++ [r]) :
    ∃ rest, undoStack v r.txnId = r :: rest := by
  have hmem : r ∈ openRecords loser v := by simp [h]
  obtain ⟨-,ht,hr⟩ := mem_openRecords hl hmem
  cases hs : undoStack v r.txnId with
  | nil => simp [hs] at hr
  | cons x rest =>
    rcases undoStack_top hl hs hr with rfl | hlt
    · exact ⟨rest,rfl⟩
    · have hx : x ∈ undoStack v r.txnId := by simp [hs]
      have hxt : x.txnId = r.txnId := (mem_undoStack hx).2.1
      have hopen : x ∈ openRecords loser v := openRecords_of_stack (hxt ▸ ht) (hxt ▸ hx)
      rw [h] at hopen
      rcases List.mem_append.mp hopen with hxo | hxr
      · exact absurd (openRecords_lt hl h x hxo) (not_lt.mpr (le_of_lt hlt))
      · rw [List.mem_singleton.mp hxr] at hlt
        exact absurd hlt (lt_irrefl _)

/-- A compensation record of the last open record closes it. -/
theorem openRecords_compensate (hl : Linked v) (h : openRecords loser v = o ++ [r])
    (hc : c.type = .compensation) (ht : c.txnId = r.txnId) (hlsn : appendLsnOf v < c.lsn) :
    openRecords loser (v ++ [c]) = o := by
  obtain ⟨rest,hs⟩ := openRecords_last hl h
  have hstack : undoStack (v ++ [c]) r.txnId = rest := by
    rw [undoStack_append,← ht,pushUndo_compensation hc,ht,hs,List.tail_cons]
  have hrest : ∀ x ∈ rest, x.lsn < r.lsn := by
    intro x hx
    obtain ⟨a,b,rfl,ha⟩ := undoStack_split (A := []) hs
    exact hl.lt (mem_undoStack (ha ▸ hx)).1
  have hother : ∀ u, u ≠ r.txnId → undoStack (v ++ [c]) u = undoStack v u := by
    intro u hu
    rw [undoStack_append,pushUndo_other]
    exact fun hcu => hu (hcu.symm.trans ht)
  have hself : remains loser (undoStack (v ++ [c])) c = false := by
    simp only [remains,Bool.and_eq_false_iff,List.any_eq_false,decide_eq_true_eq]
    refine .inr fun x hx hxc => ?_
    rw [ht,hstack] at hx
    have hxv : x ∈ v := (mem_undoStack (t := r.txnId) (by rw [hs]; simp [hx])).1
    exact absurd (le_appendLsnOf hxv) (not_le.mpr (hxc ▸ hlsn))
  have hfilter : ∀ y ∈ v, remains loser (undoStack (v ++ [c])) y =
      (decide (y.lsn ≠ r.lsn) && remains loser (undoStack v) y) := by
    intro y hy
    by_cases hyt : y.txnId = r.txnId
    · simp only [remains,hyt,hstack,hs,List.any_cons]
      by_cases hyr : y.lsn = r.lsn
      · have hnone : rest.any (fun x => decide (x.lsn = y.lsn)) = false := by
          simp only [List.any_eq_false,decide_eq_true_eq]
          exact fun x hx => hyr ▸ Nat.ne_of_lt (hrest x hx)
        simp [hyr] at hnone ⊢
        exact fun _ => hnone
      · have hry : ¬r.lsn = y.lsn := fun hc => hyr hc.symm
        simp [hyr,hry]
    · have hne : y.lsn ≠ r.lsn := by
        intro hc
        have hrv : r ∈ v := (mem_openRecords (l := loser) hl (by simp [h])).1
        exact hyt (congrArg LogRecord.txnId (eq_of_lsn_eq hl hy hrv hc))
      simp [remains,hother _ hyt,hne]
  unfold openRecords
  rw [List.filter_append,List.filter_cons_of_neg (by simp [hself]),List.filter_nil,List.append_nil,
    List.filter_congr hfilter,← List.filter_filter]
  change (openRecords loser v).filter _ = o
  rw [h,List.filter_append,List.filter_cons_of_neg (by simp),List.filter_nil,List.append_nil]
  exact List.filter_eq_self.mpr fun y hy => by simpa using Nat.ne_of_lt (openRecords_lt hl h y hy)

end stack

theorem ended_append_list {w xs : List LogRecord} {t : TxnId} :
    Ended (w ++ xs) t ↔ Ended w t ∨ Ended xs t := by
  constructor
  · rintro ⟨e,he,hterm⟩
    rcases List.mem_append.mp he with he | he
    · exact .inl ⟨e,he,hterm⟩
    · exact .inr ⟨e,he,hterm⟩
  · rintro (⟨e,he,hterm⟩ | ⟨e,he,hterm⟩)
    · exact ⟨e,by simp [he],hterm⟩
    · exact ⟨e,by simp [he],hterm⟩

/-- The state of the undo pass before it undoes `rs`. -/
structure Undoing (s : Store) (xs rs : List LogRecord) (pr : Progress) (t : Store) : Prop where
  log : t.log.records = s.log.records ++ xs
  later : Later s.log.records xs
  compensations : ∀ x ∈ xs, x.type = .compensation
  remaining : openRecords (isLoser (analyze s.log.records)) t.log.records = rs.reverse
  last : ∀ u, Unfinished s.log.records u → pr.lastLsn u = lastLsnOf t.log.records u
  recoveryLast : pr.recoveryLastLsn ≤ t.log.appendLsn
  durable : t.log.durableLsn = s.log.durableLsn
  disk : ∃ done, done ++ rs.filterMap undoAct = recoverActs s.log.records ∧
    t.disk = applyAll s.disk done

/-- The state of recovery before it appends the Abort records of `ts`. -/
structure Aborting (s : Store) (xs : List LogRecord) (pr : Progress) (ts : List TxnId) (last : Lsn)
    (t : Store) : Prop where
  log : t.log.records = s.log.records ++ xs
  later : Later s.log.records xs
  nodup : ts.Nodup
  losers : ∀ u, Unfinished s.log.records u → u ∈ ts ∨ Ended t.log.records u
  waiting : ∀ u ∈ ts, Unfinished s.log.records u ∧ ¬Ended t.log.records u ∧
    pr.lastLsn u = lastLsnOf t.log.records u
  last : last ≤ t.log.appendLsn
  durable : t.log.durableLsn = s.log.durableLsn
  disk : t.disk = applyAll s.disk (recoverActs s.log.records)

section run

variable {s t : Store} {xs rs : List LogRecord} {pr : Progress} {r : LogRecord}

theorem Later.not_ended {w : List LogRecord} (hx : ∀ x ∈ xs, x.type = .compensation) {u : TxnId}
    (hu : ¬Ended w u) : ¬Ended (w ++ xs) u := by
  rw [ended_append_list,not_or]
  refine ⟨hu,?_⟩
  rintro ⟨e,he,-,hterm⟩
  simp [isTerminal,hx e he] at hterm

theorem Undoing.interrupted (h : Undoing s xs rs pr t) : Interrupted s xs t where
  log := h.log
  later := h.later
  durable := ge_of_eq h.durable
  disk := by
    obtain ⟨done,hdone,hdisk⟩ := h.disk
    exact ⟨done,hdone ▸ List.prefix_append _ _,.inl hdisk⟩
  aborted x hx ha := by
    rw [h.compensations x hx] at ha
    cases ha

theorem Undoing.next (h : Undoing s xs (r::rs) pr t) :
    Unfinished s.log.records r.txnId ∧ encodeCheck r = .ok () ∧ isUndoable r = true ∧
      ∃ rest, undoStack t.log.records r.txnId = r :: rest := by
  have hwf : WellFormed t.log.records := h.log ▸ h.later.wellFormed
  have hrem : openRecords (isLoser (analyze s.log.records)) t.log.records = rs.reverse ++ [r] := by
    rw [h.remaining,List.reverse_cons]
  obtain ⟨hr,hl,hs⟩ := mem_openRecords (r := r) hwf.linked (by rw [hrem]; simp)
  have hwf' : WellFormed s.log.records := h.later.wellFormed.of_append
  exact ⟨(isLoser_iff _).mp hl,hwf.encoded r hr,(mem_undoStack hs).2.2,
    openRecords_last hwf.linked hrem⟩

/-- The compensation record of the next record to undo, as it stands in the log. -/
def clrOf (pr : Progress) (r : LogRecord) (t : Store) : LogRecord :=
  { compensationOf pr r with lsn := t.log.appendLsn + 1 }

theorem Undoing.push (h : Undoing s xs (r::rs) pr t) : Later s.log.records (xs ++ [clrOf pr r t]) := by
  obtain ⟨hu,henc,hundo,rest,hs⟩ := h.next
  refine ⟨?_,?_,?_⟩
  · rw [← List.append_assoc,← h.log]
    refine WellFormed.append (h.log ▸ h.later.wellFormed) (Nat.lt_succ_self _) hu.1 (h.last _ hu)
      (encoded_compensationOf henc hundo pr) ?_ fun _ => ⟨r,rest,hs,rfl,rfl,rfl,rfl⟩
    rw [h.log]
    exact Later.not_ended h.compensations hu.2.2
  · intro x hx
    rcases List.mem_append.mp hx with hx | hx
    · exact h.later.kinds x hx
    · exact .inl (by rw [List.mem_singleton.mp hx]; rfl)
  · intro x hx
    rcases List.mem_append.mp hx with hx | hx
    · exact h.later.losers x hx
    · rw [List.mem_singleton.mp hx]
      exact hu

/-- One turn of the undo pass. -/
theorem Undoing.step (h : Undoing s xs (r::rs) pr t) {d : DiskManager}
    (hd : ∀ done, t.disk = applyAll s.disk done → d = applyAll s.disk (done ++ (undoAct r).toList)) :
    Undoing s (xs ++ [clrOf pr r t]) rs (pr.advance r.txnId (t.log.appendLsn+1))
      ((t.push (compensationOf pr r)).mapDisk fun _ => d) := by
  have hwf : WellFormed t.log.records := h.log ▸ h.later.wellFormed
  have hrem : openRecords (isLoser (analyze s.log.records)) t.log.records = rs.reverse ++ [r] := by
    rw [h.remaining,List.reverse_cons]
  have hlog : ((t.push (compensationOf pr r)).mapDisk fun _ => d).log.records =
      t.log.records ++ [clrOf pr r t] := rfl
  have hlsn : (clrOf pr r t).lsn = t.log.appendLsn + 1 := rfl
  have happend : appendLsnOf (t.log.records ++ [clrOf pr r t]) = t.log.appendLsn + 1 := by
    rw [appendLsnOf_append,hlsn]
    exact max_eq_right (Nat.le_succ _)
  refine ⟨by rw [hlog,h.log,List.append_assoc],h.push,?_,?_,?_,?_,h.durable,?_⟩
  · intro x hx
    rcases List.mem_append.mp hx with hx | hx
    · exact h.compensations x hx
    · rw [List.mem_singleton.mp hx]
      rfl
  · rw [hlog]
    exact openRecords_compensate hwf.linked hrem rfl rfl (Nat.lt_succ_self _)
  · intro u hu
    rw [hlog,lastLsnOf_append]
    have hle : lastLsnOf t.log.records r.txnId ≤ t.log.appendLsn := lastLsnOf_le_appendLsnOf _ _
    by_cases hur : u = r.txnId
    · have htxn : (clrOf pr r t).txnId = u := hur.symm
      rw [if_pos htxn,hur,hlsn,max_eq_right (Nat.le_succ_of_le hle)]
      simp [Progress.advance]
    · have htxn : (clrOf pr r t).txnId ≠ u := fun hc => hur hc.symm
      rw [if_neg htxn]
      simpa [Progress.advance,hur] using h.last u hu
  · change max pr.recoveryLastLsn (t.log.appendLsn+1) ≤ appendLsnOf (t.log.records ++ [clrOf pr r t])
    rw [happend]
    exact max_le (Nat.le_succ_of_le h.recoveryLast) le_rfl
  · obtain ⟨done,hdone,hdisk⟩ := h.disk
    refine ⟨done ++ (undoAct r).toList,?_,hd done hdisk⟩
    rw [← hdone]
    cases ha : undoAct r <;> simp [ha]

theorem Recovered.interrupted (h : Recovered s xs t) : Interrupted s xs t where
  log := h.log
  later := h.later
  durable := h.kept
  disk := ⟨recoverActs s.log.records,List.prefix_rfl,.inl h.disk⟩
  aborted _ _ _ := h.disk

theorem Aborting.interrupted {ts : List TxnId} {last : Lsn} (h : Aborting s xs pr ts last t) :
    Interrupted s xs t where
  log := h.log
  later := h.later
  durable := ge_of_eq h.durable
  disk := ⟨recoverActs s.log.records,List.prefix_rfl,.inl h.disk⟩
  aborted _ _ _ := h.disk

theorem Aborting.step {u : TxnId} {ts : List TxnId} {last : Lsn}
    (h : Aborting s xs pr (u::ts) last t) :
    Aborting s (xs ++ [{ abortOf pr u with lsn := t.log.appendLsn + 1 }]) pr ts
      (max last (t.log.appendLsn+1)) (t.push (abortOf pr u)) := by
  obtain ⟨hu,hopen,hlast⟩ := h.waiting u (by simp)
  have hnodup := List.nodup_cons.mp h.nodup
  have hlog : (t.push (abortOf pr u)).log.records =
      t.log.records ++ [{ abortOf pr u with lsn := t.log.appendLsn + 1 }] := rfl
  refine ⟨by rw [hlog,h.log,List.append_assoc],⟨?_,?_,?_⟩,hnodup.2,?_,?_,?_,h.durable,h.disk⟩
  · rw [← List.append_assoc,← h.log]
    refine WellFormed.append (h.log ▸ h.later.wellFormed) (Nat.lt_succ_self _) hu.1 hlast rfl hopen ?_
    intro hc
    cases hc
  · intro x hx
    rcases List.mem_append.mp hx with hx | hx
    · exact h.later.kinds x hx
    · exact .inr (by rw [List.mem_singleton.mp hx]; rfl)
  · intro x hx
    rcases List.mem_append.mp hx with hx | hx
    · exact h.later.losers x hx
    · rw [List.mem_singleton.mp hx]
      exact hu
  · intro v hv
    rw [hlog,ended_append]
    rcases h.losers v hv with hvt | hvt
    · rcases List.mem_cons.mp hvt with rfl | hvt
      · exact .inr (.inr ⟨rfl,rfl⟩)
      · exact .inl hvt
    · exact .inr (.inl hvt)
  · intro v hv
    obtain ⟨hvu,hvo,hvl⟩ := h.waiting v (by simp [hv])
    have hne : u ≠ v := fun hc => hnodup.1 (hc ▸ hv)
    refine ⟨hvu,?_,?_⟩
    · rw [hlog,ended_append]
      exact fun hc => hc.elim hvo fun hc => hne hc.1
    · rw [hlog,lastLsnOf_append,if_neg]
      · exact hvl
      · exact hne
  · change _ ≤ appendLsnOf (t.log.records ++ [_])
    rw [appendLsnOf_append]
    exact max_le (le_trans h.last (le_max_left _ _)) (le_max_right _ _)

/-- The actions of a run of `Recover`, to its end or to a power failure. -/
theorem spec_recover_ready {order : List TxnId → List TxnId} (hs : Ready s) (ho : IsOrder order) :
    Spec (· = s) (recover order) (fun res t => res = .ok () ∧ ∃ xs, Recovered s xs t)
      (fun t => ∃ xs, Interrupted s xs t) := by
  have hfits : ∀ (u : Store) (done : List Act) (a : Act), u.disk = applyAll s.disk done →
      a ∈ recoverActs s.log.records → Fits u.disk a := by
    intro u done a hu ha
    refine ⟨?_,?_,?_⟩
    · rw [hu,applyAll_isOpen]
      exact hs.isOpen
    · rw [hu,applyAll_pageCount]
      exact hs.bound
    · rw [hu,applyAll_pageCount]
      exact hs.inFile a ha
  let Jr : List LogRecord → Store → Prop := fun rs t => ∃ before, s.log.records = before ++ rs ∧
    t.log = s.log ∧ t.disk = applyAll s.disk (before.filterMap (redoAct (analyze s.log.records)))
  have hredoing : ∀ rs t, Jr rs t → ∃ xs, Interrupted s xs t := by
    rintro rs t ⟨before,hbefore,hlog,hdisk⟩
    refine ⟨[],by simp [hlog],later_nil hs.wellFormed,by rw [hlog],⟨_,?_,.inl hdisk⟩,by simp⟩
    rw [recoverActs,redoActs]
    nth_rewrite 3 [hbefore]
    rw [List.filterMap_append,List.append_assoc]
    exact List.prefix_append _ _
  refine spec_recover (Jr) (fun rs pr t => ∃ xs, Undoing s xs rs pr t)
    (fun pr ts last t => ∃ xs, Aborting s xs pr ts last t) ho hs.wellFormed ?_ ?_ ?_
    ⟨[],rfl,rfl,rfl⟩ ?_ ?_ ?_
  · intro t ht
    refine spec_redo Jr hredoing ?_ ht
    rintro r rs u ⟨before,hbefore,hlog,hdisk⟩
    have hr : r ∈ s.log.records := by simp [hbefore]
    have happend : s.log.records = (before ++ [r]) ++ rs := by simp [hbefore]
    refine ⟨hs.wellFormed.encoded r hr,fun hnone => ?_,fun a ha => ?_⟩
    · exact ⟨before ++ [r],happend,hlog,by simp [hnone,hdisk]⟩
    have hmem : a ∈ recoverActs s.log.records := by
      refine List.mem_append_left _ (List.mem_filterMap.mpr ⟨r,hr,ha⟩)
    have hnext : Jr rs (u.mapDisk fun d => a.apply d) := by
      refine ⟨before ++ [r],happend,hlog,?_⟩
      change a.apply u.disk = _
      rw [hdisk,← applyAll_append]
      simp [ha]
    refine ⟨hfits u _ a hdisk hmem,?_,hnext⟩
    refine ⟨[],by simp [Store.mapDisk,hlog],later_nil hs.wellFormed,by rw [← hlog]; exact le_rfl,?_,
      by simp⟩
    refine ⟨before.filterMap (redoAct (analyze s.log.records)),?_,.inr ⟨a,?_,?_⟩⟩
    · rw [recoverActs,redoActs]
      nth_rewrite 3 [hbefore]
      rw [List.filterMap_append,List.append_assoc]
      exact List.prefix_append _ _
    · rw [recoverActs,redoActs]
      nth_rewrite 3 [happend]
      rw [List.filterMap_append,List.append_assoc,List.filterMap_append,List.filterMap_cons,ha]
      exact List.prefix_append _ _
    · change a.midway u.disk = _
      rw [hdisk]
  · intro pr t ht
    refine spec_undoAll (fun rs pr t => ∃ xs, Undoing s xs rs pr t)
      (fun _ _ _ h => h.imp fun _ h => h.interrupted) ?_ ht
    rintro r rs pr t ⟨xs,h⟩
    obtain ⟨hu,henc,hundo,-⟩ := h.next
    obtain ⟨done,hdone,hdisk⟩ := h.disk
    have hlog : (t.push (compensationOf pr r)).log.records = s.log.records ++ (xs ++ [clrOf pr r t]) := by
      rw [← List.append_assoc,← h.log]
      rfl
    -- between the append of the record and the end of its action
    have hmid : ∀ d, Partway s.disk (recoverActs s.log.records) d →
        Interrupted s (xs ++ [clrOf pr r t]) ((t.push (compensationOf pr r)).mapDisk fun _ => d) := by
      intro d hd
      refine ⟨hlog,h.push,ge_of_eq h.durable,hd,fun x hx ha => ?_⟩
      rcases List.mem_append.mp hx with hx | hx
      · rw [h.compensations x hx] at ha
        cases ha
      · rw [List.mem_singleton.mp hx] at ha
        cases ha
    have hpre : done <+: recoverActs s.log.records := hdone ▸ List.prefix_append _ _
    refine ⟨henc,hundo,⟨_,hmid t.disk ⟨done,hpre,.inl hdisk⟩⟩,fun hnone => ?_,fun a ha => ?_⟩
    · refine ⟨_,h.step (d := t.disk) fun done' hd' => ?_⟩
      rw [hd',hnone]
      simp
    have hcons : done ++ [a] <+: recoverActs s.log.records := by
      rw [← hdone,List.filterMap_cons,ha]
      exact ⟨rs.filterMap undoAct,by simp⟩
    refine ⟨hfits t done a hdisk (hcons.subset (by simp)),
      ⟨_,hmid (a.midway t.disk) ⟨done,hpre,.inr ⟨a,hcons,by rw [hdisk]⟩⟩⟩,
      ⟨_,h.step (d := a.apply t.disk) fun done' hd' => ?_⟩⟩
    rw [hd',ha,Option.toList_some,applyAll_append]
  · intro pr last t ht
    refine spec_appendAborts (fun ts last t => ∃ xs, Aborting s xs pr ts last t)
      (fun _ _ _ h => h.imp fun _ h => h.interrupted) (fun u ts last t h => ?_) ht
    obtain ⟨xs,h⟩ := h
    exact ⟨_,h.step⟩
  · rintro t ⟨before,hbefore,hlog,hdisk⟩
    have hall : s.log.records = before := by simpa using hbefore
    refine ⟨[],by simp [hlog],later_nil hs.wellFormed,by simp,by rw [hlog,List.reverse_reverse],?_,
      Nat.zero_le _,by rw [hlog],_,rfl,?_⟩
    · intro u hu
      rw [hlog]
      exact analyze_lastLsn hu
    · rw [hdisk,← hall]
      rfl
  · rintro pr t ⟨xs,h⟩
    obtain ⟨done,hdone,hdisk⟩ := h.disk
    have hlosers := fun u => mem_losersOf (w := s.log.records) (t := u) ho
    refine ⟨xs,h.log,h.later,losersOf_nodup ho,?_,?_,h.recoveryLast,h.durable,?_⟩
    · intro u hu
      exact .inl ((hlosers u).mpr ((isLoser_iff u).mpr hu))
    · intro u hu
      have hu' := (isLoser_iff u).mp ((hlosers u).mp hu)
      refine ⟨hu',?_,h.last u hu'⟩
      rw [h.log]
      exact Later.not_ended h.compensations hu'.2.2
    · rw [hdisk,← hdone]
      simp
  · rintro pr last t ⟨xs,h⟩
    refine ⟨⟨xs,h.interrupted⟩,h.last,xs,h.log,h.later,fun u hu => ?_,le_max_right _ _,?_,h.disk⟩
    · exact (h.losers u hu).elim (fun hc => by cases hc) id
    · exact le_trans (ge_of_eq h.durable) (le_max_left _ _)

theorem recover_run {order : List TxnId → List TxnId} (hs : Ready s) (ho : IsOrder order) :
    ∃ xs t, (recover order).run s = (some (.ok ()),t) ∧ Recovered s xs t := by
  obtain ⟨res,t,hrun,rfl,xs,h⟩ := (spec_recover_ready hs ho).run rfl
  exact ⟨xs,t,hrun,h⟩

theorem recover_cut {order : List TxnId → List TxnId} (hs : Ready s) (ho : IsOrder order) (n : ℕ) :
    ∃ xs, Interrupted s xs ((recover order).cut n s).2 := by
  rcases (spec_recover_ready hs ho).cut rfl n with ⟨res,t,hrun,-,xs,h⟩ | ⟨t,hrun,xs,h⟩
  · rw [hrun]
    exact ⟨xs,h.interrupted⟩
  · rw [hrun]
    exact ⟨xs,h⟩

end run

end Recovery
end OurSql
