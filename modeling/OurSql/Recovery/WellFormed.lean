import OurSql.Recovery.Outcome

/-! Logs as the system writes them. The actions a transaction has still to undo form
a stack: a page record pushes itself, a compensation record takes the top away. -/
namespace OurSql
namespace Recovery

open Storage

def pushUndo (t : TxnId) (stack : List LogRecord) (r : LogRecord) : List LogRecord :=
  if r.txnId ≠ t then stack
  else if r.type = .compensation then stack.tail
  else if isUndoable r then r :: stack
  else stack

/-- What `t` has done and not compensated, the latest action first. -/
def undoStack (w : List LogRecord) (t : TxnId) : List LogRecord := w.foldl (pushUndo t) []

/-- `c` records the undo of `r`. -/
structure Compensates (c r : LogRecord) : Prop where
  pageId : c.pageId = r.pageId
  undoNextLsn : c.undoNextLsn = r.prevLsn
  kind : c.compensationType = r.type
  image : c.afterImage = if r.type = .pageUpdate then r.beforeImage else none

/-- Compensation records undo the actions of their transaction from the latest back. -/
def Compensated (w : List LogRecord) : Prop :=
  ∀ before c after, w = before ++ c :: after → c.type = .compensation →
    ∃ r rest, undoStack before c.txnId = r :: rest ∧ Compensates c r

/-- A log that the system can have written, as far as one transaction is concerned. -/
structure WellFormed (w : List LogRecord) : Prop where
  linked : Linked w
  encoded : ∀ r ∈ w, encodeCheck r = .ok ()
  finished : Finished w
  compensated : Compensated w

theorem undoStack_append (w : List LogRecord) (r : LogRecord) (t : TxnId) :
    undoStack (w ++ [r]) t = pushUndo t (undoStack w t) r := by
  simp [undoStack]

theorem pushUndo_other {t : TxnId} {stack : List LogRecord} {r : LogRecord} (h : r.txnId ≠ t) :
    pushUndo t stack r = stack := if_pos h

theorem pushUndo_compensation {stack : List LogRecord} {r : LogRecord} (h : r.type = .compensation) :
    pushUndo r.txnId stack r = stack.tail := by
  simp [pushUndo,h]

theorem not_compensation_of_undoable {r : LogRecord} (h : isUndoable r = true) :
    r.type ≠ .compensation := by
  intro hc
  simp [isUndoable,hc] at h

theorem pushUndo_undoable {stack : List LogRecord} {r : LogRecord} (h : isUndoable r = true) :
    pushUndo r.txnId stack r = r :: stack := by
  simp [pushUndo,not_compensation_of_undoable h,h]

theorem pushUndo_neutral {stack : List LogRecord} {r : LogRecord} (hc : r.type ≠ .compensation)
    (hu : isUndoable r = false) : pushUndo r.txnId stack r = stack := by
  simp [pushUndo,hc,hu]

theorem mem_undoStack {w : List LogRecord} {t : TxnId} {r : LogRecord} (h : r ∈ undoStack w t) :
    r ∈ w ∧ r.txnId = t ∧ isUndoable r = true := by
  induction w using List.reverseRecOn with
  | nil => simp [undoStack] at h
  | append_singleton w x ih =>
    have hold : r ∈ undoStack w t → r ∈ w ++ [x] ∧ r.txnId = t ∧ isUndoable r = true := by
      intro hr
      obtain ⟨hw,ht,hu⟩ := ih hr
      exact ⟨by simp [hw],ht,hu⟩
    rw [undoStack_append,pushUndo] at h
    split at h
    · exact hold h
    rename_i hx
    split at h
    · exact hold (List.mem_of_mem_tail h)
    split at h
    · rename_i hu
      rcases List.mem_cons.mp h with rfl | h
      · exact ⟨by simp,by simpa using hx,hu⟩
      · exact hold h
    · exact hold h

/-- Below an entry lies the stack of the moment it was pushed. -/
theorem undoStack_split {w : List LogRecord} {t : TxnId} {A rest : List LogRecord}
    {r : LogRecord} (h : undoStack w t = A ++ r :: rest) :
    ∃ a b, w = a ++ r :: b ∧ undoStack a t = rest := by
  induction w using List.reverseRecOn generalizing A r rest with
  | nil => simp [undoStack] at h
  | append_singleton w x ih =>
    have hold : ∀ ys, undoStack w t = ys ++ r :: rest →
        ∃ a b, w ++ [x] = a ++ r :: b ∧ undoStack a t = rest := by
      intro ys hy
      obtain ⟨a,b,rfl,ha⟩ := ih hy
      exact ⟨a,b ++ [x],by simp,ha⟩
    rw [undoStack_append,pushUndo] at h
    split at h
    · exact hold A h
    split at h
    · cases hs : undoStack w t with
      | nil => simp [hs] at h
      | cons y ys =>
        rw [hs,List.tail_cons] at h
        exact hold (y :: A) (by rw [hs,h]; rfl)
    split at h
    · cases A with
      | nil =>
        obtain ⟨rfl,rfl⟩ : x = r ∧ undoStack w t = rest := by simpa using h
        exact ⟨w,[],rfl,rfl⟩
      | cons y ys =>
        obtain ⟨-,hy⟩ : x = y ∧ undoStack w t = ys ++ r :: rest := by simpa using h
        exact hold ys hy
    · exact hold A h

/-- Where a split of `w ++ [r]` falls. -/
theorem split_append {w before after : List LogRecord} {r e : LogRecord}
    (h : w ++ [r] = before ++ e :: after) :
    (∃ rest, after = rest ++ [r] ∧ w = before ++ e :: rest) ∨ (before = w ∧ e = r ∧ after = []) := by
  induction after using List.reverseRecOn with
  | nil =>
    obtain ⟨hw,he⟩ := List.append_inj' h rfl
    exact .inr ⟨hw.symm,(List.singleton_inj.mp he).symm,rfl⟩
  | append_singleton after x _ =>
    have hsplit : w ++ [r] = (before ++ e :: after) ++ [x] := by simpa using h
    obtain ⟨hw,hx⟩ := List.append_inj' hsplit rfl
    exact .inl ⟨after,by rw [List.singleton_inj.mp hx],hw⟩

/-- A well-formed log grows by records of transactions that have not ended. -/
theorem WellFormed.append {w : List LogRecord} {r : LogRecord} (h : WellFormed w)
    (hlsn : appendLsnOf w < r.lsn) (hid : r.txnId ≠ invalidTxnId)
    (hprev : r.prevLsn = lastLsnOf w r.txnId) (henc : encodeCheck r = .ok ())
    (hopen : ¬Ended w r.txnId)
    (hcomp : r.type = .compensation → ∃ x rest, undoStack w r.txnId = x :: rest ∧ Compensates r x) :
    WellFormed (w ++ [r]) where
  linked := h.linked.append hlsn (fun _ => hprev) fun hz => absurd hz hid
  encoded s hs := by
    rcases List.mem_append.mp hs with hs | hs
    · exact h.encoded s hs
    · exact List.mem_singleton.mp hs ▸ henc
  finished before e after he hterm hidE s hs := by
    rcases split_append he with ⟨rest,rfl,hw⟩ | ⟨-,-,rfl⟩
    · rcases List.mem_append.mp hs with hs | hs
      · exact h.finished before e rest hw hterm hidE s hs
      · rw [List.mem_singleton.mp hs]
        exact fun hr => hopen ⟨e,by simp [hw],hr.symm,hterm⟩
    · cases hs
  compensated before c after he hc := by
    rcases split_append he with ⟨rest,-,hw⟩ | ⟨rfl,rfl,-⟩
    · exact h.compensated before c rest hw hc
    · exact hcomp hc

theorem wellFormed_nil : WellFormed [] where
  linked := ⟨by simp,by simp,by simp,by simp⟩
  encoded := by simp
  finished := by intro a e b h; simp at h
  compensated := by intro a c b h; simp at h

/-- A position that the undo of `t` can have come to: the record numbered `l` is the
next to look at, and `stack` is what is left to undo. -/
def Leads (w : List LogRecord) (t : TxnId) (l : Lsn) (stack : List LogRecord) : Prop :=
  ∃ a b, w = a ++ b ∧ lastLsnOf a t = l ∧ undoStack a t = stack

theorem leads_start (w : List LogRecord) (t : TxnId) : Leads w t (lastLsnOf w t) (undoStack w t) :=
  ⟨w,[],by simp,rfl,rfl⟩

theorem Leads.mem {w : List LogRecord} {t : TxnId} {l : Lsn} {stack : List LogRecord}
    (h : Leads w t l stack) {r : LogRecord} (hr : r ∈ stack) :
    r ∈ w ∧ r.txnId = t ∧ isUndoable r = true ∧ r.lsn ≤ l := by
  obtain ⟨a,b,rfl,rfl,rfl⟩ := h
  obtain ⟨ha,ht,hu⟩ := mem_undoStack hr
  exact ⟨by simp [ha],ht,hu,le_appendLsnOf (by simp [ha,ht])⟩

theorem Leads.nil {w : List LogRecord} (hl : Linked w) {t : TxnId} {stack : List LogRecord}
    (h : Leads w t invalidLsn stack) : stack = [] := by
  cases stack with
  | nil => rfl
  | cons r stack =>
    obtain ⟨hw,-,-,hle⟩ := h.mem (List.mem_cons_self ..)
    exact absurd hle (not_le.mpr (hl.positive r hw))

/-- One turn of the undo of `t`, by the kind of the record it looks at. -/
theorem Leads.turn {w : List LogRecord} (hl : Linked w) (hc : Compensated w) {t : TxnId}
    (ht : t ≠ invalidTxnId) {l : Lsn} {stack : List LogRecord} (h : Leads w t l stack)
    (hne : l ≠ invalidLsn) :
    ∃ b r c, w = b ++ r :: c ∧ r.lsn = l ∧ r.txnId = t ∧
      (r.type = .compensation → Leads w t r.undoNextLsn stack ∧ r.undoNextLsn < r.lsn) ∧
      (isUndoable r = true → ∃ rest, stack = r :: rest ∧ Leads w t r.prevLsn rest) ∧
      (r.type ≠ .compensation → isUndoable r = false → Leads w t r.prevLsn stack) ∧
      r.prevLsn < r.lsn := by
  obtain ⟨a,rest,rfl,hlast,hstack⟩ := h
  induction a using List.reverseRecOn generalizing rest with
  | nil => exact absurd hlast.symm hne
  | append_singleton a x ih =>
    by_cases hx : x.txnId = t
    · have hla : Linked (a ++ [x]) := hl.of_append
      have hlt : lastLsnOf a t < x.lsn :=
        Nat.lt_of_le_of_lt (lastLsnOf_le_appendLsnOf _ _) hla.appendLsnOf_lt
      have hxl : x.lsn = l := by
        rw [lastLsnOf_append,if_pos hx,max_eq_right (le_of_lt hlt)] at hlast
        exact hlast
      have hprev : x.prevLsn = lastLsnOf a t := by
        have hp := hl.prev a x rest (by simp) (hx ▸ ht)
        rw [hp,hx]
      have hpush : pushUndo x.txnId (undoStack a t) x = stack := by
        rw [hx,← undoStack_append,hstack]
      refine ⟨a,x,rest,by simp,hxl,hx,?_,?_,?_,hprev ▸ hlt⟩
      · intro hcomp
        obtain ⟨r,below,hr,hcr⟩ := hc a x rest (by simp) hcomp
        rw [hx] at hr
        have hsplit : undoStack a t = [] ++ r :: below := hr
        obtain ⟨a₀,b₀,ha₀,hbelow⟩ := undoStack_split hsplit
        have hrt : r.txnId = t := (mem_undoStack (hr ▸ List.mem_cons_self ..)).2.1
        have hrp : r.prevLsn = lastLsnOf a₀ t := by
          have hp := hl.prev a₀ r (b₀ ++ x :: rest) (by simp [ha₀]) (hrt ▸ ht)
          rw [hp,hrt]
        rw [pushUndo_compensation hcomp,hr,List.tail_cons] at hpush
        have hra : r ∈ a := by simp [ha₀]
        have hrx : r.prevLsn < x.lsn := by
          have hla₀ : Linked (a₀ ++ r :: b₀) := ha₀ ▸ hla.of_append
          have hr₀ : r.prevLsn < r.lsn := by
            rw [hrp]
            exact Nat.lt_of_le_of_lt (lastLsnOf_le_appendLsnOf _ _) hla₀.appendLsnOf_lt
          exact hr₀.trans (hla.lt hra)
        exact ⟨⟨a₀,r :: b₀ ++ x :: rest,by simp [ha₀],by rw [hcr.undoNextLsn,hrp],
          hbelow.trans hpush⟩,hcr.undoNextLsn ▸ hrx⟩
      · intro hu
        rw [pushUndo_undoable hu] at hpush
        exact ⟨undoStack a t,hpush.symm,a,x :: rest,by simp,hprev.symm,rfl⟩
      · intro hcomp hu
        rw [pushUndo_neutral hcomp hu] at hpush
        exact ⟨a,x :: rest,by simp,hprev.symm,hpush⟩
    · rw [lastLsnOf_append,if_neg hx] at hlast
      rw [undoStack_append,pushUndo_other hx] at hstack
      have hw : a ++ [x] ++ rest = a ++ (x :: rest) := by simp
      rw [hw] at hl hc ⊢
      exact ih (x :: rest) hl hc hlast hstack

/-- The undo of a transaction goes from larger to smaller numbers. -/
theorem Leads.le {w : List LogRecord} {t : TxnId} {l : Lsn} {stack : List LogRecord}
    (h : Leads w t l stack) (hne : l ≠ invalidLsn) : ∃ r ∈ w, r.txnId = t ∧ r.lsn = l := by
  obtain ⟨a,b,rfl,rfl,-⟩ := h
  obtain ⟨r,hr,ht,hl⟩ := lastLsnOf_mem hne
  exact ⟨r,by simp [hr],ht,hl⟩

end Recovery
end OurSql
