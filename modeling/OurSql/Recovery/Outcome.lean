import OurSql.Recovery.Recover

/-! What the analysis pass finds out: a transaction wins if its last terminal
record is a Commit and loses if it has records but none that is terminal. -/
namespace OurSql
namespace Recovery

open Storage

def isTerminal (r : LogRecord) : Bool := r.type = .commit || r.type = .abort

def Committed (w : List LogRecord) (t : TxnId) : Prop :=
  ∃ r ∈ w, r.txnId = t ∧ r.type = .commit

def Ended (w : List LogRecord) (t : TxnId) : Prop := ∃ r ∈ w, r.txnId = t ∧ isTerminal r = true

/-- A transaction that the log leaves open. -/
def Unfinished (w : List LogRecord) (t : TxnId) : Prop :=
  t ≠ invalidTxnId ∧ (∃ r ∈ w, r.txnId = t) ∧ ¬Ended w t

/-- A transaction writes nothing after its terminal record. -/
def Finished (w : List LogRecord) : Prop :=
  ∀ before e after, w = before ++ e :: after → isTerminal e = true → e.txnId ≠ invalidTxnId →
    ∀ s ∈ after, s.txnId ≠ e.txnId

theorem Committed.ended {w : List LogRecord} {t : TxnId} (h : Committed w t) : Ended w t := by
  obtain ⟨r,hr,ht,hc⟩ := h
  exact ⟨r,hr,ht,by simp [isTerminal,hc]⟩

theorem Finished.of_append {before after : List LogRecord} (h : Finished (before ++ after)) :
    Finished before :=
  fun a e b he ht hi s hs => h a e (b ++ after) (by simp [he]) ht hi s (by simp [hs])

theorem analyze_append (w : List LogRecord) (r : LogRecord) :
    analyze (w ++ [r]) = noteRecord (analyze w) r := by
  simp [analyze]

theorem ended_append (w : List LogRecord) (r : LogRecord) (t : TxnId) :
    Ended (w ++ [r]) t ↔ Ended w t ∨ r.txnId = t ∧ isTerminal r = true := by
  constructor
  · rintro ⟨e,he,ht,hterm⟩
    rcases List.mem_append.mp he with he | he
    · exact .inl ⟨e,he,ht,hterm⟩
    · rw [List.mem_singleton.mp he] at ht hterm
      exact .inr ⟨ht,hterm⟩
  · rintro (⟨e,he,ht,hterm⟩ | ⟨ht,hterm⟩)
    · exact ⟨e,by simp [he],ht,hterm⟩
    · exact ⟨r,by simp,ht,hterm⟩

theorem committed_append (w : List LogRecord) (r : LogRecord) (t : TxnId) :
    Committed (w ++ [r]) t ↔ Committed w t ∨ r.txnId = t ∧ r.type = .commit := by
  constructor
  · rintro ⟨e,he,ht,hterm⟩
    rcases List.mem_append.mp he with he | he
    · exact .inl ⟨e,he,ht,hterm⟩
    · rw [List.mem_singleton.mp he] at ht hterm
      exact .inr ⟨ht,hterm⟩
  · rintro (⟨e,he,ht,hterm⟩ | ⟨ht,hterm⟩)
    · exact ⟨e,by simp [he],ht,hterm⟩
    · exact ⟨r,by simp,ht,hterm⟩

/-- The entry of a transaction that has not ended. -/
def openEntry (w : List LogRecord) (t : TxnId) : RecoveryTransaction :=
  { lastLsn := lastLsnOf w t }

theorem note_of_not_terminal {x : RecoveryTransaction} {r : LogRecord} (h : isTerminal r = false) :
    x.note r = { x with lastLsn := max x.lastLsn r.lsn } := by
  have ht : (r.type = .commit || r.type = .abort) = false := h
  simp only [RecoveryTransaction.note,ht,Bool.false_and,Bool.false_eq_true,if_false]

/-- The table entry of a transaction, read off the log. -/
theorem analyze_entry {w : List LogRecord} (hf : Finished w) {t : TxnId} (ht : t ≠ invalidTxnId) :
    ((∀ r ∈ w, r.txnId ≠ t) → analyze w t = none) ∧
      ((∃ r ∈ w, r.txnId = t) → ¬Ended w t → analyze w t = some (openEntry w t)) ∧
      (Ended w t → ∃ x, analyze w t = some x ∧ x.terminal = true ∧
        (x.terminalType = .commit ↔ Committed w t)) := by
  induction w using List.reverseRecOn with
  | nil => exact ⟨fun _ => rfl,by rintro ⟨r,hr,-⟩; simp at hr,by rintro ⟨r,hr,-⟩; simp at hr⟩
  | append_singleton w r ih =>
    obtain ⟨hnone,hopen,hended⟩ := ih hf.of_append
    rw [analyze_append]
    by_cases hr : r.txnId = t
    · have hnote : noteRecord (analyze w) r t = some (((analyze w t).getD {}).note r) := by
        rw [noteRecord,if_neg (hr ▸ ht),hr,Function.update_self]
      -- the transaction has not ended before `r`, since it writes `r`
      have hbefore : ¬Ended w t := by
        rintro ⟨e,he,het,hterm⟩
        obtain ⟨a,b,rfl⟩ := List.append_of_mem he
        exact hf a e (b ++ [r]) (by simp) hterm (het ▸ ht) r (by simp) (hr.trans het.symm)
      have hentry : (analyze w t).getD {} = openEntry w t := by
        by_cases hw : ∃ s ∈ w, s.txnId = t
        · rw [hopen hw hbefore,Option.getD_some]
        · push Not at hw
          have hfilter : w.filter (·.txnId = t) = [] := by
            simpa [List.filter_eq_nil_iff] using hw
          simp [hnone hw,openEntry,lastLsnOf,hfilter,appendLsnOf]
      have hcommit : ¬Committed w t := fun h => hbefore h.ended
      rw [hnote,hentry]
      refine ⟨fun h => absurd hr (h r (by simp)),fun _ hopen' => ?_,fun _ => ?_⟩
      · have hterm : isTerminal r = false := by
          by_contra hc
          exact hopen' ((ended_append w r t).mpr (.inr ⟨hr,by simpa using hc⟩))
        rw [note_of_not_terminal hterm]
        simp only [openEntry,lastLsnOf_append,hr,if_true]
      · have hterm : isTerminal r = true := by
          rename_i he
          rcases (ended_append w r t).mp he with he | he
          · exact absurd he hbefore
          · exact he.2
        have ht' : (r.type = .commit || r.type = .abort) = true := hterm
        have hle : (openEntry w t).terminalLsn ≤ r.lsn := Nat.zero_le _
        refine ⟨_,rfl,?_,?_⟩
        · simp [RecoveryTransaction.note,ht',hle]
        · rw [committed_append]
          simp [RecoveryTransaction.note,ht',hle,hcommit,hr]
    · have hnote : noteRecord (analyze w) r t = analyze w t := by
        unfold noteRecord
        split
        · rfl
        · exact Function.update_of_ne (Ne.symm hr) _ _
      rw [hnote]
      refine ⟨fun h => hnone fun s hs => h s (by simp [hs]),?_,?_⟩
      · rintro ⟨s,hs,hst⟩ hopen'
        have hsw : s ∈ w := by
          rcases List.mem_append.mp hs with hs | hs
          · exact hs
          · exact absurd (List.mem_singleton.mp hs ▸ hst) hr
        rw [hopen ⟨s,hsw,hst⟩ fun he => hopen' ((ended_append w r t).mpr (.inl he))]
        simp only [openEntry,lastLsnOf_append,hr,if_false]
      · intro he
        obtain ⟨x,hx,hterm,htype⟩ := hended (by simpa [ended_append,hr] using he)
        exact ⟨x,hx,hterm,by simp [htype,committed_append,hr]⟩

theorem analyze_invalid (w : List LogRecord) : analyze w invalidTxnId = none := by
  induction w using List.reverseRecOn with
  | nil => rfl
  | append_singleton w r ih =>
    rw [analyze_append]
    unfold noteRecord
    split
    · exact ih
    · rename_i h
      rw [Function.update_of_ne (Ne.symm h)]
      exact ih

theorem isWinner_iff {w : List LogRecord} (hf : Finished w) (t : TxnId) :
    isWinner (analyze w) t = true ↔ t ≠ invalidTxnId ∧ Committed w t := by
  by_cases ht : t = invalidTxnId
  · simp [isWinner,ht,analyze_invalid]
  obtain ⟨hnone,hopen,hended⟩ := analyze_entry hf ht
  by_cases he : Ended w t
  · obtain ⟨x,hx,hterm,htype⟩ := hended he
    simp [isWinner,hx,hterm,htype,ht]
  · have hc : ¬Committed w t := fun h => he h.ended
    by_cases hw : ∃ r ∈ w, r.txnId = t
    · simp [isWinner,hopen hw he,openEntry,hc]
    · push Not at hw
      simp [isWinner,hnone hw,hc]

/-- The entry of any transaction that has a record. -/
theorem analyze_seen (w : List LogRecord) {t : TxnId} (ht : t ≠ invalidTxnId) :
    ((∀ r ∈ w, r.txnId ≠ t) → analyze w t = none) ∧
      ((∃ r ∈ w, r.txnId = t) → ∃ x, analyze w t = some x ∧ x.lastLsn = lastLsnOf w t ∧
        (x.terminal = true ↔ Ended w t) ∧ (x.terminal = false → x.terminalLsn = invalidLsn)) := by
  induction w using List.reverseRecOn with
  | nil => exact ⟨fun _ => rfl,by rintro ⟨r,hr,-⟩; simp at hr⟩
  | append_singleton w r ih =>
    obtain ⟨hnone,hsome⟩ := ih
    rw [analyze_append]
    by_cases hr : r.txnId = t
    · refine ⟨fun h => absurd hr (h r (by simp)),fun _ => ?_⟩
      have hbefore : ∃ x, (analyze w t).getD {} = x ∧ x.lastLsn = lastLsnOf w t ∧
          (x.terminal = true ↔ Ended w t) ∧ (x.terminal = false → x.terminalLsn = invalidLsn) := by
        by_cases hw : ∃ s ∈ w, s.txnId = t
        · obtain ⟨x,hx,hprops⟩ := hsome hw
          exact ⟨x,by rw [hx,Option.getD_some],hprops⟩
        · have hended : ¬Ended w t := fun ⟨e,he,het,_⟩ => hw ⟨e,he,het⟩
          push Not at hw
          have hfilter : w.filter (·.txnId = t) = [] := by
            simpa [List.filter_eq_nil_iff] using hw
          exact ⟨{},by rw [hnone hw,Option.getD_none],by simp [lastLsnOf,hfilter,appendLsnOf],
            by simp [hended],fun _ => rfl⟩
      obtain ⟨x,hx,hlast,hterm,hzero⟩ := hbefore
      refine ⟨x.note r,?_,?_⟩
      · rw [noteRecord,if_neg (hr ▸ ht),hr,Function.update_self,hx]
      · rw [lastLsnOf_append,if_pos hr,ended_append,← hlast,← hterm]
        cases hr' : isTerminal r with
        | false =>
          rw [note_of_not_terminal hr']
          exact ⟨rfl,by simp,hzero⟩
        | true =>
          have hkind : (r.type = .commit || r.type = .abort) = true := hr'
          by_cases hle : x.terminalLsn ≤ r.lsn
          · simp [RecoveryTransaction.note,hkind,hle,hr]
          · -- an earlier terminal record has a larger number
            have hterminal : x.terminal = true := by
              by_contra hc
              have hz := hzero (by simpa using hc)
              exact hle (by rw [hz]; exact Nat.zero_le _)
            simp [RecoveryTransaction.note,hkind,hle,hterminal]
    · have hnote : noteRecord (analyze w) r t = analyze w t := by
        unfold noteRecord
        split
        · rfl
        · exact Function.update_of_ne (Ne.symm hr) _ _
      rw [hnote,lastLsnOf_append,if_neg hr]
      refine ⟨fun h => hnone fun s hs => h s (by simp [hs]),?_⟩
      rintro ⟨s,hs,hst⟩
      have hsw : s ∈ w := by
        rcases List.mem_append.mp hs with hs | hs
        · exact hs
        · exact absurd (List.mem_singleton.mp hs ▸ hst) hr
      obtain ⟨x,hx,hlast,hterm,hzero⟩ := hsome ⟨s,hsw,hst⟩
      exact ⟨x,hx,hlast,by simp [ended_append,hr,hterm],hzero⟩

theorem isLoser_iff {w : List LogRecord} (t : TxnId) :
    isLoser (analyze w) t = true ↔ Unfinished w t := by
  by_cases ht : t = invalidTxnId
  · simp [isLoser,ht,analyze_invalid,Unfinished]
  obtain ⟨hnone,hsome⟩ := analyze_seen w ht
  by_cases hw : ∃ r ∈ w, r.txnId = t
  · obtain ⟨x,hx,-,hterm,-⟩ := hsome hw
    simp [isLoser,hx,Unfinished,ht,hw,← hterm]
  · have hw' := hw
    push Not at hw
    simp only [isLoser,hnone hw,Bool.false_eq_true,false_iff]
    exact fun h => hw' h.2.1

theorem analyze_lastLsn {w : List LogRecord} {t : TxnId} (h : Unfinished w t) :
    ((analyze w t).getD {}).lastLsn = lastLsnOf w t := by
  obtain ⟨x,hx,hlast,-⟩ := (analyze_seen w h.1).2 h.2.1
  rw [hx,Option.getD_some,hlast]

end Recovery
end OurSql
