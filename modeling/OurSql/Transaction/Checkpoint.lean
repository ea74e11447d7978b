import OurSql.Storage.Log
import OurSql.Lib.Transition

/-! Checkpoints beside running sessions. The check for open transactions, the flushes
and the truncation of the log are separate steps; so are the three steps of `Begin`.
-/
namespace OurSql
namespace Transaction

open Transition Storage

/-- A transaction as its manager knows it. `starting` has its number, `begun` also its
Begin record, `active` is in the table; `finished` has left it. -/
inductive Presence
  | unknown | starting | begun | active | finished
  deriving DecidableEq, Repr

/-- What a thread inside `Checkpoint` does next. -/
inductive CheckpointStage
  | idle | flushLog | flushPages | append | flush (lsn : Lsn) | truncate
  deriving DecidableEq, Repr

/-- `since c t` remembers that `t` wrote its Begin record after the check of the
checkpoint `c`, `discarded` what truncations have thrown away. -/
structure Sessions where
  log : LogManager
  lastLsn : TxnId → Lsn
  nextTxnId : TxnId
  presence : TxnId → Presence
  ended : TxnId → Bool
  cleanup : TxnId → Bool
  checkpoints : ℕ → CheckpointStage
  since : ℕ → TxnId → Bool
  discarded : List LogRecord

def Sessions.initial : Sessions where
  log := .empty
  lastLsn := fun _ => invalidLsn
  nextTxnId := 1
  presence := fun _ => .unknown
  ended := fun _ => false
  cleanup := fun _ => false
  checkpoints := fun _ => .idle
  since := fun _ _ => false
  discarded := []

inductive SessionEvent
  | reserve
  | beginRecord (t : TxnId) (ok : Bool)
  | register (t : TxnId)
  | append (t : TxnId) (record : LogRecord)
  | startCleanup (t : TxnId)
  | remove (t : TxnId)
  | check (c : ℕ) (allowed : Bool)
  | advance (c : ℕ) (ok : Bool)

def Sessions.setPresence (s : Sessions) (t : TxnId) (p : Presence) : Sessions :=
  { s with presence := Function.update s.presence t p }

def Sessions.goto (s : Sessions) (c : ℕ) (stage : CheckpointStage) : Sessions :=
  { s with checkpoints := Function.update s.checkpoints c stage }

/-- `AppendFor`. -/
def Sessions.appendFor (s : Sessions) (t : TxnId) (record : LogRecord) : Sessions :=
  { s with
    log := s.log.push { record with txnId := t, prevLsn := s.lastLsn t }
    lastLsn := Function.update s.lastLsn t (s.log.appendLsn + 1) }

def isOutcome (record : LogRecord) : Bool := record.type = .commit || record.type = .abort

/-- `ValidateCheckpointAllowed` lets a checkpoint pass. -/
def Sessions.Quiet (s : Sessions) : Prop :=
  ∀ t, (s.presence t = .unknown ∨ s.presence t = .finished) ∧ s.cleanup t = false

/-- The steps of the sessions and of the checkpoints. `check c` comes with the answer the
tables give. -/
inductive Sessions.Step (s : Sessions) : SessionEvent → Sessions → Prop
  | reserve : Sessions.Step s .reserve
      { s.setPresence s.nextTxnId .starting with
        nextTxnId := s.nextTxnId + 1
        lastLsn := Function.update s.lastLsn s.nextTxnId invalidLsn }
  | begun {t : TxnId} : s.presence t = .starting → Sessions.Step s (.beginRecord t true)
      { (s.appendFor t { type := .begin }).setPresence t .begun with
        since := fun c u => decide (u = t) || s.since c u }
  | notBegun {t : TxnId} : s.presence t = .starting → Sessions.Step s (.beginRecord t false)
      (s.setPresence t .finished)
  | register {t : TxnId} : s.presence t = .begun → Sessions.Step s (.register t)
      (s.setPresence t .active)
  | append {t : TxnId} {record : LogRecord} : s.presence t = .active →
      record.type ≠ .checkpoint → Sessions.Step s (.append t record)
        { s.appendFor t record with
          ended := Function.update s.ended t (s.ended t || isOutcome record) }
  | startCleanup {t : TxnId} : s.presence t = .active → s.ended t = true →
      Sessions.Step s (.startCleanup t) { s with cleanup := Function.update s.cleanup t true }
  | remove {t : TxnId} : s.presence t = .active → s.ended t = true →
      Sessions.Step s (.remove t)
        { s.setPresence t .finished with cleanup := Function.update s.cleanup t false }
  | allowed {c : ℕ} : s.checkpoints c = .idle → s.Quiet → Sessions.Step s (.check c true)
      { s.goto c .flushLog with since := Function.update s.since c fun _ => false }
  | refused {c : ℕ} : s.checkpoints c = .idle → ¬s.Quiet → Sessions.Step s (.check c false) s
  | failed {c : ℕ} : s.checkpoints c ≠ .idle → Sessions.Step s (.advance c false) (s.goto c .idle)
  | flushLog {c : ℕ} : s.checkpoints c = .flushLog → Sessions.Step s (.advance c true)
      { s.goto c .flushPages with
        log := { s.log with durableLsn := max s.log.durableLsn s.log.appendLsn } }
  | flushPages {c : ℕ} : s.checkpoints c = .flushPages →
      Sessions.Step s (.advance c true) (s.goto c .append)
  | checkpoint {c : ℕ} : s.checkpoints c = .append → Sessions.Step s (.advance c true)
      { s.goto c (.flush (s.log.appendLsn + 1)) with log := s.log.push { type := .checkpoint } }
  | flush {c : ℕ} {lsn : Lsn} : s.checkpoints c = .flush lsn → lsn ≤ s.log.appendLsn →
      Sessions.Step s (.advance c true) { s.goto c .truncate with
        log := { s.log with durableLsn := max s.log.durableLsn lsn } }
  | truncate {c : ℕ} : s.checkpoints c = .truncate → Sessions.Step s (.advance c true)
      { s.goto c .idle with
        log := .empty
        discarded := s.discarded ++ s.log.records }

/-- Only records of finished transactions are gone, and the log passes a scan. -/
def Sessions.Preserved (s : Sessions) : Prop :=
  (∀ r ∈ s.discarded, r.txnId ≠ invalidTxnId → s.presence r.txnId = .finished) ∧
    s.log.scan = .ok s.log.records

/-- The transactions begun since the check of `c` have come and gone. -/
def Sessions.Settled (s : Sessions) (c : ℕ) : Prop :=
  ∀ t, s.since c t = true → s.presence t = .finished

/-- A step that truncates only when no transaction of the checkpoint's own time is open. -/
def Sessions.SettledStep (s : Sessions) (v : SessionEvent) (s' : Sessions) : Prop :=
  Sessions.Step s v s' ∧
    ∀ c, v = .advance c true → s.checkpoints c = .truncate → s.Settled c

/-- An open transaction in the log. -/
def Presence.isOpen : Presence → Bool
  | .begun | .active => true
  | _ => false

structure Sessions.Inv (s : Sessions) : Prop where
  linked : Linked s.log.records
  positive : 0 < s.nextTxnId
  known : ∀ t, s.nextTxnId ≤ t → s.presence t = .unknown
  numbered : ∀ t, s.presence t ≠ .unknown → t ≠ invalidTxnId
  records : ∀ r ∈ s.log.records, r.txnId ≠ invalidTxnId →
    (s.presence r.txnId).isOpen = true ∨ s.presence r.txnId = .finished
  last : ∀ t, (s.presence t).isOpen = true → s.lastLsn t = lastLsnOf s.log.records t
  starting : ∀ t, s.presence t = .starting → s.lastLsn t = invalidLsn
  window : ∀ c, s.checkpoints c ≠ .idle → ∀ t, (s.presence t).isOpen = true →
    s.since c t = true
  discarded : ∀ r ∈ s.discarded, r.txnId ≠ invalidTxnId → s.presence r.txnId = .finished

theorem Sessions.inv_initial : Sessions.initial.Inv where
  linked := by
    constructor
    all_goals simp [Sessions.initial,LogManager.empty]
  positive := Nat.one_pos
  known _ _ := rfl
  numbered _ h := absurd rfl h
  records := by simp [Sessions.initial,LogManager.empty]
  last _ h := by cases h
  starting _ h := by cases h
  window _ h := absurd rfl h
  discarded := by simp [Sessions.initial]

variable {s s' : Sessions} {t : TxnId} {c : ℕ}

/-- A transaction that has not begun has no record. -/
theorem Sessions.Inv.not_logged (h : s.Inv) (ht : (s.presence t).isOpen = false)
    (hf : s.presence t ≠ .finished) (h0 : t ≠ invalidTxnId) : ∀ r ∈ s.log.records, r.txnId ≠ t := by
  rintro r hr rfl
  rcases h.records r hr h0 with ho | ho
  · rw [ht] at ho
    cases ho
  · exact hf ho

/-- The log grows by a record of an open transaction. -/
theorem Sessions.Inv.appendFor (h : s.Inv) (record : LogRecord) (h0 : t ≠ invalidTxnId)
    (hlast : s.lastLsn t = lastLsnOf s.log.records t) (hopen : (s'.presence t).isOpen = true)
    (hlog : s'.log = (s.appendFor t record).log)
    (hlasts : s'.lastLsn = (s.appendFor t record).lastLsn) (hnext : s'.nextTxnId = s.nextTxnId)
    (hother : ∀ u, u ≠ t → s'.presence u = s.presence u)
    (hcheck : s'.checkpoints = s.checkpoints)
    (hsince : ∀ c u, s.since c u = true ∨ (u = t ∧ s.presence t = .starting) →
      s'.since c u = true)
    (hfrom : (s.presence t).isOpen = true ∨ s.presence t = .starting)
    (hdiscarded : s'.discarded = s.discarded) : s'.Inv where
  linked := by
    rw [hlog]
    exact h.linked.push (fun _ => hlast) fun hz => absurd hz h0
  positive := hnext ▸ h.positive
  known u hu := by
    have hle : s.nextTxnId ≤ u := hnext ▸ hu
    have hut : u ≠ t := by
      rintro rfl
      rcases hfrom with hf | hf <;> simp [h.known u hle,Presence.isOpen] at hf
    rw [hother u hut]
    exact h.known u hle
  numbered u hu := by
    by_cases hut : u = t
    · exact hut ▸ h0
    · rw [hother u hut] at hu
      exact h.numbered u hu
  records r hr hr0 := by
    by_cases hrt : r.txnId = t
    · exact .inl (hrt ▸ hopen)
    · rw [hother _ hrt]
      rw [hlog] at hr
      rcases List.mem_append.mp hr with hr | hr
      · exact h.records r hr hr0
      · rw [List.mem_singleton.mp hr] at hrt
        exact absurd rfl hrt
  last u hu := by
    rw [hlog,hlasts]
    change Function.update s.lastLsn t (s.log.appendLsn + 1) u = lastLsnOf (s.log.push _).records u
    rw [lastLsnOf_push]
    by_cases hut : u = t
    · subst hut
      rw [Function.update_self,if_pos rfl]
    · have htu : ¬t = u := fun he => hut he.symm
      rw [Function.update_of_ne hut,if_neg htu]
      rw [hother u hut] at hu
      exact h.last u hu
  starting u hu := by
    have hut : u ≠ t := by
      rintro rfl
      rw [hu] at hopen
      cases hopen
    rw [hlasts]
    change Function.update s.lastLsn t (s.log.appendLsn + 1) u = _
    rw [Function.update_of_ne hut]
    rw [hother u hut] at hu
    exact h.starting u hu
  window c hc u hu := by
    rw [hcheck] at hc
    by_cases hut : u = t
    · subst hut
      rcases hfrom with hf | hf
      · exact hsince c u (.inl (h.window c hc u hf))
      · exact hsince c u (.inr ⟨rfl,hf⟩)
    · rw [hother u hut] at hu
      exact hsince c u (.inl (h.window c hc u hu))
  discarded r hr hr0 := by
    rw [hdiscarded] at hr
    have hf := h.discarded r hr hr0
    have hrt : r.txnId ≠ t := by
      intro he
      rw [he] at hf
      rcases hfrom with ho | ho <;> simp [hf,Presence.isOpen] at ho
    rw [hother _ hrt]
    exact hf

/-- One transaction moves on without a record. -/
theorem Sessions.Inv.setPresence (h : s.Inv) {p : Presence} (h0 : t ≠ invalidTxnId)
    (hfrom : s.presence t ≠ .unknown ∧ s.presence t ≠ .finished)
    (hto : p.isOpen = (s.presence t).isOpen ∨ p = .finished) (hp : p ≠ .starting)
    {cleanup : TxnId → Bool} :
    ({ s.setPresence t p with cleanup := cleanup } : Sessions).Inv := by
  have hlt : ∀ u, s.nextTxnId ≤ u → u ≠ t := by
    rintro u hu rfl
    exact hfrom.1 (h.known u hu)
  have hopen : ∀ u, (Function.update s.presence t p u).isOpen = true →
      (s.presence u).isOpen = true := by
    intro u hu
    by_cases hut : u = t
    · subst hut
      rw [Function.update_self] at hu
      rcases hto with ho | ho
      · exact ho ▸ hu
      · rw [ho] at hu
        cases hu
    · rwa [Function.update_of_ne hut] at hu
  refine ⟨h.linked,h.positive,fun u hu => ?_,fun u hu => ?_,fun r hr hr0 => ?_,
    fun u hu => h.last u (hopen u hu),fun u hu => ?_,fun c hc u hu => h.window c hc u (hopen u hu),
    fun r hr hr0 => ?_⟩
  · exact (Function.update_of_ne (hlt u hu) _ _).trans (h.known u hu)
  · by_cases hut : u = t
    · exact hut ▸ h0
    · change Function.update s.presence t p u ≠ _ at hu
      rw [Function.update_of_ne hut] at hu
      exact h.numbered u hu
  · change (Function.update s.presence t p r.txnId).isOpen = true ∨
      Function.update s.presence t p r.txnId = .finished
    have hold := h.records r hr hr0
    by_cases hut : r.txnId = t
    · rw [hut,Function.update_self]
      rw [hut] at hold
      rcases hold with ho | ho
      · rcases hto with hp' | hp'
        · exact .inl (hp' ▸ ho)
        · exact .inr hp'
      · exact absurd ho hfrom.2
    · rw [Function.update_of_ne hut]
      exact hold
  · change Function.update s.presence t p u = _ at hu
    by_cases hut : u = t
    · rw [hut,Function.update_self] at hu
      exact absurd hu hp
    · rw [Function.update_of_ne hut] at hu
      exact h.starting u hu
  · have hf := h.discarded r hr hr0
    have hrt : r.txnId ≠ t := fun he => hfrom.2 (he ▸ hf)
    exact (Function.update_of_ne hrt _ _).trans hf

/-- A checkpoint moves on; the log may be flushed or get its record. -/
theorem Sessions.Inv.goto (h : s.Inv) {stage : CheckpointStage}
    (hstage : stage = .idle ∨ s.checkpoints c ≠ .idle) {log : LogManager}
    (hlinked : Linked log.records)
    (hrecords : ∀ r ∈ log.records, r.txnId ≠ invalidTxnId → r ∈ s.log.records)
    (hlast : ∀ u, u ≠ invalidTxnId → lastLsnOf log.records u = lastLsnOf s.log.records u) :
    ({ s.goto c stage with log := log } : Sessions).Inv := by
  refine ⟨hlinked,h.positive,h.known,h.numbered,
    fun r hr hr0 => h.records r (hrecords r hr hr0) hr0,fun u hu => ?_,h.starting,
    fun d hd u hu => ?_,h.discarded⟩
  · have hu' : (s.presence u).isOpen = true := hu
    have h0 : u ≠ invalidTxnId := h.numbered u fun hc => by
      rw [hc] at hu'
      cases hu'
    exact (h.last u hu).trans (hlast u h0).symm
  · by_cases hdc : d = c
    · subst hdc
      rcases hstage with rfl | hc
      · exact absurd (Function.update_self _ _ _) hd
      · exact h.window d hc u hu
    · refine h.window d ?_ u hu
      change Function.update s.checkpoints c stage d ≠ _ at hd
      rwa [Function.update_of_ne hdc] at hd

/-- The number of a transaction that starts is new. -/
theorem Sessions.Inv.reserve (h : s.Inv) :
    ({ s.setPresence s.nextTxnId .starting with
        nextTxnId := s.nextTxnId + 1
        lastLsn := Function.update s.lastLsn s.nextTxnId invalidLsn } : Sessions).Inv := by
  have hnew : s.presence s.nextTxnId = .unknown := h.known _ le_rfl
  have hother : ∀ u, u ≠ s.nextTxnId →
      Function.update s.presence s.nextTxnId .starting u = s.presence u :=
    fun u hu => Function.update_of_ne hu _ _
  have hopen : ∀ u, (Function.update s.presence s.nextTxnId .starting u).isOpen = true →
      u ≠ s.nextTxnId := by
    rintro u hu rfl
    rw [Function.update_self] at hu
    cases hu
  refine ⟨h.linked,Nat.succ_pos _,fun u hu => ?_,fun u hu => ?_,fun r hr hr0 => ?_,
    fun u hu => ?_,fun u hu => ?_,fun c hc u hu => ?_,fun r hr hr0 => ?_⟩
  · have hle : s.nextTxnId + 1 ≤ u := hu
    exact (hother u (Nat.ne_of_gt hle)).trans (h.known u (Nat.le_of_succ_le hle))
  · by_cases hut : u = s.nextTxnId
    · exact hut ▸ Nat.pos_iff_ne_zero.mp h.positive
    · exact h.numbered u fun he => hu ((hother u hut).trans he)
  · have hold := h.records r hr hr0
    have hrt : r.txnId ≠ s.nextTxnId := by
      intro he
      rw [he,hnew] at hold
      rcases hold with ho | ho <;> cases ho
    change (Function.update s.presence s.nextTxnId .starting r.txnId).isOpen = true ∨
      Function.update s.presence s.nextTxnId .starting r.txnId = .finished
    rw [hother _ hrt]
    exact hold
  · have hut := hopen u hu
    have hold : (s.presence u).isOpen = true := hother u hut ▸ hu
    exact (Function.update_of_ne hut _ _).trans (h.last u hold)
  · by_cases hut : u = s.nextTxnId
    · subst hut
      exact Function.update_self _ _ _
    · have hold : s.presence u = .starting := (hother u hut).symm.trans hu
      exact (Function.update_of_ne hut _ _).trans (h.starting u hold)
  · have hold : (s.presence u).isOpen = true := hother u (hopen u hu) ▸ hu
    exact h.window c hc u hold
  · have hf := h.discarded r hr hr0
    have hrt : r.txnId ≠ s.nextTxnId := by
      intro he
      rw [he,hnew] at hf
      cases hf
    exact (hother _ hrt).trans hf

/-- A truncation with no open transaction. -/
theorem Sessions.Inv.truncate (h : s.Inv) (hc : s.checkpoints c ≠ .idle) (hs : s.Settled c) :
    ({ s.goto c .idle with
        log := .empty
        discarded := s.discarded ++ s.log.records } : Sessions).Inv := by
  have hclosed : ∀ t, ¬(s.presence t).isOpen = true := by
    intro t ho
    rw [hs t (h.window c hc t ho)] at ho
    cases ho
  refine ⟨Sessions.inv_initial.linked,h.positive,h.known,h.numbered,fun r hr => (by cases hr),
    fun u hu => ?_,h.starting,fun d hd u hu => ?_,fun r hr hr0 => ?_⟩
  · exact absurd hu (hclosed u)
  · exact absurd hu (hclosed u)
  · rcases List.mem_append.mp hr with hr | hr
    · exact h.discarded r hr hr0
    · exact (h.records r hr hr0).resolve_left (hclosed _)

theorem Sessions.Inv.step {v : SessionEvent} (h : s.Inv) (hs : s.SettledStep v s') : s'.Inv := by
  obtain ⟨hstep,hsettled⟩ := hs
  -- a checkpoint that touches no record
  have hflush : ∀ c stage n, (stage = .idle ∨ s.checkpoints c ≠ .idle) →
      ({ s.goto c stage with log := { s.log with durableLsn := n } } : Sessions).Inv :=
    fun c stage n hstage => h.goto hstage h.linked (fun _ hr _ => hr) fun _ _ => rfl
  cases hstep with
  | reserve => exact h.reserve
  | @begun t ht =>
    have h0 : t ≠ invalidTxnId := h.numbered t (by simp [ht])
    have hnone : lastLsnOf s.log.records t = invalidLsn :=
      lastLsnOf_fresh (h.not_logged (by rw [ht]; rfl) (by simp [ht]) h0)
    refine h.appendFor { type := .begin } h0 ((h.starting t ht).trans hnone.symm) ?_
      rfl rfl rfl (fun u hu => Function.update_of_ne hu _ _) rfl ?_ (.inr ht) rfl
    · change (Function.update s.presence t .begun t).isOpen = true
      rw [Function.update_self]
      rfl
    · rintro c u (hu | ⟨rfl,-⟩)
      · exact (Bool.or_eq_true _ _).mpr (.inr hu)
      · exact (Bool.or_eq_true _ _).mpr (.inl (by simp))
  | notBegun ht =>
    have h0 := h.numbered _ (by rw [ht]; simp)
    exact h.setPresence h0 (by simp [ht]) (.inr rfl) (by simp)
  | register ht =>
    have h0 := h.numbered _ (by rw [ht]; simp)
    exact h.setPresence h0 (by simp [ht]) (.inl (by rw [ht]; rfl)) (by simp)
  | @append t record ht _ =>
    have hopen : (s.presence t).isOpen = true := by rw [ht]; rfl
    have h0 : t ≠ invalidTxnId := h.numbered t (by simp [ht])
    exact h.appendFor record h0 (h.last t hopen) hopen rfl rfl rfl (fun _ _ => rfl) rfl
      (fun _ _ hu => hu.resolve_right fun ⟨_,hst⟩ => by simp [ht] at hst) (.inl hopen) rfl
  | startCleanup ht _ => exact ⟨h.1,h.2,h.3,h.4,h.5,h.6,h.7,h.8,h.9⟩
  | remove ht _ =>
    have h0 := h.numbered _ (by rw [ht]; simp)
    exact h.setPresence h0 (by simp [ht]) (.inr rfl) (by simp)
  | @allowed c hidle hquiet =>
    have hclosed : ∀ t, ¬(s.presence t).isOpen = true := by
      intro t
      rcases (hquiet t).1 with ht | ht <;> simp [ht,Presence.isOpen]
    exact ⟨h.linked,h.positive,h.known,h.numbered,h.records,h.last,h.starting,
      fun d hd u hu => absurd hu (hclosed u),h.discarded⟩
  | refused _ _ => exact h
  | failed hc => exact hflush _ _ s.log.durableLsn (.inl rfl)
  | flushLog hc => exact hflush _ _ _ (.inr (by simp [hc]))
  | flushPages hc => exact hflush _ _ s.log.durableLsn (.inr (by simp [hc]))
  | @checkpoint c hc =>
    refine h.goto (.inr (by simp [hc])) ?_ ?_ ?_
    · exact h.linked.push (fun ht => absurd rfl ht) fun _ => rfl
    · intro r hr hr0
      rcases List.mem_append.mp hr with hr | hr
      · exact hr
      · rw [List.mem_singleton.mp hr] at hr0
        exact absurd rfl hr0
    · intro u hu
      rw [lastLsnOf_push,if_neg (Ne.symm hu)]
  | flush hc _ => exact hflush _ _ _ (.inr (by simp [hc]))
  | @truncate c hc => exact h.truncate (by simp [hc]) (hsettled c rfl hc)

end Transaction
end OurSql
