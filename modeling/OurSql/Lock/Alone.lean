import OurSql.Lock.Compatibility

/-! One transaction that nobody else disturbs. Its queues hold at most its own
granted request, so a call is decided by the mode it asked for last on that
resource, and no call ever waits. -/
namespace OurSql
namespace Lock

/-- The ways in which a transaction comes to ask for a lock. -/
inductive Request
  | fetchPage (pageId : PageId)
  | fetchPageWrite (pageId : PageId)
  | lockPage (pageId : PageId) (mode : LockMode)
  | lockIndexKey (indexId : ℕ) (encodedKey : String) (mode : LockMode) (tableId : ℕ)
  | lockTable (tableId : ℕ) (mode : TableLockMode)
  deriving DecidableEq

def Request.lockId : Request → LockId
  | .fetchPage p | .fetchPageWrite p | .lockPage p _ => .page p
  | .lockIndexKey i k _ t => .indexKey i k t
  | .lockTable t _ => .table t

def Request.mode : Request → Mode
  | .fetchPage _ => .page .S
  | .fetchPageWrite _ => .page .X
  | .lockPage _ m => .page m
  | .lockIndexKey _ _ m _ => .page m
  | .lockTable _ m => .table m

/-- The request names a page or a key that can be locked at all. -/
def Request.valid : Request → Bool
  | .fetchPage p | .fetchPageWrite p | .lockPage p _ => p ≠ invalidPageId && p ≠ 0
  | .lockIndexKey _ k _ _ => k ≠ ""
  | .lockTable _ _ => true

/-- `LockInternal` up to its first wait. -/
def lockInternal (s : LockState) (t : TxnId) (l : LockId) (mode : Mode) : Outcome × LockState :=
  match validateCall s t l mode with
  | .error e => (.returned (.error e),s)
  | .ok () => enterQueue s t l mode

def lockPage (s : LockState) (t : TxnId) (p : PageId) (mode : LockMode) : Outcome × LockState :=
  if p = invalidPageId || p = 0 then
    (.returned (fail .invalidArgument "page lock requires a valid page id"),s)
  else lockInternal s t (.page p) (.page mode)

def lockIndexKey (s : LockState) (t : TxnId) (indexId : ℕ) (encodedKey : String) (mode : LockMode)
    (tableId : ℕ) : Outcome × LockState :=
  if encodedKey = "" then
    (.returned (fail .invalidArgument "index-key lock requires a non-empty encoded key"),s)
  else lockInternal s t (.indexKey indexId encodedKey tableId) (.page mode)

def lockTable (s : LockState) (t : TxnId) (tableId : ℕ) (mode : TableLockMode) :
    Outcome × LockState :=
  lockInternal s t (.table tableId) (.table mode)

/-- The lock that the transactional `FetchPage` and `FetchPageWrite` take first. -/
def acquirePageLock (s : LockState) (t : TxnId) (p : PageId) (mode : LockMode) :
    Outcome × LockState :=
  if !s.isUsableForWork t then
    (.returned (fail .invalidArgument "transactional page access requires an Active transaction"),s)
  else lockPage s t p mode

def request (s : LockState) (t : TxnId) : Request → Outcome × LockState
  | .fetchPage p => acquirePageLock s t p .S
  | .fetchPageWrite p => acquirePageLock s t p .X
  | .lockPage p m => lockPage s t p m
  | .lockIndexKey i k m table => lockIndexKey s t i k m table
  | .lockTable table m => lockTable s t table m

/-- The mode of the granted request of `t`, if there is one. -/
def heldMode (s : LockState) (t : TxnId) (l : LockId) : Option Mode :=
  ((s.queues l).find? fun r => r.txnId = t && r.granted && !r.upgrading).map (·.mode)

/-- A request is answered well: what is held already suffices and nothing
changes, or the lock is granted in a mode that covers the old one and the new. -/
def Answered (s : LockState) (t : TxnId) (r : Request) : Prop :=
  match heldMode s t r.lockId with
  | some m =>
    (m.Covers r.mode → (request s t r).1 = .returned (.ok ()) ∧
      (request s t r).2.queues = s.queues) ∧
    (¬m.Covers r.mode → (request s t r).1 = .returned (.ok ()) ∧
      ∃ m', heldMode (request s t r).2 t r.lockId = some m' ∧ m'.Covers m ∧ m'.Covers r.mode)
  | none => (request s t r).1 = .returned (.ok ()) ∧
      heldMode (request s t r).2 t r.lockId = some r.mode

/-- Every request of a sequence is answered well in the state it meets. -/
def Served (t : TxnId) : LockState → List Request → Prop
  | _, [] => True
  | s, r::rs => Answered s t r ∧ Served t (request s t r).2 rs

def canUpgradeMode : Mode → Mode → Bool
  | .table a, .table b => canUpgradeTable a b
  | .page a, .page b => canUpgradePage a b
  | _, _ => false

/-- On each resource the modes asked for one after another stay equal or climb
along the upgrades that `CanUpgrade` lists. -/
def Climbs (last : LockId → Option Mode) : List Request → Prop
  | [] => True
  | r::rs => (∀ m, last r.lockId = some m → m = r.mode ∨ canUpgradeMode m r.mode = true) ∧
      Climbs (Function.update last r.lockId (some r.mode)) rs

theorem Request.mode_isTable (r : Request) : r.mode.isTable = isTableResource r.lockId.type := by
  cases r <;> rfl

/-- An upgrade is never to a mode that is covered already. -/
theorem not_covers_of_canUpgradeMode {a b : Mode} (h : canUpgradeMode a b = true) :
    ¬a.Covers b := by
  cases a with
  | table a =>
    cases b with
    | table b =>
      -- a third mode tells the two apart
      have hw : ∃ c : TableLockMode, tableModesConflict b c = true ∧ tableModesConflict a c = false := by
        revert h
        cases a <;> cases b <;> intro h <;>
          first
          | exact ⟨.IS,by decide,by decide⟩
          | exact ⟨.IX,by decide,by decide⟩
          | exact ⟨.S,by decide,by decide⟩
          | exact absurd h (by decide)
      obtain ⟨c,hb,ha⟩ := hw
      intro hc
      have hbad : tableModesConflict a c = true := hc (.table c) hb
      simp [ha] at hbad
    | page b => simp [canUpgradeMode] at h
  | page a =>
    cases b with
    | table b => simp [canUpgradeMode] at h
    | page b =>
      intro hc
      have hbad : lockModesConflict a .S = true := by
        apply hc (.page .S)
        revert h
        cases a <;> cases b <;> decide
      revert h hbad
      cases a <;> cases b <;> decide

theorem covers_of_canUpgradeMode {a b : Mode} (h : canUpgradeMode a b = true) : b.Covers a := by
  cases a with
  | table a => cases b with
    | table b => exact Mode.covers_of_canUpgradeTable h
    | page b => simp [canUpgradeMode] at h
  | page a => cases b with
    | table b => simp [canUpgradeMode] at h
    | page b => exact Mode.covers_of_canUpgradePage h

/-- The granted request of `t` in mode `m`. -/
def grantedRequest (t : TxnId) (m : Mode) : LockRequest :=
  { LockRequest.new t m with granted := true }

/-- The queue that a lone transaction leaves behind. -/
def ownQueue (t : TxnId) : Option Mode → LockRequestQueue
  | none => []
  | some m => [grantedRequest t m]

/-- Only `t` has requests, all of them granted, and it is active. -/
structure Alone (t : TxnId) (held : LockId → Option Mode) (s : LockState) : Prop where
  active : s.txnState t = .active
  queues : ∀ l, s.queues l = ownQueue t (held l)
  typed : ∀ l m, held l = some m → m.isTable = isTableResource l.type

theorem alone_initial (t : TxnId) : Alone t (fun _ => none) LockState.initial :=
  ⟨rfl,fun _ => rfl,fun _ _ h => by simp at h⟩

@[simp] theorem grantedRequest_mode (t : TxnId) (m : Mode) : (grantedRequest t m).mode = m := by
  cases m <;> rfl

@[simp] theorem new_txnId (t : TxnId) (m : Mode) : (LockRequest.new t m).txnId = t := by
  cases m <;> rfl

theorem Alone.heldMode {t : TxnId} {held : LockId → Option Mode} {s : LockState}
    (h : Alone t held s) (l : LockId) : heldMode s t l = held l := by
  rw [Lock.heldMode,h.queues l]
  cases hm : held l with
  | none => rfl
  | some m =>
    have hu : (grantedRequest t m).upgrading = false := by cases m <;> rfl
    have ht : (grantedRequest t m).txnId = t := by cases m <;> rfl
    have hg : (grantedRequest t m).granted = true := rfl
    simp [ownQueue,hu,ht,hg]

theorem Alone.update {t : TxnId} {held : LockId → Option Mode} {s s' : LockState} {l : LockId}
    {m : Mode} (h : Alone t held s) (hm : m.isTable = isTableResource l.type)
    (ha : s'.txnState t = .active) (hl : s'.queues l = [grantedRequest t m])
    (hk : ∀ k, k ≠ l → s'.queues k = s.queues k) :
    Alone t (Function.update held l (some m)) s' where
  active := ha
  queues k := by
    by_cases hkl : k = l
    · subst hkl
      simpa [ownQueue] using hl
    · simpa [hkl] using (hk k hkl).trans (h.queues k)
  typed k n hn := by
    by_cases hkl : k = l
    · subst hkl
      have he : m = n := by simpa using hn
      exact he ▸ hm
    · exact h.typed k n (by simpa [hkl] using hn)

/-- A queue with one request never makes it wait. -/
theorem canGrant_single (r : LockRequest) : canGrant [r] 0 r = true := by
  simp [canGrant]

/-- The first call on a resource is granted at once. -/
theorem Alone.enterQueue_fresh {t : TxnId} {held : LockId → Option Mode} {s : LockState}
    {l : LockId} {mode : Mode} (h : Alone t held s) (hm : mode.isTable = isTableResource l.type)
    (hl : held l = none) :
    (enterQueue s t l mode).1 = .returned (.ok ()) ∧
      Alone t (Function.update held l (some mode)) (enterQueue s t l mode).2 := by
  have hq : s.queues l = [] := by rw [h.queues l,hl]; rfl
  have he : enterQueue s t l mode = (.returned (.ok ()),
      (((s.register t true).setQueue l [LockRequest.new t mode]).setQueue l
        [grantedRequest t mode]).addGrantedLock t l) := by
    cases mode <;>
      simp [enterQueue,hq,findRequest,waitLoop,canGrant_single,LockState.isUsableForWork,
        LockState.register,LockState.setQueue,LockRequest.new,grantedRequest,h.active]
  rw [he]
  exact ⟨rfl,h.update hm h.active (by simp) fun k hk => by simp [hk]⟩

/-- A later call compares its mode with the one held. -/
theorem Alone.enterQueue_held {t : TxnId} {held : LockId → Option Mode} {s : LockState}
    {l : LockId} {mode m : Mode} (h : Alone t held s)
    (hm : mode.isTable = isTableResource l.type) (hl : held l = some m) :
    if m = mode then enterQueue s t l mode = (.returned (.ok ()),s.register t true)
    else if canUpgradeMode m mode = true then
      (enterQueue s t l mode).1 = .returned (.ok ()) ∧
        Alone t (Function.update held l (some mode)) (enterQueue s t l mode).2
    else enterQueue s t l mode =
      (.returned (fail .invalidArgument (invalidUpgrade mode)),s.register t true) := by
  have hq : s.queues l = [grantedRequest t m] := by rw [h.queues l,hl]; rfl
  have hkind : m.isTable = mode.isTable := (h.typed l m hl).trans hm.symm
  have ht : (grantedRequest t m).txnId = t := by cases m <;> rfl
  have hg : (grantedRequest t m).granted = true := rfl
  have hup : (grantedRequest t m).upgrading = false := by cases m <;> rfl
  have hcan : (grantedRequest t m).cancelled = false := by cases m <;> rfl
  have hsame : sameRequestedMode (grantedRequest t m) mode = decide (m = mode) := by
    revert hkind
    cases m <;> cases mode <;> simp [sameRequestedMode,grantedRequest,LockRequest.new,Mode.isTable]
    all_goals congr
  have hcu : canUpgrade (grantedRequest t m) mode = canUpgradeMode m mode := by
    revert hkind
    cases m <;> cases mode <;>
      simp [canUpgrade,canUpgradeMode,grantedRequest,LockRequest.new,Mode.isTable]
  have hfind : findRequest [grantedRequest t m] t = some 0 := by simp [findRequest,ht]
  split
  · rename_i he
    simp [enterQueue,hq,hfind,hg,hup,hsame,decide_eq_true he]
  split
  · rename_i hne hc
    have hn : ({ { (grantedRequest t m).setMode mode with upgrading := true } with
        granted := true, upgrading := false } : LockRequest) = grantedRequest t mode := by
      revert hkind
      cases m <;> cases mode <;> simp [grantedRequest,LockRequest.setMode,LockRequest.new,Mode.isTable]
    have hcan' : ((grantedRequest t m).setMode mode).cancelled = false := by cases mode <;> exact hcan
    have he : enterQueue s t l mode = (.returned (.ok ()),
        (((s.register t true).setQueue l
          [{ (grantedRequest t m).setMode mode with upgrading := true }]).setQueue l
          [grantedRequest t mode]).addGrantedLock t l) := by
      simp [enterQueue,hq,hfind,hg,hup,hsame,hne,hcu,hc,waitLoop,hcan',canGrant_single,
        LockState.isUsableForWork,LockState.register,LockState.setQueue,h.active,← hn]
    rw [he]
    exact ⟨rfl,h.update hm h.active (by simp) fun k hk => by simp [hk]⟩
  · rename_i hne hc
    simp [enterQueue,hq,hfind,hg,hup,hsame,hne,hcu,hc]

/-- Whatever door the request comes through, it enters the queue of its resource. -/
theorem Alone.request_eq {t : TxnId} {held : LockId → Option Mode} {s : LockState} {r : Request}
    (h : Alone t held s) (hv : r.valid = true) :
    request s t r = enterQueue s t r.lockId r.mode := by
  have hu : s.isUsableForWork t = true := by simp [LockState.isUsableForWork,h.active]
  have hcall : validateCall s t r.lockId r.mode = .ok () := by
    have hk := r.mode_isTable
    unfold validateCall
    rw [if_neg (by simp [hu])]
    cases hm : r.mode with
    | table m =>
      have ht : isTableResource r.lockId.type = true := by simpa [hm,Mode.isTable] using hk.symm
      simp [ht]
    | page m =>
      have ht : isTableResource r.lockId.type = false := by simpa [hm,Mode.isTable] using hk.symm
      simp [ht]
  have hin : lockInternal s t r.lockId r.mode = enterQueue s t r.lockId r.mode := by
    simp [lockInternal,hcall]
  rw [← hin]
  cases r <;> simp only [Request.valid,Bool.and_eq_true,decide_eq_true_eq] at hv <;>
    simp [request,acquirePageLock,Lock.lockPage,Lock.lockIndexKey,Lock.lockTable,hu,hv,
      Request.lockId,Request.mode]

/-- One request is answered well exactly when it climbs. -/
theorem Alone.answered_iff {t : TxnId} {held : LockId → Option Mode} {s : LockState} {r : Request}
    (h : Alone t held s) (hv : r.valid = true) :
    Answered s t r ↔ ∀ m, held r.lockId = some m → m = r.mode ∨ canUpgradeMode m r.mode = true := by
  unfold Answered
  rw [h.heldMode,h.request_eq hv]
  cases hl : held r.lockId with
  | none =>
    obtain ⟨hok,hal⟩ := h.enterQueue_fresh r.mode_isTable hl
    simp [hok,hal.heldMode]
  | some m =>
    have hstep := h.enterQueue_held r.mode_isTable hl
    simp only [Option.some.injEq,forall_eq']
    split_ifs at hstep with he hc
    · subst he
      simp [hstep,Mode.Covers.refl]
    · obtain ⟨hok,hal⟩ := hstep
      have hnc := not_covers_of_canUpgradeMode hc
      simp [hc,hnc,hok,hal.heldMode,covers_of_canUpgradeMode hc,Mode.Covers.refl]
    · -- the call is refused, covered or not
      have hno : (enterQueue s t r.lockId r.mode).1 ≠ .returned (.ok ()) := by
        rw [hstep]; simp [fail]
      refine iff_of_false ?_ (by simp [he,hc])
      intro hcov
      by_cases hm : m.Covers r.mode
      · exact hno (hcov.1 hm).1
      · exact hno (hcov.2 hm).1

/-- After an answered request the transaction holds the mode it asked for. -/
theorem Alone.next {t : TxnId} {held : LockId → Option Mode} {s : LockState} {r : Request}
    (h : Alone t held s) (hv : r.valid = true) (ha : Answered s t r) :
    Alone t (Function.update held r.lockId (some r.mode)) (request s t r).2 := by
  have hclimb := (h.answered_iff hv).mp ha
  rw [h.request_eq hv]
  cases hl : held r.lockId with
  | none => exact (h.enterQueue_fresh r.mode_isTable hl).2
  | some m =>
    have hstep := h.enterQueue_held r.mode_isTable hl
    rcases hclimb m hl with he | hc
    · rw [if_pos he] at hstep
      have hsame : Function.update held r.lockId (some r.mode) = held := by
        rw [← he,← hl,Function.update_eq_self]
      rw [hstep,hsame]
      exact ⟨h.active,h.queues,h.typed⟩
    · have hne : m ≠ r.mode := fun he => not_covers_of_canUpgradeMode hc (he ▸ Mode.Covers.refl m)
      rw [if_neg hne,if_pos hc] at hstep
      exact hstep.2

theorem Alone.served_iff {t : TxnId} (rs : List Request) {held : LockId → Option Mode}
    {s : LockState} (h : Alone t held s) (hv : ∀ r ∈ rs, r.valid = true) :
    Served t s rs ↔ Climbs held rs := by
  induction rs generalizing held s with
  | nil => simp [Served,Climbs]
  | cons r rs ih =>
    have hr : r.valid = true := hv r (by simp)
    have hrest : ∀ q ∈ rs, q.valid = true := fun q hq => hv q (by simp [hq])
    constructor
    · intro hs
      exact ⟨(h.answered_iff hr).mp hs.1,(ih (h.next hr hs.1) hrest).mp hs.2⟩
    · intro hc
      have ha := (h.answered_iff hr).mpr hc.1
      exact ⟨ha,(ih (h.next hr ha) hrest).mpr hc.2⟩

/-- A lone transaction is served without a refusal if and only if on each
resource it only ever repeats its mode or takes a listed upgrade. -/
theorem alone_served_iff (t : TxnId) (rs : List Request) (hv : ∀ r ∈ rs, r.valid = true) :
    Served t LockState.initial rs ↔ Climbs (fun _ => none) rs :=
  (alone_initial t).served_iff rs hv

theorem alone_served_iff_write :
    Served 1 LockState.initial [.fetchPage 7,.fetchPageWrite 7] ↔
      Climbs (fun _ => none) [.fetchPage 7,.fetchPageWrite 7] :=
  alone_served_iff 1 [.fetchPage 7,.fetchPageWrite 7] (by decide)

/-- Reading a page after writing it is refused. -/
theorem not_served_read_after_write :
    ¬∀ t rs, (∀ r ∈ rs, Request.valid r = true) → Served t LockState.initial rs := by
  intro h
  have hs := h 1 [.fetchPageWrite 7,.fetchPage 7] (by decide)
  have hc := ((alone_initial 1).served_iff _ (by decide)).mp hs
  have hbad := hc.2.1 (.page .X) (by decide)
  revert hbad
  decide

end Lock
end OurSql
