import OurSql.Lock.Deadlock

/-! The victim of deadlock detection against what `CanGrant` refuses: whether the cycle that the
search finds is one of transactions that cannot go on. -/
namespace OurSql
namespace Lock

open Transition

/-- `CanGrant` does not grant the request `r` at position `i` because of `o` at position `j`. -/
def Refuses (i : ℕ) (r : LockRequest) (j : ℕ) (o : LockRequest) : Prop :=
  j < i ∧ isWaiting o = true ∨ o.granted = true ∧ requestConflicts r o = true

theorem canGrant_eq_false_iff {q : LockRequestQueue} {i : ℕ} {r : LockRequest} :
    canGrant q i r = false ↔
      ∃ j o, q[j]? = some o ∧ o.txnId ≠ r.txnId ∧ Refuses i r j o := by
  unfold canGrant Refuses
  rw [Bool.and_eq_false_iff,List.all_eq_false,List.all_eq_false]
  simp only [Bool.or_eq_true,decide_eq_true_eq,Bool.not_eq_true',not_or,Bool.not_eq_false]
  constructor
  · rintro (⟨o,ho,hne,hw⟩ | ⟨o,ho,⟨hne,hg⟩,hc⟩)
    · obtain ⟨j,hj,rfl⟩ := List.mem_iff_getElem.mp ho
      obtain ⟨hji,hlen⟩ := Nat.lt_min.mp (List.length_take ▸ hj)
      rw [List.getElem_take] at hne hw
      exact ⟨j,(q[j]),List.getElem?_eq_getElem hlen,hne,.inl ⟨hji,hw⟩⟩
    · obtain ⟨j,hj⟩ := List.mem_iff_getElem?.mp ho
      exact ⟨j,o,hj,hne,.inr ⟨hg,hc⟩⟩
  · rintro ⟨j,o,hj,hne,⟨hji,hw⟩ | ⟨hg,hc⟩⟩
    · have htake : (q.take i)[j]? = some o := (List.getElem?_take_of_lt hji).trans hj
      exact .inl ⟨o,List.mem_of_getElem? htake,hne,hw⟩
    · exact .inr ⟨o,List.mem_of_getElem? hj,⟨hne,hg⟩,hc⟩

/-- `t` has a waiting request that `CanGrant` refuses because of a request of `u`. -/
def RefusedBy (s : LockState) (t u : TxnId) : Prop :=
  ∃ (l : LockId) (i j : ℕ) (r o : LockRequest), (s.queues l)[i]? = some r ∧
    (s.queues l)[j]? = some o ∧ r.txnId = t ∧ o.txnId = u ∧ u ≠ t ∧ isWaiting r = true ∧
    Refuses i r j o

/-- Where a cancelled request stands in front of a conflicting one, its owner does not wait for
the owner of that one, neither directly nor through others. -/
def CancelledHarmless (s : LockState) : Prop :=
  ∀ (l : LockId) (i j : ℕ) (r o : LockRequest), (s.queues l)[i]? = some r →
    (s.queues l)[j]? = some o → j < i → isWaiting r = true → s.txnState r.txnId = .active →
    requestConflicts r o = true → o.cancelled = true →
    ¬Relation.TransGen (WaitsFor s) o.txnId r.txnId

/-- It is so as long as no transaction waits while a cancelled call of it has not returned. -/
theorem cancelledHarmless_of_returned {s : LockState}
    (h : ∀ l, ∀ o ∈ s.queues l, o.cancelled = true →
      ∀ k, ∀ r ∈ s.queues k, r.txnId = o.txnId → isWaiting r = false) :
    CancelledHarmless s := by
  intro l i j r o _ ho _ _ _ _ hc hwait
  obtain ⟨u,hu,-⟩ := Relation.TransGen.head'_iff.mp hwait
  obtain ⟨k,i',-,r',-,hr',-,hrt,-,-,hw,-⟩ := hu.request
  have hidle := h l o (List.mem_of_getElem? ho) hc k r' (List.mem_of_getElem? hr') hrt
  exact absurd hw (by simp [hidle])

/-- A wait that leads back to where it starts is one that `CanGrant` sees. -/
theorem WaitsFor.refusedBy {s : LockState} {t u : TxnId} (hc : CancelledHarmless s)
    (h : WaitsFor s t u) (hback : Relation.TransGen (WaitsFor s) u t) : RefusedBy s t u := by
  obtain ⟨hactive,l,i,j,r,o,hi,hj,rfl,rfl,hne,hw,hcon,hor⟩ := h
  refine ⟨l,i,j,r,o,hi,hj,rfl,rfl,hne,hw,?_⟩
  cases hg : o.granted with
  | true => exact .inr ⟨hg,hcon⟩
  | false =>
    have hji : j < i := hor.resolve_left (by simp [hg])
    refine .inl ⟨hji,?_⟩
    cases ho : o.cancelled with
    | true => exact absurd hback (hc l i j r o hi hj hji hw hactive hcon ho)
    | false => simp [isWaiting,hg,ho]

theorem chain_refusedBy {s : LockState} {c : Cycle TxnId} (hc : CancelledHarmless s)
    (h : c.Chain (WaitsFor s)) : c.Chain (RefusedBy s) := by
  have htrans : c.Chain (Relation.TransGen (WaitsFor s)) := h.imp fun _ _ => .single
  have hback : ∀ a ∈ c, ∀ b ∈ c, Relation.TransGen (WaitsFor s) a b :=
    Cycle.chain_iff_pairwise.mp htrans
  induction c using Cycle.induction_on with
  | nil => exact Cycle.Chain.nil _
  | cons a l _ =>
    have hmem : ∀ x ∈ a::(l ++ [a]), x ∈ (↑(a::l) : Cycle TxnId) := by
      intro x hx
      simpa [or_comm,or_assoc] using hx
    rw [Cycle.chain_coe_cons] at h ⊢
    exact h.imp_of_mem_imp fun x y hx hy hxy =>
      hxy.refusedBy hc (hback y (hmem y hy) x (hmem x hx))

/-- At most one request of a transaction waits. -/
def OneWaiting (s : LockState) : Prop :=
  ∀ l k, ∀ r ∈ s.queues l, ∀ o ∈ s.queues k, isWaiting r = true → isWaiting o = true →
    r.txnId = o.txnId → l = k ∧ r = o

/-- 3 has page 1 and 1 has page 2. 2 and then 1 wait for page 1. The request of 2 is cancelled,
and before that call returns, 2 waits for page 2. -/
def cancelledRun : List Action :=
  let lock := fun (t : TxnId) (p : PageId) =>
    [Action.call ⟨t,.page p,.page .X⟩,.enter ⟨t,.page p,.page .X⟩]
  lock 3 1 ++ lock 1 2 ++ lock 2 1 ++ lock 1 1 ++ [.unlock 2 (.page 1)] ++ lock 2 2

def cancelledCall : System := (exec System.next .initial cancelledRun).get rfl

def twoPages : List LockId := [.page 1,.page 2]

theorem mem_twoPages (l : LockId) (hl : cancelledCall.lm.queues l ≠ []) : l ∈ twoPages := by
  by_contra hn
  exact hl (exec_elsewhere twoPages hn (by decide) rfl (Option.some_get _).symm)

def waitingFor (t : TxnId) : LockRequest := LockRequest.new t (.page .X)

def holding (t : TxnId) : LockRequest := { waitingFor t with granted := true }

theorem queue_one : cancelledCall.lm.queues (.page 1) =
    [holding 3,(waitingFor 2).cancel,waitingFor 1] := by decide

theorem queue_two : cancelledCall.lm.queues (.page 2) = [holding 1,waitingFor 2] := by decide

theorem waiting_cancelledCall {l : LockId} {r : LockRequest}
    (hr : r ∈ cancelledCall.lm.queues l) (hw : isWaiting r = true) :
    l = .page 1 ∧ r = waitingFor 1 ∨ l = .page 2 ∧ r = waitingFor 2 := by
  have hl := mem_twoPages l (List.ne_nil_of_mem hr)
  simp only [twoPages,List.mem_cons,List.not_mem_nil,or_false] at hl
  rcases hl with rfl | rfl
  · rw [queue_one] at hr
    simp only [List.mem_cons,List.not_mem_nil,or_false] at hr
    rcases hr with rfl | rfl | rfl
    · cases hw
    · cases hw
    · exact .inl ⟨rfl,rfl⟩
  · rw [queue_two] at hr
    simp only [List.mem_cons,List.not_mem_nil,or_false] at hr
    rcases hr with rfl | rfl
    · cases hw
    · exact .inr ⟨rfl,rfl⟩

theorem oneWaiting_cancelledCall : OneWaiting cancelledCall.lm := by
  intro l k r hr o ho hrw how he
  rcases waiting_cancelledCall hr hrw with ⟨rfl,rfl⟩ | ⟨rfl,rfl⟩ <;>
    rcases waiting_cancelledCall ho how with ⟨rfl,rfl⟩ | ⟨rfl,rfl⟩
  · exact ⟨rfl,rfl⟩
  · cases he
  · cases he
  · exact ⟨rfl,rfl⟩

/-- `CanGrant` refuses 1 because of 3 and 2 because of 1, and that is all. -/
theorem refusedBy_cancelledCall {t u : TxnId} (h : RefusedBy cancelledCall.lm t u) :
    t = 1 ∧ u = 3 ∨ t = 2 ∧ u = 1 := by
  obtain ⟨l,i,j,r,o,hi,hj,rfl,rfl,hne,hw,href⟩ := h
  have ho := List.mem_of_getElem? hj
  rcases waiting_cancelledCall (List.mem_of_getElem? hi) hw with ⟨rfl,rfl⟩ | ⟨rfl,rfl⟩
  · rw [queue_one] at ho
    simp only [List.mem_cons,List.not_mem_nil,or_false] at ho
    rcases ho with rfl | rfl | rfl
    · exact .inl ⟨rfl,rfl⟩
    · -- neither waiting nor granted
      rcases href with ⟨-,hwait⟩ | ⟨hgranted,-⟩
      · cases hwait
      · cases hgranted
    · exact absurd rfl hne
  · rw [queue_two] at ho
    simp only [List.mem_cons,List.not_mem_nil,or_false] at ho
    rcases ho with rfl | rfl
    · exact .inr ⟨rfl,rfl⟩
    · exact absurd rfl hne

end Lock
end OurSql
