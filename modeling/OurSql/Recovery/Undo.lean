import OurSql.Recovery.WellFormed

/-! The undo loop takes log numbers off one heap for all losers. It comes to undoing
the open records of the whole log from its end to its beginning. -/
namespace OurSql
namespace Recovery

open Crash Storage

/-- Undo the listed records one after the other. -/
def undoAll : List LogRecord → Progress → Prog Store (Result Progress)
  | [], pr => return .ok pr
  | r::rs, pr => do
    match ← undoRecord pr r with
    | .error e => return .error e
    | .ok pr => undoAll rs pr

/-- A record that some loser still has to undo. -/
def remains (loser : TxnId → Bool) (todo : TxnId → List LogRecord) (r : LogRecord) : Bool :=
  loser r.txnId && (todo r.txnId).any (·.lsn = r.lsn)

def openRecords (loser : TxnId → Bool) (w : List LogRecord) : List LogRecord :=
  w.filter (remains loser (undoStack w))

theorem top_mem {P : List (Lsn × TxnId)} {m : Lsn × TxnId} (h : top P = some m) : m ∈ P := by
  induction P with
  | nil => cases h
  | cons x xs ih =>
    rw [top] at h
    cases hx : top xs with
    | none =>
      rw [hx] at h
      exact Option.some.inj h ▸ List.mem_cons_self ..
    | some y =>
      simp only [hx] at h
      split at h
      · exact List.mem_cons_of_mem _ (ih (hx.trans h))
      · exact Option.some.inj h ▸ List.mem_cons_self ..

theorem top_eq {P : List (Lsn × TxnId)} {m : Lsn × TxnId} (hm : m ∈ P)
    (hmax : ∀ x ∈ P, x ≠ m → x.1 < m.1) : top P = some m := by
  induction P with
  | nil => cases hm
  | cons x xs ih =>
    have hself : pairLess m m = false := by simp [pairLess]
    by_cases hxs : m ∈ xs
    · have htop := ih hxs fun y hy => hmax y (by simp [hy])
      rw [top,htop]
      by_cases hx : x = m
      · simp [hx,hself]
      · simp [pairLess,hmax x (by simp) hx]
    · have hx : x = m := by
        rcases List.mem_cons.mp hm with h | h
        · exact h.symm
        · exact absurd h hxs
      subst hx
      cases htop : top xs with
      | none => simp [top,htop]
      | some y =>
        have hy : y ∈ xs := top_mem htop
        have hne : y ≠ x := fun h => hxs (h ▸ hy)
        have hlt : y.1 < x.1 := hmax y (by simp [hy]) hne
        have hnot : pairLess x y = false := by
          simp only [pairLess,Bool.or_eq_false_iff,decide_eq_false_iff_not,Bool.and_eq_false_iff]
          exact ⟨not_lt.mpr (le_of_lt hlt),.inl (Nat.ne_of_gt hlt)⟩
        simp [top,htop,hnot]

/-- The heap holds the next number of each loser that has one, and none of them lies
behind `a`, the part of the log still in front of the undo. -/
structure Heap (w : List LogRecord) (loser : TxnId → Bool) (todo : TxnId → List LogRecord)
    (a : List LogRecord) (u : UndoState) : Prop where
  leads : ∀ t, loser t = true → Leads w t (u.nextLsn t) (todo t)
  bound : ∀ t, loser t = true → u.nextLsn t ≤ appendLsnOf a
  nodup : u.pending.Nodup
  pending : ∀ x, x ∈ u.pending ↔ loser x.2 = true ∧ x.1 = u.nextLsn x.2 ∧ x.1 ≠ invalidLsn

section heap

variable {w a c : List LogRecord} {loser : TxnId → Bool} {todo : TxnId → List LogRecord}
  {u : UndoState} {r : LogRecord}

theorem eq_of_lsn_eq {s : LogRecord} (hl : Linked w) (hr : r ∈ w) (hs : s ∈ w)
    (h : r.lsn = s.lsn) : r = s := by
  obtain ⟨b,d,rfl⟩ := List.append_of_mem hr
  rcases List.mem_append.mp hs with hs | hs
  · exact absurd h (Nat.ne_of_gt (hl.lt hs))
  · rcases List.mem_cons.mp hs with hs | hs
    · exact hs.symm
    · have hlt := (List.pairwise_cons.mp (List.pairwise_append.mp hl.increasing).2.1).1 s hs
      exact absurd h (Nat.ne_of_lt hlt)

theorem recordsByLsn_eq (hl : Linked w) (hr : r ∈ w) : recordsByLsn w r.lsn = some r := by
  unfold recordsByLsn
  cases hf : w.find? (·.lsn = r.lsn) with
  | none => exact absurd (List.find?_eq_none.mp hf r hr) (by simp)
  | some s =>
    have hs : s.lsn = r.lsn := by simpa using List.find?_some hf
    rw [eq_of_lsn_eq hl (List.mem_of_find?_eq_some hf) hr hs]

/-- A smaller number than that of the record behind `a` lies in `a`. -/
theorem le_appendLsnOf_of_lt {s : LogRecord} (hl : Linked w) (hw : w = a ++ r :: c) (hs : s ∈ w)
    (h : s.lsn < r.lsn) : s ∈ a ∧ s.lsn ≤ appendLsnOf a := by
  have hla : Linked (a ++ r :: c) := hw ▸ hl
  have hsa : s ∈ a := by
    rw [hw] at hs
    rcases List.mem_append.mp hs with hs | hs
    · exact hs
    rcases List.mem_cons.mp hs with hs | hs
    · rw [hs] at h
      exact absurd h (lt_irrefl _)
    · have hlt := (List.pairwise_cons.mp (List.pairwise_append.mp hla.increasing).2.1).1 s hs
      exact absurd h (not_lt.mpr (le_of_lt hlt))
  exact ⟨hsa,le_appendLsnOf hsa⟩

theorem Leads.le_appendLsnOf {t : TxnId} {l : Lsn} {stack : List LogRecord} (hl : Linked w)
    (hw : w = a ++ r :: c) (h : Leads w t l stack) (hlt : l < r.lsn) : l ≤ appendLsnOf a := by
  by_cases hz : l = invalidLsn
  · rw [hz]
    exact Nat.zero_le _
  · obtain ⟨s,hs,-,hsl⟩ := h.le hz
    exact hsl ▸ (le_appendLsnOf_of_lt hl hw hs (hsl ▸ hlt)).2

/-- Only the transaction of a record can be about to look at it. -/
theorem Heap.next_le (hl : Linked w) (hw : w = a ++ r :: c) (h : Heap w loser todo (a ++ [r]) u)
    {t : TxnId} (ht : loser t = true) (hne : ¬(t = r.txnId ∧ u.nextLsn t = r.lsn)) :
    u.nextLsn t < r.lsn ∧ u.nextLsn t ≤ appendLsnOf a := by
  have hr : r ∈ w := by simp [hw]
  have hla : Linked (a ++ r :: c) := hw ▸ hl
  have hlt : u.nextLsn t < r.lsn := by
    have hb := h.bound t ht
    rw [appendLsnOf_append,max_eq_right (le_of_lt hla.appendLsnOf_lt)] at hb
    refine lt_of_le_of_ne hb fun he => hne ?_
    have hpos : u.nextLsn t ≠ invalidLsn := by
      rw [he]
      exact Nat.pos_iff_ne_zero.mp (hl.positive r hr)
    obtain ⟨s,hs,hst,hsl⟩ := (h.leads t ht).le hpos
    have hsr : s = r := eq_of_lsn_eq hl hs hr (hsl.trans he)
    exact ⟨by rw [← hst,hsr],he⟩
  exact ⟨hlt,(h.leads t ht).le_appendLsnOf hl hw hlt⟩

/-- Nothing is left of a record that its loser does not look at. -/
theorem Heap.skip (hl : Linked w) (hw : w = a ++ r :: c) (h : Heap w loser todo (a ++ [r]) u)
    (hskip : ¬(loser r.txnId = true ∧ u.nextLsn r.txnId = r.lsn)) :
    Heap w loser todo a u ∧ remains loser todo r = false := by
  have hne : ∀ t, loser t = true → ¬(t = r.txnId ∧ u.nextLsn t = r.lsn) := by
    rintro t ht ⟨rfl,he⟩
    exact hskip ⟨ht,he⟩
  refine ⟨⟨h.leads,fun t ht => (h.next_le hl hw ht (hne t ht)).2,h.nodup,h.pending⟩,?_⟩
  by_contra hrem
  simp only [remains,Bool.not_eq_false,Bool.and_eq_true,List.any_eq_true,decide_eq_true_eq] at hrem
  obtain ⟨ht,s,hs,hsl⟩ := hrem
  have hsle := ((h.leads _ ht).mem hs).2.2.2
  exact absurd (h.next_le hl hw ht (hne _ ht)).1 (not_lt.mpr (hsl ▸ hsle))

theorem Heap.top (hl : Linked w) (hw : w = a ++ r :: c) (h : Heap w loser todo (a ++ [r]) u)
    (ht : loser r.txnId = true) (hn : u.nextLsn r.txnId = r.lsn) :
    top u.pending = some (r.lsn,r.txnId) := by
  have hr : r ∈ w := by simp [hw]
  have hpos : r.lsn ≠ invalidLsn := Nat.pos_iff_ne_zero.mp (hl.positive r hr)
  refine top_eq ((h.pending _).mpr ⟨ht,hn.symm,hpos⟩) ?_
  intro x hx hne
  obtain ⟨hxt,hxn,-⟩ := (h.pending x).mp hx
  rw [hxn]
  refine (h.next_le hl hw hxt fun ⟨he,hxr⟩ => hne ?_).1
  exact Prod.ext (hxn.trans hxr) he

/-- The loop goes on with the following number of the transaction it looked at. -/
theorem Heap.follow (hl : Linked w) (hw : w = a ++ r :: c) (h : Heap w loser todo (a ++ [r]) u)
    (ht : loser r.txnId = true) (hn : u.nextLsn r.txnId = r.lsn) {following : Lsn}
    {stack : List LogRecord} (hf : Leads w r.txnId following stack) (hlt : following < r.lsn)
    (pr : Progress) :
    Heap w loser (Function.update todo r.txnId stack) a
      (({ u with pending := u.pending.erase (r.lsn,r.txnId), progress := pr } : UndoState).follow
        r.txnId following) where
  leads t ht' := by
    by_cases he : t = r.txnId
    · subst he
      simpa [UndoState.follow] using hf
    · simpa [UndoState.follow,he] using h.leads t ht'
  bound t ht' := by
    by_cases he : t = r.txnId
    · subst he
      simpa [UndoState.follow] using hf.le_appendLsnOf hl hw hlt
    · simpa [UndoState.follow,he] using (h.next_le hl hw ht' fun hx => he hx.1).2
  nodup := by
    have hout : ∀ l, (l,r.txnId) ∉ u.pending.erase (r.lsn,r.txnId) := by
      intro l hm
      obtain ⟨hne,hmem⟩ := (h.nodup.mem_erase_iff).mp hm
      obtain ⟨-,hl',-⟩ := (h.pending _).mp hmem
      exact hne (Prod.ext (hl'.trans hn) rfl)
    simp only [UndoState.follow]
    split
    · exact h.nodup.erase _
    · exact List.nodup_cons.mpr ⟨hout following,h.nodup.erase _⟩
  pending x := by
    have herase : x ∈ u.pending.erase (r.lsn,r.txnId) ↔
        loser x.2 = true ∧ x.2 ≠ r.txnId ∧ x.1 = u.nextLsn x.2 ∧ x.1 ≠ invalidLsn := by
      rw [h.nodup.mem_erase_iff,h.pending]
      constructor
      · rintro ⟨hne,hx,hxn,hz⟩
        refine ⟨hx,fun he => hne ?_,hxn,hz⟩
        exact Prod.ext (by rw [hxn,he,hn]) he
      · rintro ⟨hx,hne,hxn,hz⟩
        exact ⟨fun he => hne (by rw [he]),hx,hxn,hz⟩
    have hmem : x ∈ ((if following = invalidLsn then u.pending.erase (r.lsn,r.txnId)
        else (following,r.txnId) :: u.pending.erase (r.lsn,r.txnId)) : List (Lsn × TxnId)) ↔
        x ∈ u.pending.erase (r.lsn,r.txnId) ∨ following ≠ invalidLsn ∧ x = (following,r.txnId) := by
      by_cases hz : following = invalidLsn
      · simp [hz]
      · simp only [if_neg hz,List.mem_cons]
        tauto
    simp only [UndoState.follow]
    rw [hmem,herase]
    by_cases he : x.2 = r.txnId
    · rw [he,Function.update_self]
      constructor
      · rintro (⟨-,hne,-⟩ | ⟨hz,rfl⟩)
        · exact absurd rfl hne
        · exact ⟨ht,rfl,hz⟩
      · rintro ⟨-,hx,hz⟩
        exact .inr ⟨hx ▸ hz,Prod.ext hx he⟩
    · rw [Function.update_of_ne he]
      constructor
      · rintro (⟨hx,-,hxn,hz⟩ | ⟨-,rfl⟩)
        · exact ⟨hx,hxn,hz⟩
        · exact absurd rfl he
      · rintro ⟨hx,hxn,hz⟩
        exact .inl ⟨hx,he,hxn,hz⟩

theorem remains_update {following : List LogRecord} {x : LogRecord}
    (h : x.txnId = r.txnId → ((todo r.txnId).any (·.lsn = x.lsn) ↔ following.any (·.lsn = x.lsn))) :
    remains loser (Function.update todo r.txnId following) x = remains loser todo x := by
  unfold remains
  by_cases hx : x.txnId = r.txnId
  · rw [hx,Function.update_self]
    exact congrArg _ (Bool.eq_iff_iff.mpr (h hx)).symm
  · rw [Function.update_of_ne hx]

/-- A record that is not undone itself is no open record. -/
theorem Heap.remains_eq_false (hl : Linked w) (hw : w = a ++ r :: c)
    (h : Heap w loser todo (a ++ [r]) u) (hu : isUndoable r = false) :
    remains loser todo r = false := by
  by_contra hrem
  simp only [remains,Bool.not_eq_false,Bool.and_eq_true,List.any_eq_true,decide_eq_true_eq] at hrem
  obtain ⟨ht,s,hs,hsl⟩ := hrem
  obtain ⟨hsw,-,hsu,-⟩ := (h.leads _ ht).mem hs
  have hsr : s = r := eq_of_lsn_eq hl hsw (by simp [hw]) hsl
  rw [hsr,hu] at hsu
  cases hsu

/-- The heap loop undoes the open records of the log from its end to its beginning. -/
theorem undoLoop_eq (hl : Linked w) (hc : Compensated w)
    (hpos : ∀ t, loser t = true → t ≠ invalidTxnId) (fuel : ℕ) (hw : w = a ++ c)
    (h : Heap w loser todo a u) (hfuel : a.length < fuel) :
    undoLoop w fuel u =
      undoAll (a.filter (remains loser todo)).reverse u.progress := by
  induction a using List.reverseRecOn generalizing c u todo fuel with
  | nil =>
    obtain ⟨fuel,rfl⟩ : ∃ k, fuel = k+1 := ⟨fuel-1,by simp at hfuel; omega⟩
    have hempty : u.pending = [] := by
      refine List.eq_nil_iff_forall_not_mem.mpr fun x hx => ?_
      obtain ⟨hx,hxn,hz⟩ := (h.pending x).mp hx
      have hb := h.bound x.2 hx
      exact hz (hxn.trans (Nat.le_zero.mp hb))
    rw [undoLoop,hempty]
    rfl
  | append_singleton a r ih =>
    obtain ⟨fuel,rfl⟩ : ∃ k, fuel = k+1 := ⟨fuel-1,by simp at hfuel; omega⟩
    have hwr : w = a ++ r :: c := by rw [hw]; simp
    have hlen : a.length < fuel := by simp at hfuel; omega
    by_cases hlook : loser r.txnId = true ∧ u.nextLsn r.txnId = r.lsn
    · obtain ⟨ht,hn⟩ := hlook
      have hr : r ∈ w := by simp [hwr]
      have hz : u.nextLsn r.txnId ≠ invalidLsn := by
        rw [hn]
        exact Nat.pos_iff_ne_zero.mp (hl.positive r hr)
      obtain ⟨b,x,d,hbx,hxl,-,hcomp,hundo,hneutral,hprev⟩ :=
        (h.leads _ ht).turn hl hc (hpos _ ht) hz
      have hxr : x = r := eq_of_lsn_eq hl (by simp [hbx]) hr (hxl.trans hn)
      subst hxr
      -- one turn takes `x` off the heap and finds its record
      rw [undoLoop,h.top hl hwr ht hn]
      simp only [hn,ne_eq,not_true_eq_false,if_false,recordsByLsn_eq hl hr]
      by_cases hxc : x.type = .compensation
      · have hxu : isUndoable x = false := by simp [isUndoable,hxc]
        obtain ⟨hleads,hlt⟩ := hcomp hxc
        rw [if_pos hxc,ih fuel hwr (h.follow hl hwr ht hn hleads hlt u.progress) hlen,
          Function.update_eq_self,List.filter_append,
          List.filter_cons_of_neg (by simp [h.remains_eq_false hl hwr hxu]),List.filter_nil,
          List.append_nil]
        rfl
      rw [if_neg hxc]
      by_cases hxu : isUndoable x = true
      · obtain ⟨rest,hstack,hleads⟩ := hundo hxu
        have hrem : remains loser todo x = true := by simp [remains,ht,hstack]
        have hfilter : a.filter (remains loser (Function.update todo x.txnId rest)) =
            a.filter (remains loser todo) := by
          refine List.filter_congr fun y hy => remains_update fun _ => ?_
          have hne : x.lsn ≠ y.lsn := Nat.ne_of_gt ((hwr ▸ hl : Linked (a ++ x :: c)).lt hy)
          simp [hstack,hne]
        rw [if_pos hxu,List.filter_append,List.filter_cons_of_pos hrem,List.filter_nil,
          List.reverse_append,List.reverse_singleton,List.singleton_append,undoAll]
        congr 1
        funext res
        cases res with
        | error e => rfl
        | ok pr =>
          simp only
          rw [ih fuel hwr (h.follow hl hwr ht hn hleads hprev pr) hlen,hfilter]
          rfl
      · have hxu' : isUndoable x = false := by simpa using hxu
        have hleads := hneutral hxc hxu'
        rw [if_neg hxu,ih fuel hwr (h.follow hl hwr ht hn hleads hprev u.progress) hlen,
          Function.update_eq_self,List.filter_append,
          List.filter_cons_of_neg (by simp [h.remains_eq_false hl hwr hxu']),List.filter_nil,
          List.append_nil]
        rfl
    · obtain ⟨hskip,hrem⟩ := h.skip hl hwr hlook
      rw [List.filter_append,List.filter_cons_of_neg (by simp [hrem]),List.filter_nil,
        List.append_nil]
      exact ih (fuel+1) hwr hskip (by omega)

end heap

/-- A visit of a hash set meets each element once. -/
def IsOrder (order : List TxnId → List TxnId) : Prop := ∀ ts, (order ts).Perm ts

section start

variable {w : List LogRecord} {order : List TxnId → List TxnId}

theorem losersOf_nodup (ho : IsOrder order) : (losersOf order w).Nodup :=
  (ho _).nodup_iff.mpr ((List.nodup_dedup _).filter _)

theorem mem_losersOf (ho : IsOrder order) (t : TxnId) :
    t ∈ losersOf order w ↔ isLoser (analyze w) t = true := by
  rw [losersOf,(ho _).mem_iff,List.mem_filter]
  constructor
  · exact fun h => h.2
  · intro h
    obtain ⟨ht,⟨r,hr,hrt⟩,-⟩ := (isLoser_iff t).mp h
    refine ⟨?_,h⟩
    simp only [transactionIds,List.mem_dedup,List.mem_filter,List.mem_map,decide_eq_true_eq]
    exact ⟨⟨r,hr,hrt⟩,ht⟩

theorem heap_start (ho : IsOrder order) :
    Heap w (isLoser (analyze w)) (undoStack w) w
      (startUndo (analyze w) (losersOf order w)) := by
  have hmem := mem_losersOf (w := w) ho
  have hnext : ∀ t, isLoser (analyze w) t = true →
      (startUndo (analyze w) (losersOf order w)).nextLsn t = lastLsnOf w t := by
    intro t ht
    simp only [startUndo,(hmem t).mpr ht,if_true]
    exact analyze_lastLsn ((isLoser_iff t).mp ht)
  refine ⟨fun t ht => ?_,fun t ht => ?_,?_,fun x => ?_⟩
  · rw [hnext t ht]
    exact leads_start w t
  · rw [hnext t ht]
    exact lastLsnOf_le_appendLsnOf w t
  · refine List.Nodup.map ?_ ((losersOf_nodup ho).filter _)
    intro t t' he
    exact congrArg Prod.snd he
  · simp only [startUndo,List.mem_map,List.mem_filter,decide_eq_true_eq]
    constructor
    · rintro ⟨t,⟨ht,hz⟩,rfl⟩
      exact ⟨(hmem t).mp ht,by simp [ht],hz⟩
    · rintro ⟨ht,hx,hz⟩
      have hin := (hmem x.2).mpr ht
      rw [if_pos hin] at hx
      exact ⟨x.2,⟨hin,hx ▸ hz⟩,Prod.ext hx.symm rfl⟩

/-- The undo phase of `Recover`, without the heap. -/
theorem undo_eq (ho : IsOrder order) (hl : Linked w) (hc : Compensated w) :
    undoLoop w (w.length+1) (startUndo (analyze w) (losersOf order w)) =
      undoAll (openRecords (isLoser (analyze w)) w).reverse
        (startUndo (analyze w) (losersOf order w)).progress := by
  have hpos : ∀ t, isLoser (analyze w) t = true → t ≠ invalidTxnId :=
    fun t ht => ((isLoser_iff t).mp ht).1
  exact undoLoop_eq (c := []) hl hc hpos _ (by simp)
    (heap_start ho) (Nat.lt_succ_self _)

end start

end Recovery
end OurSql
