import OurSql.Lock.Compatibility
import Mathlib.Data.Set.Basic
import Mathlib.Data.Finset.Card
import Mathlib.Data.List.Chain
import Mathlib.Data.List.Cycle

/-! Deadlock detection. The search colours the transactions that wait on one
another; it finds a victim whenever there is a set each of whose members waits
for a conflicting request of another member, and the victim is in such a set. -/
namespace OurSql
namespace Lock

open Transition

/-- `t` waits for `u` by the rule of the wait-for graph: a conflicting request
that is granted or stands in front. -/
structure WaitsFor (s : LockState) (t u : TxnId) : Prop where
  active : s.txnState t = .active
  request : ∃ (l : LockId) (i j : ℕ) (r o : LockRequest), (s.queues l)[i]? = some r ∧ (s.queues l)[j]? = some o ∧
    r.txnId = t ∧ o.txnId = u ∧ u ≠ t ∧ isWaiting r = true ∧
    requestConflicts r o = true ∧ (o.granted = true ∨ j < i)

/-- A set of transactions none of which can go on before another one does. -/
structure SelfBlocking (wait : TxnId → TxnId → Prop) (S : Set TxnId) : Prop where
  nonempty : S.Nonempty
  blocked : ∀ t ∈ S, ∃ u ∈ S, wait t u

def Deadlocked (s : LockState) (S : Set TxnId) : Prop := SelfBlocking (WaitsFor s) S

section Search

variable {graph : List (TxnId × List TxnId)} {S : Set TxnId} {U : Finset TxnId}

def Edge (graph : List (TxnId × List TxnId)) (t u : TxnId) : Prop := u ∈ successors graph t

def whites (U : Finset TxnId) (st : Search) : ℕ := (U.filter (st.color · = 0)).card

/-- The colours and the path a search starts from. -/
structure SearchOk (st : Search) : Prop where
  colors : ∀ x, st.color x ≤ 2
  gray : ∀ x, st.color x = 1 → x ∈ st.path

/-- No transaction of the set has been given up as harmless. -/
def NoneBlack (S : Set TxnId) (st : Search) : Prop := ∀ x ∈ S, st.color x ≠ 2

/-- What a search without a victim leaves behind. -/
structure Searched (S : Set TxnId) (st st' : Search) : Prop where
  keeps : ∀ x, st.color x ≠ 0 → st'.color x = st.color x
  gray : ∀ x, st'.color x = 1 → st.color x = 1
  colors : ∀ x, st'.color x ≤ 2
  path : st'.path = st.path
  none : NoneBlack S st → NoneBlack S st'

theorem Searched.refl {st : Search} (h : SearchOk st) : Searched S st st :=
  ⟨fun _ _ => rfl,fun _ h => h,h.colors,rfl,fun h => h⟩

theorem Searched.trans {st₁ st₂ st₃ : Search} (h : Searched S st₁ st₂) (h' : Searched S st₂ st₃) :
    Searched S st₁ st₃ where
  keeps x hx := by
    have h2 : st₂.color x = st₁.color x := h.keeps x hx
    rw [h'.keeps x (by rw [h2]; exact hx),h2]
  gray x hx := h.gray x (h'.gray x hx)
  colors := h'.colors
  path := h'.path.trans h.path
  none hn := h'.none (h.none hn)

theorem Searched.ok {st st' : Search} (h : Searched S st st') (hok : SearchOk st) : SearchOk st' :=
  ⟨h.colors,fun x hx => h.path ▸ hok.gray x (h.gray x hx)⟩

theorem Searched.whites_le {st st' : Search} (h : Searched S st st') :
    whites U st' ≤ whites U st := by
  refine Finset.card_le_card fun x hx => ?_
  simp only [Finset.mem_filter] at hx ⊢
  refine ⟨hx.1,?_⟩
  by_contra hne
  exact hne ((h.keeps x hne).symm.trans hx.2)

/-- Colouring a white node leaves fewer white ones. -/
theorem whites_lt {st : Search} {node : TxnId} {p : List TxnId} (hU : node ∈ U)
    (hw : st.color node = 0) : whites U ⟨Function.update st.color node 1,p⟩ < whites U st := by
  refine Finset.card_lt_card ⟨fun x hx => ?_,fun hsub => ?_⟩
  · simp only [Finset.mem_filter] at hx ⊢
    by_cases he : x = node
    · subst he
      exact ⟨hx.1,hw⟩
    · exact ⟨hx.1,by simpa [he] using hx.2⟩
  · have hin := hsub (Finset.mem_filter.mpr ⟨hU,hw⟩)
    simp at hin

/-- The loop over the successors, given what the recursive call does. -/
theorem visitEach_none {next : Search → TxnId → Option TxnId × Search} {b : ℕ}
    (hnext : ∀ st node st', next st node = (none,st') → SearchOk st → st.color node = 0 →
      node ∈ U → whites U st ≤ b → Searched S st st' ∧ st'.color node = 2)
    {ys : List TxnId} {st st' : Search} (h : visitEach next ys st = (none,st')) (hok : SearchOk st)
    (hU : ∀ y ∈ ys, y ∈ U) (hb : whites U st ≤ b) :
    Searched S st st' ∧ ∀ y ∈ ys, st'.color y = 2 := by
  induction ys generalizing st with
  | nil =>
    have he : st = st' := by simpa [visitEach] using h
    subst he
    exact ⟨.refl hok,by simp⟩
  | cons y ys ih =>
    simp only [visitEach] at h
    generalize hr : (if st.color y = 0 then next st y else (none,st)) = r at h
    split at h
    · simp at h
    rename_i hnone
    split at h
    · simp at h
    rename_i hno
    -- the successor itself first
    have hfirst : Searched S st r.2 ∧ r.2.color y ≠ 0 := by
      by_cases hw : st.color y = 0
      · rw [if_pos hw] at hr
        have hpair : next st y = (none,r.2) := by rw [hr,← hnone]
        obtain ⟨hs,hc⟩ := hnext st y r.2 hpair hok hw (hU y (by simp)) hb
        exact ⟨hs,by simp [hc]⟩
      · rw [if_neg hw] at hr
        subst hr
        exact ⟨.refl hok,hw⟩
    obtain ⟨hs,hnz⟩ := hfirst
    obtain ⟨hrest,hall⟩ := ih h (hs.ok hok) (fun z hz => hU z (by simp [hz]))
      (hs.whites_le.trans hb)
    refine ⟨hs.trans hrest,?_⟩
    intro z hz
    rcases List.mem_cons.mp hz with rfl | hz
    · have hle : r.2.color z ≤ 2 := hs.colors z
      rw [hrest.keeps z hnz]
      omega
    · exact hall z hz

/-- The state in which the loop over the successors of a white node starts. -/
theorem SearchOk.enter {st : Search} {node : TxnId} (hok : SearchOk st) :
    SearchOk ⟨Function.update st.color node 1,st.path ++ [node]⟩ := by
  constructor
  · intro x
    by_cases hx : x = node
    · simp [hx]
    · simpa [hx] using hok.colors x
  · intro x hx
    by_cases he : x = node
    · simp [he]
    · have hx' : st.color x = 1 := by simpa [he] using hx
      simp [hok.gray x hx']

theorem visit_none (hS : ∀ t ∈ S, ∃ u ∈ S, Edge graph t u)
    (hU : ∀ t u, Edge graph t u → u ∈ U) (fuel : ℕ) {st st' : Search} {node : TxnId}
    (h : visit graph fuel st node = (none,st')) (hok : SearchOk st) (hw : st.color node = 0)
    (hn : node ∈ U) (hb : whites U st ≤ fuel) : Searched S st st' ∧ st'.color node = 2 := by
  induction fuel generalizing st st' node with
  | zero =>
    -- a white node left means fuel left
    have hpos : 0 < whites U st := Finset.card_pos.mpr ⟨node,Finset.mem_filter.mpr ⟨hn,hw⟩⟩
    omega
  | succ fuel ih =>
    have hlt := whites_lt (p := st.path ++ [node]) hn hw
    simp only [visit] at h
    split at h
    · simp at h
    rename_i hnone
    obtain ⟨-,rfl⟩ := Prod.mk.inj h
    have heach : visitEach (visit graph fuel) (successors graph node)
        ⟨Function.update st.color node 1,st.path ++ [node]⟩ = (none,_) :=
      Prod.ext hnone rfl
    obtain ⟨hs,hall⟩ := visitEach_none (S := S) (U := U) (b := fuel)
      (fun st node st' h hok hw hn hb => ih h hok hw hn hb) heach hok.enter
      (fun y hy => hU node y hy) (by omega)
    refine ⟨⟨?_,?_,?_,?_,?_⟩,by simp⟩
    · intro x hx
      have hne : x ≠ node := fun he => hx (he ▸ hw)
      have hk := hs.keeps x (by simpa [hne] using hx)
      simpa [hne] using hk
    · intro x hx
      by_cases hne : x = node
      · simp [hne] at hx
      · have hx' := hs.gray x (by simpa [hne] using hx)
        simpa [hne] using hx'
    · intro x
      by_cases hne : x = node
      · simp [hne]
      · simpa [hne] using hs.colors x
    · simp [hs.path]
    · intro hnb
      have hnb1 : NoneBlack S ⟨Function.update st.color node 1,st.path ++ [node]⟩ := by
        intro x hx
        by_cases hne : x = node
        · simp [hne]
        · simpa [hne] using hnb x hx
      have hnb2 := hs.none hnb1
      intro x hx
      by_cases hne : x = node
      · -- a member turns black only with a black member among its successors
        subst hne
        obtain ⟨u,hu,he⟩ := hS x hx
        exact absurd (hall u he) (hnb2 u hu)
      · simpa [hne] using hnb2 x hx

/-- A closed walk: each member of the list has a successor in it. -/
theorem successor_of_isChain {R : TxnId → TxnId → Prop} {ys : List TxnId} {z : TxnId}
    (h : List.IsChain R (ys ++ [z])) (hz : z ∈ ys) : ∀ x ∈ ys, ∃ y ∈ ys, R x y := by
  intro x hx
  obtain ⟨a,b,rfl⟩ := List.append_of_mem hx
  have hc : List.IsChain R (x::(b ++ [z])) := by
    have hc' : List.IsChain R (a ++ x::(b ++ [z])) := by simpa using h
    exact hc'.right_of_append
  cases b with
  | nil =>
    have hxz : R x z := by simpa using hc
    exact ⟨z,hz,hxz⟩
  | cons y b =>
    have hxy : R x y := (List.isChain_cons_cons.mp hc).1
    exact ⟨y,by simp,hxy⟩

theorem foldl_max_mem {ys : List TxnId} (h : ys ≠ []) : ys.foldl max 0 ∈ ys := by
  have hgen : ∀ (ys : List TxnId) (m : ℕ), ys.foldl max m = m ∨ ys.foldl max m ∈ ys := by
    intro ys
    induction ys with
    | nil => exact fun m => .inl rfl
    | cons y ys ih =>
      intro m
      rcases ih (max m y) with he | he
      · rcases le_total m y with hle | hle
        · refine .inr ?_
          have hm : max m y = y := max_eq_right hle
          rw [List.foldl_cons,he,hm]
          simp
        · refine .inl ?_
          simpa [List.foldl_cons,max_eq_left hle] using he
      · exact .inr (List.mem_cons_of_mem _ he)
  cases ys with
  | nil => exact absurd rfl h
  | cons y ys =>
    rcases hgen ys y with he | he
    · simp [List.foldl_cons,he]
    · simp only [List.foldl_cons,Nat.zero_max]
      exact List.mem_cons_of_mem _ he

theorem le_foldl_max {ys : List TxnId} {x m : TxnId} (h : x ≤ m ∨ x ∈ ys) :
    x ≤ ys.foldl max m := by
  induction ys generalizing m with
  | nil => simpa using h
  | cons y ys ih =>
    rw [List.foldl_cons]
    apply ih
    rcases h with h | h
    · exact .inl (h.trans (le_max_left m y))
    rcases List.mem_cons.mp h with rfl | h
    · exact .inl (le_max_right m x)
    · exact .inr h

/-- A cycle of transactions, each in the relation to the next one, and the largest of them. -/
structure Victim (R : TxnId → TxnId → Prop) (v : TxnId) (c : Cycle TxnId) : Prop where
  nodup : c.Nodup
  chain : c.Chain R
  mem : v ∈ c
  largest : ∀ t ∈ c, t ≤ v

/-- The members of a cycle block one another. -/
theorem Victim.selfBlocking {R : TxnId → TxnId → Prop} {v : TxnId} {c : Cycle TxnId}
    (h : Victim R v c) : SelfBlocking R {t | t ∈ c} := by
  refine ⟨⟨v,h.mem⟩,?_⟩
  obtain ⟨-,hchain,hmem,-⟩ := h
  induction c using Cycle.induction_on with
  | nil => simp at hmem
  | cons a l _ =>
    intro t ht
    have hc : List.IsChain R ((a::l) ++ [a]) := (Cycle.chain_coe_cons R a l).mp hchain
    obtain ⟨u,hu,htu⟩ := successor_of_isChain hc List.mem_cons_self t ht
    exact ⟨u,hu,htu⟩

/-- A gray successor closes a cycle, and the largest number on it is in the cycle. -/
theorem victim_of_path {path : List TxnId} {next : TxnId}
    (hc : List.IsChain (Edge graph) (path ++ [next])) (hnodup : path.Nodup) (hm : next ∈ path) :
    ∃ c, Victim (Edge graph) ((path.dropWhile (· ≠ next)).foldl max 0) c := by
  obtain ⟨a,b,rfl,hna⟩ := List.eq_append_cons_of_mem hm
  have hdrop : (a ++ next::b).dropWhile (· ≠ next) = next::b := by
    have hne : ∀ x ∈ a, x ≠ next := fun x hx he => hna (he ▸ hx)
    rw [List.dropWhile_append_of_pos fun x hx => by simpa using hne x hx]
    simp
  have hchain : List.IsChain (Edge graph) (next::(b ++ [next])) := by
    rw [List.append_assoc] at hc
    exact hc.right_of_append
  rw [hdrop]
  refine ⟨((next::b : List TxnId) : Cycle TxnId),?_,?_,?_,?_⟩
  · exact Cycle.nodup_coe_iff.mpr hnodup.of_append_right
  · exact (Cycle.chain_coe_cons _ _ _).mpr hchain
  · exact Cycle.mem_coe_iff.mpr (foldl_max_mem (List.cons_ne_nil _ _))
  · exact fun t ht => le_foldl_max (.inr (Cycle.mem_coe_iff.mp ht))

/-- The path of a search never meets a node twice, since its nodes are no longer white. -/
structure PathOk (st : Search) : Prop where
  nodup : st.path.Nodup
  seen : ∀ x ∈ st.path, st.color x ≠ 0

theorem Searched.pathOk {st st' : Search} (h : Searched S st st') (hpo : PathOk st) :
    PathOk st' := by
  refine ⟨h.path ▸ hpo.nodup,fun x hx => ?_⟩
  have hseen := hpo.seen x (h.path ▸ hx)
  rw [h.keeps x hseen]
  exact hseen

theorem PathOk.enter {st : Search} {node : TxnId} (hpo : PathOk st) (hw : st.color node = 0) :
    PathOk ⟨Function.update st.color node 1,st.path ++ [node]⟩ := by
  have hnew : node ∉ st.path := fun hm => hpo.seen node hm hw
  constructor
  · exact List.nodup_append.mpr ⟨hpo.nodup,List.nodup_singleton node,
      fun x hx y hy he => hnew (List.mem_singleton.mp hy ▸ he ▸ hx)⟩
  · intro x hx
    by_cases he : x = node
    · simp [he]
    · have hx' : x ∈ st.path := by simpa [he] using hx
      simpa [he] using hpo.seen x hx'

/-- A victim of the loop is on a cycle, given what the recursive call does. -/
theorem visitEach_some {next : Search → TxnId → Option TxnId × Search} {node : TxnId}
    {path : List TxnId}
    {b : ℕ}
    (hkeep : ∀ st y st', next st y = (none,st') → SearchOk st → st.color y = 0 →
      y ∈ U → whites U st ≤ b → Searched ∅ st st' ∧ st'.color y = 2)
    (hnext : ∀ st y v st', next st y = (some v,st') → SearchOk st → st.color y = 0 →
      y ∈ U → whites U st ≤ b → PathOk st → List.IsChain (Edge graph) (st.path ++ [y]) →
      ∃ c, Victim (Edge graph) v c)
    {ys : List TxnId} {st st' : Search} {v : TxnId} (h : visitEach next ys st = (some v,st'))
    (hok : SearchOk st) (hpo : PathOk st) (hp : st.path = path ++ [node])
    (hys : ∀ y ∈ ys, Edge graph node y)
    (hc : List.IsChain (Edge graph) (path ++ [node])) (hU : ∀ y ∈ ys, y ∈ U)
    (hb : whites U st ≤ b) :
    ∃ c, Victim (Edge graph) v c := by
  induction ys generalizing st with
  | nil => simp [visitEach] at h
  | cons y ys ih =>
    have hchain : List.IsChain (Edge graph) (st.path ++ [y]) := by
      have he : Edge graph node y := hys y (by simp)
      rw [hp,List.append_assoc,List.singleton_append,List.isChain_append_cons_cons]
      exact ⟨hc,he,by simp⟩
    simp only [visitEach] at h
    generalize hr : (if st.color y = 0 then next st y else (none,st)) = r at h
    split at h
    · rename_i w hsome
      have hv : w = v := by simpa using congrArg Prod.fst h
      subst hv
      by_cases hw : st.color y = 0
      · rw [if_pos hw] at hr
        exact hnext st y w r.2 (by rw [hr,← hsome]) hok hw (hU y (by simp)) hb hpo hchain
      · rw [if_neg hw] at hr
        subst hr
        simp at hsome
    rename_i hnone
    have hs : Searched ∅ st r.2 := by
      by_cases hw : st.color y = 0
      · rw [if_pos hw] at hr
        exact (hkeep st y r.2 (by rw [hr,← hnone]) hok hw (hU y (by simp)) hb).1
      · rw [if_neg hw] at hr
        subst hr
        exact .refl hok
    have hok' := hs.ok hok
    have hpath := hs.path
    split at h
    · rename_i hgray
      have hv : (r.2.path.dropWhile (· ≠ y)).foldl max 0 = v := by
        simpa using congrArg Prod.fst h
      rw [← hv,hpath]
      exact victim_of_path hchain hpo.nodup (hpath ▸ hok'.gray y hgray)
    · exact ih h hok' (hs.pathOk hpo) (hpath.trans hp) (fun z hz => hys z (by simp [hz]))
        (fun z hz => hU z (by simp [hz])) (hs.whites_le.trans hb)

theorem visit_some (hU : ∀ t u, Edge graph t u → u ∈ U) (fuel : ℕ) {st st' : Search}
    {node v : TxnId} (h : visit graph fuel st node = (some v,st')) (hok : SearchOk st)
    (hpo : PathOk st) (hw : st.color node = 0) (hn : node ∈ U) (hb : whites U st ≤ fuel)
    (hc : List.IsChain (Edge graph) (st.path ++ [node])) :
    ∃ c, Victim (Edge graph) v c := by
  induction fuel generalizing st st' node v with
  | zero => simp [visit] at h
  | succ fuel ih =>
    have hlt := whites_lt (p := st.path ++ [node]) hn hw
    simp only [visit] at h
    split at h
    · rename_i w hsome
      have hv : w = v := by simpa using congrArg Prod.fst h
      subst hv
      have heach : visitEach (visit graph fuel) (successors graph node)
          ⟨Function.update st.color node 1,st.path ++ [node]⟩ = (some w,_) :=
        Prod.ext hsome rfl
      refine visitEach_some (U := U) (b := fuel)
        (fun st y st' h hok hw hn hb => visit_none (by simp) hU fuel h hok hw hn hb)
        (fun st y v st' h hok hw hn hb hpo hc => ih h hok hpo hw hn hb hc) heach hok.enter
        (hpo.enter hw) rfl
        (fun y hy => hy) hc (fun y hy => hU node y hy) (by omega)
    · simp at h

/-- From a search that has nothing open, the roots lead to a victim or all turn black. -/
theorem visitRoots_none (hS : ∀ t ∈ S, ∃ u ∈ S, Edge graph t u)
    (hU : ∀ t u, Edge graph t u → u ∈ U) {fuel : ℕ} {roots : List TxnId} {st : Search}
    (h : visitRoots graph fuel roots st = none) (hok : SearchOk st) (hp : st.path = [])
    (hr : ∀ t ∈ roots, t ∈ U) (hb : whites U st ≤ fuel) (hnb : NoneBlack S st) :
    ∀ t ∈ roots, t ∉ S := by
  induction roots generalizing st with
  | nil => simp
  | cons node roots ih =>
    simp only [visitRoots] at h
    split at h
    · rename_i hw
      split at h
      · simp at h
      rename_i hnone
      have hpair : visit graph fuel st node = (none,(visit graph fuel st node).2) :=
        Prod.ext hnone rfl
      obtain ⟨hs,hc⟩ := visit_none hS hU fuel hpair hok hw (hr node (by simp)) hb
      intro t ht
      rcases List.mem_cons.mp ht with rfl | ht
      · exact fun hin => hs.none hnb t hin hc
      · exact ih h (hs.ok hok) (hs.path.trans hp) (fun x hx => hr x (by simp [hx]))
          (hs.whites_le.trans hb) (hs.none hnb) t ht
    · rename_i hw
      intro t ht
      rcases List.mem_cons.mp ht with rfl | ht
      · -- nothing is open, so a node that is not white is black
        have hng : st.color t ≠ 1 := fun hg => by simpa [hp] using hok.gray t hg
        have hle := hok.colors t
        exact fun hin => hnb t hin (by omega)
      · exact ih h hok hp (fun x hx => hr x (by simp [hx])) hb hnb t ht

theorem visitRoots_some (hU : ∀ t u, Edge graph t u → u ∈ U) {fuel : ℕ} {roots : List TxnId}
    {st : Search} {v : TxnId} (h : visitRoots graph fuel roots st = some v) (hok : SearchOk st)
    (hp : st.path = []) (hr : ∀ t ∈ roots, t ∈ U) (hb : whites U st ≤ fuel) :
    ∃ c, Victim (Edge graph) v c := by
  induction roots generalizing st with
  | nil => simp [visitRoots] at h
  | cons node roots ih =>
    have hrest : ∀ t ∈ roots, t ∈ U := fun x hx => hr x (by simp [hx])
    simp only [visitRoots] at h
    split at h
    · rename_i hw
      split at h
      · rename_i w hsome
        have hv : w = v := by simpa using h
        subst hv
        have hpair : visit graph fuel st node = (some w,(visit graph fuel st node).2) :=
          Prod.ext hsome rfl
        exact visit_some hU fuel hpair hok ⟨by simp [hp],by simp [hp]⟩ hw (hr node (by simp)) hb (by simp [hp])
      · rename_i hnone
        have hpair : visit graph fuel st node = (none,(visit graph fuel st node).2) :=
          Prod.ext hnone rfl
        obtain ⟨hs,-⟩ := visit_none (S := ∅) (by simp) hU fuel hpair hok hw (hr node (by simp)) hb
        exact ih h (hs.ok hok) (hs.path.trans hp) hrest (hs.whites_le.trans hb)
    · exact ih h hok hp hrest hb

end Search

theorem edge_iff_mem {graph : List (TxnId × List TxnId)} {t u : TxnId} :
    Edge graph t u ↔ ∃ p ∈ graph, p.1 = t ∧ u ∈ p.2 := by
  simp [Edge,successors,and_assoc]

theorem mem_blockers {q : LockRequestQueue} {i : ℕ} {r : LockRequest} {u : TxnId} :
    u ∈ blockers q i r ↔ ∃ (j : ℕ) (o : LockRequest), q[j]? = some o ∧ o.txnId = u ∧
      u ≠ r.txnId ∧ requestConflicts r o = true ∧ (o.granted = true ∨ j < i) := by
  unfold blockers
  rw [List.mem_filterMap]
  constructor
  · rintro ⟨⟨o,j⟩,hm,ho⟩
    simp only [Option.ite_none_right_eq_some,Option.some.injEq,Bool.and_eq_true,Bool.or_eq_true,
      decide_eq_true_eq] at ho
    obtain ⟨⟨⟨hne,hcon⟩,hor⟩,rfl⟩ := ho
    exact ⟨j,o,List.mem_zipIdx_iff_getElem?.mp hm,rfl,hne,hcon,hor⟩
  · rintro ⟨j,o,hj,rfl,hne,hcon,hor⟩
    refine ⟨(o,j),List.mem_zipIdx_iff_getElem?.mpr hj,?_⟩
    simp [hne,hcon,hor]

theorem waitsFor_of_edge {s : LockState} {order : List LockId} {t u : TxnId}
    (h : Edge (waitForGraph s order) t u) : WaitsFor s t u := by
  obtain ⟨⟨t',us⟩,hp,rfl,hu⟩ := edge_iff_mem.mp h
  simp only [waitForGraph,queueEdges,List.mem_flatMap,List.mem_filterMap] at hp
  obtain ⟨l,-,⟨r,i⟩,hm,hr⟩ := hp
  simp only [Option.ite_none_right_eq_some,Option.some.injEq,Prod.mk.injEq,Bool.and_eq_true]
    at hr
  obtain ⟨⟨hw,ha⟩,rfl,rfl⟩ := hr
  obtain ⟨j,o,hj,hou,hne,hcon,hor⟩ := mem_blockers.mp hu
  exact ⟨by simpa [LockState.isUsableForWork] using ha,
    l,i,j,r,o,List.mem_zipIdx_iff_getElem?.mp hm,hj,rfl,hou,hne,hw,hcon,hor⟩

/-- The edges of the wait-for graph are the waits, once every queue is visited. -/
theorem edge_iff_waitsFor {s : LockState} {order : List LockId}
    (ho : ∀ l, s.queues l ≠ [] → l ∈ order) {t u : TxnId} :
    Edge (waitForGraph s order) t u ↔ WaitsFor s t u := by
  refine ⟨waitsFor_of_edge,?_⟩
  rintro ⟨ha,l,i,j,r,o,hi,hj,rfl,hou,hne,hw,hcon,hor⟩
  have hl : l ∈ order := ho l (List.ne_nil_of_mem (List.mem_of_getElem? hi))
  refine edge_iff_mem.mpr
    ⟨(r.txnId,blockers (s.queues l) i r),?_,rfl,mem_blockers.mpr ⟨j,o,hj,hou,hne,hcon,hor⟩⟩
  simp only [waitForGraph,queueEdges,List.mem_flatMap,List.mem_filterMap]
  refine ⟨l,hl,(r,i),List.mem_zipIdx_iff_getElem?.mpr hi,?_⟩
  simp [hw,LockState.isUsableForWork,ha]

section Nodes

variable {graph : List (TxnId × List TxnId)}

/-- Every node the search can meet. -/
def graphNodes (graph : List (TxnId × List TxnId)) : Finset TxnId :=
  (graph.map (·.1) ++ graph.flatMap (·.2)).toFinset

theorem edge_mem_graphNodes {t u : TxnId} (h : Edge graph t u) : u ∈ graphNodes graph := by
  obtain ⟨p,hp,-,hu⟩ := edge_iff_mem.mp h
  exact List.mem_toFinset.mpr (List.mem_append_right _ (List.mem_flatMap.mpr ⟨p,hp,hu⟩))

theorem root_mem_graphNodes {t : TxnId} (h : t ∈ graph.map (·.1)) : t ∈ graphNodes graph :=
  List.mem_toFinset.mpr (List.mem_append_left _ h)

theorem whites_graphNodes_le :
    whites (graphNodes graph) ⟨fun _ => 0,[]⟩ ≤
      graph.length + (graph.flatMap (·.2)).length + 1 := by
  calc whites (graphNodes graph) ⟨fun _ => 0,[]⟩ ≤ (graphNodes graph).card :=
        Finset.card_filter_le _ _
    _ ≤ (graph.map (·.1) ++ graph.flatMap (·.2)).length := List.toFinset_card_le _
    _ = graph.length + (graph.flatMap (·.2)).length := by simp
    _ ≤ _ := Nat.le_succ _

theorem searchOk_initial : SearchOk ⟨fun _ => 0,[]⟩ := ⟨by simp,by simp⟩

end Nodes

theorem findDeadlockVictim_some {s : LockState} {order : List LockId} {v : TxnId}
    (h : findDeadlockVictim s order = some v) : ∃ c, Victim (WaitsFor s) v c := by
  obtain ⟨c,hnodup,hchain,hmem,hle⟩ := visitRoots_some (fun _ _ => edge_mem_graphNodes)
    (by simpa [findDeadlockVictim] using h) searchOk_initial rfl (fun _ => root_mem_graphNodes)
    whites_graphNodes_le
  exact ⟨c,hnodup,hchain.imp fun _ _ => waitsFor_of_edge,hmem,hle⟩

/-- The search finds a victim on a cycle as soon as there is a cycle. -/
theorem findDeadlockVictim_spec {s : LockState} {order : List LockId}
    (ho : ∀ l, s.queues l ≠ [] → l ∈ order) {S : Set TxnId} (hS : Deadlocked s S) :
    ∃ v C, findDeadlockVictim s order = some v ∧ Deadlocked s C ∧ v ∈ C := by
  have hblocked : ∀ t ∈ S, ∃ u ∈ S, Edge (waitForGraph s order) t u := by
    intro t ht
    obtain ⟨u,hu,hw⟩ := hS.blocked t ht
    exact ⟨u,hu,(edge_iff_waitsFor ho).mpr hw⟩
  cases hv : findDeadlockVictim s order with
  | none =>
    have hno := visitRoots_none hblocked (fun _ _ => edge_mem_graphNodes)
      (by simpa [findDeadlockVictim] using hv) searchOk_initial rfl
      (fun _ => root_mem_graphNodes) whites_graphNodes_le (by simp [NoneBlack])
    obtain ⟨t,ht⟩ := hS.nonempty
    obtain ⟨u,-,he⟩ := hblocked t ht
    obtain ⟨p,hp,hpt,-⟩ := edge_iff_mem.mp he
    exact absurd ht (hno t (List.mem_map.mpr ⟨p,hp,hpt⟩))
  | some v =>
    obtain ⟨c,hc⟩ := findDeadlockVictim_some hv
    exact ⟨v,_,rfl,hc.selfBlocking,hc.mem⟩

/-- Whoever has a request that is not cancelled is registered. -/
def Registered (s : LockState) : Prop :=
  ∀ l, ∀ r ∈ s.queues l, r.cancelled = false → s.registered r.txnId = true

section Registered

variable {s : LockState}

theorem Registered.setQueue (h : Registered s) {l : LockId} {q : LockRequestQueue}
    (hq : ∀ r ∈ q, r.cancelled = false → s.registered r.txnId = true) :
    Registered (s.setQueue l q) := by
  intro k r hr
  by_cases hk : k = l
  · subst hk
    exact hq r (by simpa using hr)
  · exact h k r (by simpa [hk] using hr)

theorem Registered.waitLoop (h : Registered s) {t : TxnId} {l : LockId} {i : ℕ} {r : LockRequest}
    (hr : (s.queues l)[i]? = some r) : Registered (waitLoop s t l i r).2 := by
  have herase : Registered (s.setQueue l ((s.queues l).eraseIdx i)) :=
    h.setQueue fun o ho => h l o (List.mem_of_mem_eraseIdx ho)
  unfold Lock.waitLoop
  simp only
  split
  · exact herase
  rename_i hc
  split
  · exact herase
  split
  · have hset : Registered (s.setQueue l
        ((s.queues l).set i { r with granted := true, upgrading := false })) := by
      refine h.setQueue fun o ho hoc => ?_
      rcases List.mem_or_eq_of_mem_set ho with ho | rfl
      · exact h l o ho hoc
      · exact h l r (List.mem_of_getElem? hr) (by simpa using hc)
    exact hset
  · exact h

theorem Registered.register (h : Registered s) (t : TxnId) : Registered (s.register t true) := by
  intro l r hr hc
  by_cases ht : r.txnId = t
  · simp [LockState.register,ht]
  · simpa [LockState.register,ht] using h l r hr hc

theorem Registered.enterQueue (h : Registered s) (t : TxnId) (l : LockId) (mode : Mode) :
    Registered (enterQueue s t l mode).2 := by
  have hreg := h.register t
  have hself : (s.register t true).registered t = true := by simp [LockState.register]
  unfold Lock.enterQueue
  simp only [register_queues]
  split
  · rename_i i hi
    split
    · exact hreg
    rename_i r hr
    split
    · exact hreg
    split
    · exact hreg
    split
    · exact hreg
    split
    · exact hreg
    have hlt : i < (s.queues l).length := (List.getElem?_eq_some_iff.mp hr).1
    refine Registered.waitLoop (hreg.setQueue fun o ho hoc => ?_) (by simp [hlt])
    rcases List.mem_or_eq_of_mem_set ho with ho | rfl
    · exact hreg l o ho hoc
    · have hrt : r.txnId = t := by
        obtain ⟨_,he⟩ := List.getElem?_eq_some_iff.mp hr
        have hf := (List.findIdx?_eq_some_iff_getElem.mp hi).2.1
        simpa [he] using hf
      have hid : ({ r.setMode mode with upgrading := true } : LockRequest).txnId = t := by
        cases mode <;> exact hrt
      rw [hid]
      exact hself
  · refine Registered.waitLoop (hreg.setQueue fun o ho hoc => ?_) (by simp)
    rcases List.mem_append.mp ho with ho | ho
    · exact hreg l o ho hoc
    · have he : o = LockRequest.new t mode := by simpa using ho
      have hid : o.txnId = t := by rw [he]; cases mode <;> rfl
      rw [hid]
      exact hself

theorem Registered.unlock (h : Registered s) (t : TxnId) (l : LockId) :
    Registered (unlock s t l).2 := by
  unfold Lock.unlock
  split
  · exact h
  split
  · exact h
  split
  · exact h
  rename_i i _ _ r hr
  have hset : Registered (s.setQueue l (releaseAt (s.queues l) i r)) := by
    refine h.setQueue fun o ho hoc => ?_
    unfold releaseAt at ho
    split at ho
    · rcases List.mem_or_eq_of_mem_set ho with ho | rfl
      · exact h l o ho hoc
      · simp [LockRequest.cancel] at hoc
    · exact h l o (List.mem_of_mem_eraseIdx ho) hoc
  exact hset

/-- What `UnlockAll` leaves of its own transaction is cancelled. -/
theorem Registered.unlockAll (h : Registered s) (t : TxnId) : Registered (unlockAll s t) := by
  intro l r hr hc
  have hr' : r ∈ releaseAll t (s.queues l) := hr
  unfold releaseAll at hr'
  obtain ⟨o,ho,hor⟩ := List.mem_filterMap.mp hr'
  by_cases ht : o.txnId = t
  · rw [if_pos ht] at hor
    split at hor
    · cases hor
      simp [LockRequest.cancel] at hc
    · cases hor
  · rw [if_neg ht] at hor
    cases hor
    have hreg := h l r ho hc
    simpa [Lock.unlockAll,LockState.setGrantedLocks,LockState.register,ht] using hreg

end Registered

theorem detectDeadlocks_registered (s : LockState) (order : List LockId) :
    (detectDeadlocks s order).2.registered = s.registered := by
  unfold detectDeadlocks LockState.markFailed
  split
  · rfl
  split
  · split <;> rfl
  · rfl

theorem Registered.next {s s' : System} (h : Registered s.lm) {a : Action}
    (hn : s.next a = some s') : Registered s'.lm := by
  cases a with
  | call c =>
    simp only [System.next] at hn
    split at hn <;> cases hn <;> exact h
  | enter c =>
    simp only [System.next] at hn
    split at hn
    · cases hn
      exact h.enterQueue _ _ _
    · cases hn
  | wake t l =>
    simp only [System.next,Option.map_eq_some_iff] at hn
    obtain ⟨r,hr,rfl⟩ := hn
    unfold Lock.wake at hr
    split at hr
    · cases hr
    split at hr
    · cases hr
    split at hr
    · rename_i hi _
      cases hr
      exact h.waitLoop hi
    · cases hr
  | unlock t l => cases hn; exact h.unlock t l
  | unlockAll t => cases hn; exact h.unlockAll t
  | detectDeadlocks order =>
    cases hn
    intro l r hr
    simp only [detectDeadlocks_queues,detectDeadlocks_registered] at hr ⊢
    exact h l r hr
  | transition t x => cases hn; exact h

theorem registered_of_reach {s : System}
    (h : Reach (· = System.initial) (StepOf System.next) s) : Registered s.lm :=
  h.invariant (P := fun s : System => Registered s.lm)
    (fun s (hs : s = System.initial) => by
      subst hs
      intro l r hr
      simp [System.initial,LockState.initial] at hr)
    fun _ _ _ hi hn => hi.next hn

/-- Whoever the search finds is registered and active, so it is marked and returned. -/
theorem detectDeadlocks_of_some {s : LockState} (hreg : Registered s) {order : List LockId}
    {v : TxnId} (hv : findDeadlockVictim s order = some v) :
    detectDeadlocks s order = ([v],s.setTxnState v .failed) := by
  obtain ⟨c,hc⟩ := findDeadlockVictim_some hv
  obtain ⟨u,-,hw⟩ := hc.selfBlocking.blocked v hc.mem
  obtain ⟨l,i,j,r,o,hi,-,hrv,-,-,hwait,-⟩ := hw.request
  have hv' : s.registered v = true := by
    rw [← hrv]
    refine hreg l r (List.mem_of_getElem? hi) ?_
    simp only [isWaiting,Bool.and_eq_true,Bool.not_eq_true'] at hwait
    exact hwait.1
  simp [detectDeadlocks,hv,hv',LockState.markFailed,hw.active]

/-- 1 and 2, and 3 and 4, each hold one page and wait for the other's. -/
def twoPairsRun : List Action :=
  let lock := fun (t : TxnId) (p : PageId) =>
    [Action.call ⟨t,.page p,.page .X⟩,.enter ⟨t,.page p,.page .X⟩]
  lock 1 1 ++ lock 2 2 ++ lock 3 3 ++ lock 4 4 ++ lock 1 2 ++ lock 2 1 ++ lock 3 4 ++ lock 4 3

def twoPairs : System := (exec System.next .initial twoPairsRun).get rfl

theorem reach_twoPairs : Reach (· = System.initial) (StepOf System.next) twoPairs :=
  exec_reach (.init rfl) (Option.some_get _).symm

def pagesOfPairs : List LockId := [.page 1,.page 2,.page 3,.page 4]

theorem waitLoop_elsewhere {s : LockState} {t : TxnId} {l k : LockId} {i : ℕ} {r : LockRequest}
    (hk : k ≠ l) : (waitLoop s t l i r).2.queues k = s.queues k := by
  simp only [waitLoop]
  repeat' split
  all_goals simp [hk]

theorem enterQueue_elsewhere {s : LockState} {t : TxnId} {l k : LockId} {mode : Mode}
    (hk : k ≠ l) : (enterQueue s t l mode).2.queues k = s.queues k := by
  simp only [enterQueue]
  repeat' split
  all_goals simp [waitLoop_elsewhere hk, hk]

theorem unlock_elsewhere {s : LockState} {t : TxnId} {l k : LockId} (hk : k ≠ l) :
    (unlock s t l).2.queues k = s.queues k := by
  simp only [unlock]
  repeat' split
  all_goals simp [hk]

/-- A call, or a step on one of these queues. -/
def Action.within (ls : List LockId) : Action → Bool
  | .call _ => true
  | .enter c => c.lockId ∈ ls
  | .unlock _ l => l ∈ ls
  | _ => false

/-- A run within some queues leaves the others empty. -/
theorem exec_elsewhere (ls : List LockId) {l : LockId} (hl : l ∉ ls) {as : List Action}
    (ha : ∀ a ∈ as, a.within ls = true) {s s' : System} (hs : s.lm.queues l = [])
    (hx : exec System.next s as = some s') : s'.lm.queues l = [] := by
  induction as generalizing s with
  | nil =>
    obtain rfl := Option.some.inj hx
    exact hs
  | cons a as ih =>
    obtain ⟨m,hm,hrest⟩ := Option.bind_eq_some_iff.mp hx
    refine ih (fun b hb => ha b (List.mem_cons_of_mem a hb)) ?_ hrest
    have hin := ha a List.mem_cons_self
    cases a with
    | call c =>
      simp only [System.next] at hm
      split at hm <;> cases hm <;> exact hs
    | enter c =>
      have hne : l ≠ c.lockId := fun he => hl (he ▸ by simpa [Action.within] using hin)
      simp only [System.next] at hm
      split at hm
      · cases hm
        exact (enterQueue_elsewhere hne).trans hs
      · cases hm
    | unlock t k =>
      have hne : l ≠ k := fun he => hl (he ▸ by simpa [Action.within] using hin)
      cases hm
      exact (unlock_elsewhere hne).trans hs
    | _ => cases hin

theorem mem_pagesOfPairs (l : LockId) (hl : twoPairs.lm.queues l ≠ []) : l ∈ pagesOfPairs := by
  by_contra hn
  exact hl (exec_elsewhere pagesOfPairs hn (by decide) rfl (Option.some_get _).symm)

theorem waitsFor_twoPairs {t u : TxnId} {p : PageId}
    (ha : twoPairs.lm.txnState t = .active)
    (hq : twoPairs.lm.queues (.page p) = [{ LockRequest.new u (.page .X) with granted := true },
      LockRequest.new t (.page .X)]) (hne : u ≠ t) : WaitsFor twoPairs.lm t u :=
  ⟨ha,.page p,1,0,LockRequest.new t (.page .X),
    { LockRequest.new u (.page .X) with granted := true },by rw [hq]; rfl,by rw [hq]; rfl,rfl,rfl,hne,
    rfl,rfl,.inl rfl⟩

theorem deadlocked_firstPair : Deadlocked twoPairs.lm {1,2} := by
  refine ⟨⟨1,by simp⟩,?_⟩
  rintro t (rfl | rfl)
  · exact ⟨2,by simp,waitsFor_twoPairs (p := 2) rfl rfl (by decide)⟩
  · exact ⟨1,by simp,waitsFor_twoPairs (p := 1) rfl rfl (by decide)⟩

theorem deadlocked_secondPair : Deadlocked twoPairs.lm {3,4} := by
  refine ⟨⟨3,by simp⟩,?_⟩
  rintro t (rfl | rfl)
  · exact ⟨4,by simp,waitsFor_twoPairs (p := 4) rfl rfl (by decide)⟩
  · exact ⟨3,by simp,waitsFor_twoPairs (p := 3) rfl rfl (by decide)⟩

end Lock
end OurSql
