import OurSql.Index.Rebalance
import OurSql.Index.Scan

/-! Removal: a leaf loses the pair, and each page above it comes back to size or hands the work on
to its parent. -/
namespace OurSql
namespace Index

open Fence Heap

variable {n : ℕ} {c : Capacity} {t t' x x' : Tree n} {cs cs' L R : List (Key × Tree n)}
  {parent next i j : PageId} {lo hi k m : Key} {e : Entry} {s s' : BPlusTree}
  {F : List (PageId × IndexPage)} {place : Place} {remedies' : Remedies} {up : TreeM Unit}

/-! ### The order of the remedies -/

theorem withSiblings_left (h : (remedies'.canLend place.leftId).run s = .ok true s) :
    (withSiblings place remedies' up).run s = remedies'.borrowLeft.run s := by
  rw [withSiblings,run_bind_ok h]
  rfl

theorem withSiblings_right (h : (remedies'.canLend place.leftId).run s = .ok false s)
    (h' : (remedies'.canLend place.rightId).run s = .ok true s) :
    (withSiblings place remedies' up).run s = remedies'.borrowRight.run s := by
  rw [withSiblings,run_bind_ok h]
  simp only [Bool.false_eq_true,if_false]
  rw [run_bind_ok h']
  rfl

theorem withSiblings_mergeLeft (h : (remedies'.canLend place.leftId).run s = .ok false s)
    (h' : (remedies'.canLend place.rightId).run s = .ok false s)
    (hne : place.leftId ≠ invalidPageId) :
    (withSiblings place remedies' up).run s = (remedies'.mergeLeft >>= fun _ => up).run s := by
  rw [withSiblings,run_bind_ok h]
  simp only [Bool.false_eq_true,if_false]
  rw [run_bind_ok h']
  simp only [Bool.false_eq_true,if_false,if_neg hne]

theorem withSiblings_mergeRight (h : (remedies'.canLend place.leftId).run s = .ok false s)
    (h' : (remedies'.canLend place.rightId).run s = .ok false s)
    (heq : place.leftId = invalidPageId) (hne : place.rightId ≠ invalidPageId) :
    (withSiblings place remedies' up).run s = (remedies'.mergeRight >>= fun _ => up).run s := by
  rw [withSiblings,run_bind_ok h]
  simp only [Bool.false_eq_true,if_false]
  rw [run_bind_ok h']
  simp only [Bool.false_eq_true,if_false,if_pos heq,if_neg hne]

/-! ### A child that is one entry short -/

/-- The children of a page after its short child has turned to a sibling: as many as before, or one
fewer, and `up` goes on with the parent. -/
def Helped (c : Capacity) (lo hi : Key) (i parent next : PageId) (F : List (PageId × IndexPage))
    (s : BPlusTree) (cs : List (Key × Tree n)) (up : TreeM Unit)
    (result : EStateM.Result Failure BPlusTree Unit) : Prop :=
  ∃ cs' s', Owns s' ((Tree.node i cs').cells c parent next ++ F) ∧ Keeps s s' ∧
    Resettled c lo hi cs cs' ∧
    (cs'.length = cs.length ∧ result = .ok () s' ∨
      cs'.length + 1 = cs.length ∧ result = up.run s')

variable {a : Tree n} {ka : Key} {nx : PageId}

section Neighbours

variable (hc : c.Valid) (hL : Fenced (Tree.Sound c) ka lo L) (hR : Fenced (Tree.Sound c) hi (upper hi R) R)
  (hlen : (L ++ (ka,a)::(k,x)::R).length ≤ c.internalMax)
  (ho : Owns s ((Tree.node i (L ++ (ka,a)::(k,x)::R)).cells c parent next ++ F))
include hc hL hR hlen ho

theorem helped_borrowLeft (ha : a.Sound c (lower lo ka L) k) (hx : x.Body c k (upper hi R))
    (hxs : x.size + 1 = c.minSize n) (hlend : c.minSize n < a.size) (hk : k ≤ upper hi R) :
    Helped c lo hi i parent next F s (L ++ (ka,a)::(k,x)::R) up
      ((remedies c x (leftPlace i (routes L) ka a.id k x.id (routes R))
        (headId next (leavesOf R))).borrowLeft.run s) := by
  have hl : (routes L ++ (ka,a.id)::(k,x.id)::routes R).length ≤ c.internalMax := by
    simpa using hlen
  obtain ⟨a',x',m,s',hr,ho',hk',hlent⟩ := borrowLeft_spec hc ha hx hxs hlend hk hl (owns_pair.mp ho)
  exact ⟨L ++ (ka,a')::(m,x')::R,s',hlent.owns ho',hk',hlent.resettled hL hR,.inl ⟨by simp,hr⟩⟩

theorem helped_borrowRight (ha : a.Body c (lower lo ka L) k) (hx : x.Sound c k (upper hi R))
    (has : a.size + 1 = c.minSize n) (hlend : c.minSize n < x.size) (hk : lower lo ka L ≤ k) :
    Helped c lo hi i parent next F s (L ++ (ka,a)::(k,x)::R) up
      ((remedies c a (rightPlace i (routes L) ka a.id k x.id (routes R)) nx).borrowRight.run s) := by
  have hl : (routes L ++ (ka,a.id)::(k,x.id)::routes R).length ≤ c.internalMax := by
    simpa using hlen
  obtain ⟨a',x',m,s',hr,ho',hk',hlent⟩ :=
    borrowRight_spec nx hc ha hx has hlend hk hl (owns_pair.mp ho)
  exact ⟨L ++ (ka,a')::(m,x')::R,s',hlent.owns ho',hk',hlent.resettled hL hR,.inl ⟨by simp,hr⟩⟩

theorem helped_mergeLeft (ha : a.Sound c (lower lo ka L) k) (hx : x.Body c k (upper hi R))
    (hxs : x.size + 1 = c.minSize n) (hlend : ¬ c.minSize n < a.size) (hk : k ≤ upper hi R) :
    Helped c lo hi i parent next F s (L ++ (ka,a)::(k,x)::R) up
      (((remedies c x (leftPlace i (routes L) ka a.id k x.id (routes R))
        (headId next (leavesOf R))).mergeLeft >>= fun _ => up).run s) := by
  have hl : (routes L ++ (ka,a.id)::(k,x.id)::routes R).length ≤ c.internalMax := by
    simpa using hlen
  obtain ⟨y,s',hr,ho',hk',hmerged⟩ := mergeLeft_spec hc ha hx hxs hlend hk hl (owns_pair.mp ho)
  refine ⟨L ++ (ka,y)::R,s',hmerged.owns ho',hk',hmerged.resettled hL hR,.inr ⟨by simp; omega,?_⟩⟩
  exact run_bind_ok hr

theorem helped_mergeRight (ha : a.Body c (lower lo ka L) k) (hx : x.Sound c k (upper hi R))
    (has : a.size + 1 = c.minSize n) (hlend : ¬ c.minSize n < x.size) (hk : lower lo ka L ≤ k) :
    Helped c lo hi i parent next F s (L ++ (ka,a)::(k,x)::R) up
      (((remedies c a (rightPlace i (routes L) ka a.id k x.id (routes R)) nx).mergeRight >>=
        fun _ => up).run s) := by
  have hl : (routes L ++ (ka,a.id)::(k,x.id)::routes R).length ≤ c.internalMax := by
    simpa using hlen
  obtain ⟨y,s',hr,ho',hk',hmerged⟩ :=
    mergeRight_spec nx hc ha hx has hlend hk hl (owns_pair.mp ho)
  refine ⟨L ++ (ka,y)::R,s',hmerged.owns ho',hk',hmerged.resettled hL hR,.inr ⟨by simp; omega,?_⟩⟩
  exact run_bind_ok hr

end Neighbours

/-- What is known of a child when it turns to its siblings. -/
def seat (i : PageId) (L : List (Key × Tree n)) (k : Key) (x : Tree n) (R : List (Key × Tree n)) :
    Place :=
  ⟨x.id,i,routes (L ++ (k,x)::R),L.length⟩

theorem seat_left (a : Tree n) (ka : Key) : seat i (L ++ [(ka,a)]) k x R =
    leftPlace i (routes L) ka a.id k x.id (routes R) := by
  simp [seat,leftPlace]

theorem seat_right (b : Tree n) (kb : Key) : seat i L k x ((kb,b)::R) =
    rightPlace i (routes L) k x.id kb b.id (routes R) := by
  simp [seat,rightPlace]

theorem seat_leftmost : (seat i [] k x R).leftId = invalidPageId := rfl

theorem seat_rightmost : (seat i L k x []).rightId = invalidPageId := by
  have h := rightSibling_nil (P := routes L) (k := k) (i := x.id)
  rw [length_routes] at h
  rwa [Place.rightId,seat,routes_append]

theorem child_mem_cells {y : Key × Tree n} (hy : y ∈ cs) :
    ∃ nx, (y.2.id,y.2.page c i nx) ∈ (Tree.node i cs).cells c parent next := by
  obtain ⟨as,bs,rfl⟩ := List.append_of_mem hy
  refine ⟨headId next (leavesOf bs),?_⟩
  rw [cells_node,cellsOf_append,cellsOf_cons,y.2.cells_eq]
  simp

theorem lends_run (x : Tree n) (place : Place) (nx : PageId) (hy : (ka,a) ∈ cs)
    (ho : Owns s ((Tree.node i cs).cells c parent next ++ F)) :
    ((remedies c x place nx).canLend a.id).run s = .ok (decide (c.minSize n < a.size)) s := by
  obtain ⟨p,hm⟩ := child_mem_cells hy
  exact canLend_run ho (List.mem_append_left _ hm)

theorem lends_left (nx : PageId)
    (ho : Owns s ((Tree.node i (L ++ [(ka,a)] ++ (k,x)::R)).cells c parent next ++ F)) :
    ((remedies c x (seat i (L ++ [(ka,a)]) k x R) nx).canLend
      (seat i (L ++ [(ka,a)]) k x R).leftId).run s = .ok (decide (c.minSize n < a.size)) s := by
  have hid : (seat i (L ++ [(ka,a)]) k x R).leftId = a.id := by
    rw [seat_left,leftPlace_leftId]
  have hm : (ka,a) ∈ L ++ [(ka,a)] ++ (k,x)::R := by simp
  rw [hid]
  exact lends_run x _ nx hm ho

theorem lends_right {b : Tree n} {kb : Key} (nx : PageId)
    (ho : Owns s ((Tree.node i (L ++ (k,x)::(kb,b)::R)).cells c parent next ++ F)) :
    ((remedies c x (seat i L k x ((kb,b)::R)) nx).canLend
      (seat i L k x ((kb,b)::R)).rightId).run s = .ok (decide (c.minSize n < b.size)) s := by
  have hid : (seat i L k x ((kb,b)::R)).rightId = b.id := by
    rw [seat_right,rightPlace_rightId]
  have hm : (kb,b) ∈ L ++ (k,x)::(kb,b)::R := by simp
  rw [hid]
  exact lends_run x _ nx hm ho

/-- The leftmost child has only a right sibling. -/
theorem helped_leftmost {b : Tree n} {kb : Key} (hc : c.Valid) (hb : b.Sound c kb (upper hi R))
    (hR : Fenced (Tree.Sound c) hi (upper hi R) R) (hx : x.Body c lo kb) (hle : lo ≤ kb)
    (hxs : x.size + 1 = c.minSize n) (hlen : ((k,x)::(kb,b)::R).length ≤ c.internalMax)
    (ho : Owns s ((Tree.node i ((k,x)::(kb,b)::R)).cells c parent next ++ F)) (nx : PageId) :
    Helped c lo hi i parent next F s ((k,x)::(kb,b)::R) up
      ((withSiblings (seat i [] k x ((kb,b)::R)) (remedies c x (seat i [] k x ((kb,b)::R)) nx)
        up).run s) := by
  have hleft : ((remedies c x (seat i [] k x ((kb,b)::R)) nx).canLend
      (seat i [] k x ((kb,b)::R)).leftId).run s = .ok false s := canLend_invalid
  have hright := lends_right (L := []) nx ho
  have hne : (seat i [] k x ((kb,b)::R)).rightId ≠ invalidPageId := by
    rw [seat_right,rightPlace_rightId]
    have hy : (kb,b) ∈ (k,x)::(kb,b)::R := by simp
    obtain ⟨p,hm⟩ := child_mem_cells hy
    exact ho.left.ne_invalid hm
  by_cases hlend : c.minSize n < b.size
  · rw [decide_eq_true hlend] at hright
    rw [withSiblings_right hleft hright,seat_right]
    exact helped_borrowRight (L := []) hc trivial hR hlen ho hx hb hxs hlend hle
  · rw [decide_eq_false hlend] at hright
    rw [withSiblings_mergeRight hleft hright rfl hne,seat_right]
    exact helped_mergeRight (L := []) hc trivial hR hlen ho hx hb hxs hlend hle

/-- Any other child turns to its left sibling first, then to its right one. -/
theorem helped_other (hc : c.Valid) (hL : Fenced (Tree.Sound c) ka lo L)
    (ha : a.Sound c (lower lo ka L) k) (hR : Fenced (Tree.Sound c) hi (upper hi R) R)
    (hx : x.Body c k (upper hi R)) (hle : k ≤ upper hi R) (hxs : x.size + 1 = c.minSize n)
    (hlen : (L ++ [(ka,a)] ++ (k,x)::R).length ≤ c.internalMax)
    (ho : Owns s ((Tree.node i (L ++ [(ka,a)] ++ (k,x)::R)).cells c parent next ++ F)) :
    Helped c lo hi i parent next F s (L ++ [(ka,a)] ++ (k,x)::R) up
      ((withSiblings (seat i (L ++ [(ka,a)]) k x R) (remedies c x (seat i (L ++ [(ka,a)]) k x R)
        (headId next (leavesOf R))) up).run s) := by
  have hleft := lends_left (headId next (leavesOf R)) ho
  have hsplit : L ++ [(ka,a)] ++ (k,x)::R = L ++ (ka,a)::(k,x)::R := by simp
  by_cases hlend : c.minSize n < a.size
  · rw [decide_eq_true hlend] at hleft
    rw [withSiblings_left hleft,seat_left]
    rw [hsplit] at hlen ho ⊢
    exact helped_borrowLeft hc hL hR hlen ho ha hx hxs hlend hle
  rw [decide_eq_false hlend] at hleft
  have hmerge : ((remedies c x (seat i (L ++ [(ka,a)]) k x R) (headId next (leavesOf R))).canLend
        (seat i (L ++ [(ka,a)]) k x R).rightId).run s = .ok false s →
      Helped c lo hi i parent next F s (L ++ [(ka,a)] ++ (k,x)::R) up
        ((withSiblings (seat i (L ++ [(ka,a)]) k x R) (remedies c x
          (seat i (L ++ [(ka,a)]) k x R) (headId next (leavesOf R))) up).run s) := by
    intro hright
    have hne : (seat i (L ++ [(ka,a)]) k x R).leftId ≠ invalidPageId := by
      rw [seat_left,leftPlace_leftId]
      have hy : (ka,a) ∈ L ++ [(ka,a)] ++ (k,x)::R := by simp
      obtain ⟨p,hm⟩ := child_mem_cells hy
      exact ho.left.ne_invalid hm
    rw [withSiblings_mergeLeft hleft hright hne,seat_left]
    rw [hsplit] at hlen ho ⊢
    exact helped_mergeLeft hc hL hR hlen ho ha hx hxs hlend hle
  cases R with
  | nil =>
    refine hmerge ?_
    rw [seat_rightmost]
    exact canLend_invalid
  | cons y R =>
    obtain ⟨kb,b⟩ := y
    have hright := lends_right (headId next (leavesOf ((kb,b)::R))) ho
    by_cases hb : c.minSize n < b.size
    · rw [decide_eq_true hb] at hright
      rw [withSiblings_right hleft hright,seat_right]
      have hLa : Fenced (Tree.Sound c) k lo (L ++ [(ka,a)]) := fenced_append.mpr ⟨hL,ha,trivial⟩
      have hlower : lower lo k (L ++ [(ka,a)]) = k := lower_of_ne_nil (by simp)
      exact helped_borrowRight hc hLa hR.2 hlen ho (by rwa [hlower]) hR.1 hxs hb (by rwa [hlower])
    · rw [decide_eq_false hb] at hright
      exact hmerge hright

theorem helped (hc : c.Valid) (hL : Fenced (Tree.Sound c) k lo L)
    (hR : Fenced (Tree.Sound c) hi (upper hi R) R)
    (hx : x.Body c (lower lo k L) (upper hi R)) (hle : lower lo k L ≤ upper hi R)
    (hxs : x.size + 1 = c.minSize n) (hlen : (L ++ (k,x)::R).length ≤ c.internalMax)
    (htwo : 2 ≤ (L ++ (k,x)::R).length)
    (ho : Owns s ((Tree.node i (L ++ (k,x)::R)).cells c parent next ++ F)) :
    Helped c lo hi i parent next F s (L ++ (k,x)::R) up
      ((withSiblings (seat i L k x R) (remedies c x (seat i L k x R) (headId next (leavesOf R)))
        up).run s) := by
  rcases List.eq_nil_or_concat L with rfl | ⟨L,⟨ka,a⟩,rfl⟩
  · cases R with
    | nil => simp at htwo
    | cons y R => exact helped_leftmost hc hR.1 hR.2 hx hle hxs hlen ho _
  · rw [List.concat_eq_append] at *
    have hlower : lower lo k (L ++ [(ka,a)]) = k := lower_of_ne_nil (by simp)
    rw [hlower] at hx hle
    obtain ⟨hL,ha⟩ := fenced_append.mp hL
    exact helped_other hc hL ha.1 hR hx hle hxs hlen ho

/-! ### One level of rebalancing -/

theorem childIndex_seat (ho : Owns s ((Tree.node i (L ++ (k,x)::R)).cells c parent next ++ F)) :
    childIndex x.id (routes (L ++ (k,x)::R)) = some L.length := by
  rw [cells_node,List.cons_append] at ho
  have h := childIndex_append (k := k) (Q := routes R) ho.tail.id_ne
  rw [length_routes] at h
  rwa [routes_append,routes_cons]

/-- A short page below the root turns to its siblings. -/
theorem rebalance_run (hc : c.Valid) (hx : x.Body c lo hi) (hxs : x.size < c.minSize n)
    (hroot : x.id ≠ s.rootPageId) (fuel : ℕ)
    (ho : Owns s ((Tree.node i (L ++ (k,x)::R)).cells c parent next ++ F)) :
    (rebalance n fuel x.id).run s = (withSiblings (seat i L k x R)
      (remedies c x (seat i L k x R) (headId next (leavesOf R))) (rebalanceInternal fuel i)).run s := by
  have hindex := childIndex_seat ho
  have hfocus := owns_focus.mp ho
  have hm : (i,.internal ⟨c.internalMax,parent,routes (L ++ (k,x)::R)⟩) ∈
      (Tree.node i (L ++ (k,x)::R)).cells c parent next ++ F := List.mem_cons_self
  have hparent := run_fetchInternal ho hm
  cases n with
  | zero =>
    obtain ⟨j,es,rfl⟩ := x.exists_leaf
    have hread := run_readLeaf hc hx hfocus List.mem_cons_self
    rw [id_leaf] at hindex ⊢
    rw [rebalance,rebalanceLeaf,run_bind_ok hread]
    simp only
    rw [run_bind_ok hparent]
    simp only [hindex]
    rfl
  | succ n =>
    obtain ⟨j,cs,rfl⟩ := x.exists_node
    have hread := run_readInternal hc hx hfocus List.mem_cons_self
    have hget : (get : TreeM BPlusTree).run s = .ok s s := rfl
    have hshort : ¬ (c.internalMax + 1) / 2 ≤ (routes cs).length := by
      rw [length_routes]
      exact not_le.mpr hxs
    rw [id_node] at hindex hroot ⊢
    rw [rebalance,rebalanceInternal,run_bind_ok hread,run_bind_ok hget]
    simp only [if_neg hroot,if_neg hshort]
    rw [run_bind_ok hparent]
    simp only [hindex]
    rfl

/-- A page that is large enough stays as it is. -/
theorem rebalance_fits {t : Tree (n+1)} (hc : c.Valid) (ht : t.Body c lo hi)
    (hts : c.minSize (n+1) ≤ t.size) (hroot : t.id ≠ s.rootPageId) (fuel : ℕ)
    (ho : Owns s (t.cells c parent next ++ F)) :
    (rebalance (n+1) fuel t.id).run s = .ok () s := by
  obtain ⟨j,cs,rfl⟩ := t.exists_node
  have hread := run_readInternal hc ht ho List.mem_cons_self
  have hget : (get : TreeM BPlusTree).run s = .ok s s := rfl
  have hsize : (c.internalMax + 1) / 2 ≤ (routes cs).length := by
    rw [length_routes]
    exact hts
  rw [id_node] at hroot ⊢
  rw [rebalance,rebalanceInternal,run_bind_ok hread,run_bind_ok hget]
  simp only [if_neg hroot,if_pos hsize]
  rfl

/-! ### The least key of a child -/

theorem parent_page (hc : c.Valid) (h : t.Body c lo hi) :
    (t.page c parent next).parent = .ok parent := by
  cases n with
  | zero =>
    obtain ⟨i,es,rfl⟩ := t.exists_leaf
    rw [body_leaf] at h
    simp only [page_leaf,IndexPage.parent,toLeaf_leaf hc h.1 h.2.1]
  | succ n =>
    obtain ⟨i,cs,rfl⟩ := t.exists_node
    rw [body_node] at h
    simp only [page_node,IndexPage.parent,toLeaf_internal,fail,toInternal_internal hc h.1 h.2]

/-- The leftmost child leaves a new least key to its parent. -/
theorem propagate_leftmost (hc : c.Valid) (hx : x.Body c lo hi) (fuel : ℕ)
    (ho : Owns s ((Tree.node i ((k,x)::R)).cells c parent next ++ F)) :
    (propagateMinimumChange m (fuel+1) x.id).run s = (propagateMinimumChange m fuel i).run s := by
  have hindex := childIndex_seat (L := []) ho
  have hfocus := owns_focus (L := []).mp ho
  rw [x.cells_eq] at hfocus
  have hne : i ≠ invalidPageId := ho.ne_invalid List.mem_cons_self
  have hm : (i,.internal ⟨c.internalMax,parent,routes ((k,x)::R)⟩) ∈
      (Tree.node i ((k,x)::R)).cells c parent next ++ F := List.mem_cons_self
  rw [propagateMinimumChange,run_bind_ok (run_fetchPage hfocus List.mem_cons_self),
    parent_page hc hx,run_bind_ok (run_ofResult_ok _),if_neg hne,
    run_bind_ok (run_fetchInternal ho hm)]
  rw [List.nil_append] at hindex
  simp only [hindex,List.length_nil,ne_eq,not_true_eq_false,if_false]

/-- Any other child gives it to the separator before it. -/
theorem propagate_other (hc : c.Valid) (hx : x.Body c lo hi) (hL : L ≠ []) (fuel : ℕ)
    (hlen : (L ++ (k,x)::R).length ≤ c.internalMax)
    (ho : Owns s ((Tree.node i (L ++ (k,x)::R)).cells c parent next ++ F)) :
    ∃ s', (propagateMinimumChange m (fuel+1) x.id).run s = .ok () s' ∧
      Owns s' ((Tree.node i (L ++ (m,x)::R)).cells c parent next ++ F) ∧ Keeps s s' := by
  have hindex := childIndex_seat ho
  have hfocus := owns_focus.mp ho
  rw [x.cells_eq] at hfocus
  have hne : i ≠ invalidPageId := ho.ne_invalid List.mem_cons_self
  have hm : (i,.internal ⟨c.internalMax,parent,routes (L ++ (k,x)::R)⟩) ∈
      (Tree.node i (L ++ (k,x)::R)).cells c parent next ++ F := List.mem_cons_self
  have hset : setKeyAt (routes (L ++ (k,x)::R)) L.length m = routes (L ++ (m,x)::R) := by
    have h := setKeyAt_append (P := routes L) (k := k) (i := x.id) (Q := routes R) (K := m)
    rw [length_routes] at h
    rw [routes_append,routes_cons,h,routes_append,routes_cons]
  have hlen' : (routes (L ++ (m,x)::R)).length ≤ c.internalMax := by
    simpa using hlen
  obtain ⟨s',hr,ho',hk⟩ := assignInternal_spec (r := routes (L ++ (m,x)::R)) ho hlen'
  refine ⟨s',?_,?_,hk⟩
  · rw [propagateMinimumChange,run_bind_ok (run_fetchPage hfocus List.mem_cons_self),
      parent_page hc hx,run_bind_ok (run_ofResult_ok _),if_neg hne,
      run_bind_ok (run_fetchInternal ho hm)]
    simp only [hindex,ne_eq,List.length_eq_zero_iff,hL,not_false_eq_true,if_true,hset]
    exact hr
  · have hcells : cellsOf c i next (L ++ (m,x)::R) = cellsOf c i next (L ++ (k,x)::R) := by
      simp only [cellsOf_append,cellsOf_cons,leavesOf_cons]
    rw [cells_node,hcells]
    exact ho'

/-! ### Removal from a subtree -/

/-- A subtree after a removal. -/
structure Shrunk (c : Capacity) (e : Entry) (lo hi : Key) (t t' : Tree n) : Prop where
  body : t'.Body c lo hi
  id : t'.id = t.id
  head : ∀ d, headId d t'.leaves = headId d t.leaves
  entries : (e::t'.entries).Perm t.entries

/-- What is left to do above a subtree after a removal: nothing, to pass on its least key, or, when
its root has lost an entry, to look at the size of that page. -/
def Above (c : Capacity) (s : BPlusTree) (t t' : Tree n)
    (result : EStateM.Result Failure BPlusTree Unit) : Prop :=
  (min (c.minSize n) t.size ≤ t'.size ∧ (result = .ok () s ∨ ∃ fuel, fuel + n = pageTurns ∧
    result = (propagateMinimumChange (firstKey t'.entries) fuel t.id).run s)) ∨
  (t'.size + 1 = t.size ∧ (n = 0 → t'.size < c.minSize n) ∧ ∃ fuel, fuel + n = pageTurns ∧
    result = (rebalance n fuel t.id).run s)

def Removed (c : Capacity) (e : Entry) (lo hi : Key) (parent next : PageId)
    (F : List (PageId × IndexPage)) (s : BPlusTree) (t : Tree n)
    (result : EStateM.Result Failure BPlusTree Unit) : Prop :=
  ∃ t' s', Owns s' (t'.cells c parent next ++ F) ∧ Keeps s s' ∧ Shrunk c e lo hi t t' ∧
    Above c s' t t' result

theorem Shrunk.node {x' : Tree n} (h : (Tree.node i (L ++ (k,x)::R)).Body c lo hi)
    (hx : Shrunk c e (lower lo k L) (upper hi R) x x') (hs : c.minSize n ≤ x'.size) :
    Shrunk c e lo hi (Tree.node i (L ++ (k,x)::R)) (Tree.node i (L ++ (k,x')::R)) := by
  rw [body_node] at h
  refine ⟨?_,rfl,fun d => ?_,?_⟩
  · rw [body_node]
    exact ⟨by simpa using h.1,Fenced.set h.2 ⟨hs,hx.body⟩⟩
  · simp [hx.head]
  · simp only [entries_node,entriesOf_append,entriesOf_cons]
    have h1 := (hx.entries.append_right (entriesOf R)).append_left (entriesOf L)
    exact List.Perm.trans (by grind) h1

theorem Shrunk.owns {x' : Tree n} {lo' hi' : Key} (hx : Shrunk c e lo' hi' x x')
    (ho : Owns s' (x'.cells c i (headId next (leavesOf R)) ++
      ((i,.internal ⟨c.internalMax,parent,routes (L ++ (k,x)::R)⟩) ::
        (cellsOf c i (headId next (x.leaves ++ leavesOf R)) L ++ (cellsOf c i next R ++ F))))) :
    Owns s' ((Tree.node i (L ++ (k,x')::R)).cells c parent next ++ F) := by
  rw [owns_focus,headId_append,hx.head,← headId_append]
  simpa [hx.id] using ho

section Child

variable {x' : Tree n} (hc : c.Valid) (h : (Tree.node i (L ++ (k,x)::R)).Body c lo hi)
  (hx : Shrunk c e (lower lo k L) (upper hi R) x x') (hk : Keeps s s')
  (ho : Owns s' ((Tree.node i (L ++ (k,x')::R)).cells c parent next ++ F))
include h hx hk ho

theorem removed_settled (hs : c.minSize n ≤ x'.size) :
    Removed c e lo hi parent next F s (Tree.node i (L ++ (k,x)::R)) (.ok () s') :=
  ⟨_,s',ho,hk,hx.node h hs,.inl ⟨by simp,.inl rfl⟩⟩

include hc

/-- A new least key goes to the separator, or on to the parent. -/
theorem removed_minimum (hs : c.minSize n ≤ x'.size) {fuel : ℕ} (hf : fuel + n = pageTurns)
    (hn : n < pageTurns) :
    Removed c e lo hi parent next F s (Tree.node i (L ++ (k,x)::R))
      ((propagateMinimumChange (firstKey x'.entries) fuel x.id).run s') := by
  obtain ⟨fuel,rfl⟩ : ∃ f, fuel = f + 1 := ⟨fuel-1,by omega⟩
  have hsound : x'.Sound c (lower lo k L) (upper hi R) := ⟨hs,hx.body⟩
  obtain ⟨hlo,hhi,hle⟩ := hsound.firstKey_le hc
  have hshrunk := hx.node h hs
  rw [← hx.id]
  by_cases hL : L = []
  · subst hL
    have hkey : firstKey (Tree.node i ((k,x')::R)).entries = firstKey x'.entries := by
      have hne := hsound.entries_ne_nil hc
      cases he : x'.entries with
      | nil => exact absurd he hne
      | cons e es => simp [he,firstKey]
    rw [List.nil_append] at ho hshrunk ⊢
    refine ⟨_,s',ho,hk,hshrunk,.inl ⟨by simp,.inr ⟨fuel,by omega,?_⟩⟩⟩
    rw [hkey,propagate_leftmost hc hx.body fuel ho]
    rfl
  · have hlower : lower lo k L = k := lower_of_ne_nil hL
    have hbody := (body_node ..).mp hshrunk.body
    obtain ⟨s₁,hr,ho₁,hk₁⟩ := propagate_other (m := firstKey x'.entries) hc hx.body hL fuel hbody.1 ho
    refine ⟨Tree.node i (L ++ (firstKey x'.entries,x')::R),s₁,ho₁,hk.trans hk₁,
      ⟨?_,rfl,?_,?_⟩,.inl ⟨by simp,.inl hr⟩⟩
    · obtain ⟨hfL,-,hfR⟩ := fenced_append.mp hbody.2
      have hkm : k ≤ firstKey x'.entries := hlower ▸ hlo
      refine (body_node ..).mpr ⟨by simpa using hbody.1,fenced_append.mpr ⟨?_,?_,hfR⟩⟩
      · exact hfL.widen (fun _ _ _ _ _ h h1 h2 => h.widen h1 h2) le_rfl hkm
      · rw [lower_of_ne_nil hL]
        exact hsound.raise hle
    · simpa using hshrunk.head
    · simpa using hshrunk.entries

/-- A child that is one entry short turns to its siblings. -/
theorem removed_short (hsize : c.minSize n ≤ x.size) (hs : x'.size + 1 = x.size)
    (hzero : n = 0 → x'.size < c.minSize n) (htwo : 2 ≤ (L ++ (k,x)::R).length)
    (hroot : x.id ≠ s'.rootPageId) {fuel : ℕ} (hf : fuel + n = pageTurns) (hn : n < pageTurns) :
    Removed c e lo hi parent next F s (Tree.node i (L ++ (k,x)::R))
      ((rebalance n fuel x.id).run s') := by
  obtain ⟨fuel,rfl⟩ : ∃ f, fuel = f + 1 := ⟨fuel-1,by omega⟩
  rw [← hx.id] at hroot ⊢
  by_cases hfits : c.minSize n ≤ x'.size
  · cases n with
    | zero => exact absurd hfits (not_le.mpr (hzero rfl))
    | succ n =>
      rw [rebalance_fits hc hx.body hfits hroot _ (owns_focus.mp ho)]
      exact removed_settled h hx hk ho hfits
  · have hbody := (body_node ..).mp h
    obtain ⟨hfL,hfx,hfR⟩ := fenced_append.mp hbody.2
    have hlen : (L ++ (k,x')::R).length = (L ++ (k,x)::R).length := by simp
    rw [rebalance_run hc hx.body (not_le.mp hfits) hroot _ ho]
    have hhelped : Helped c lo hi i parent next F s' (L ++ (k,x')::R) (rebalanceInternal (fuel+1) i) _ :=
      helped hc hfL hfR hx.body (hfx.le hc) (by omega) (hlen ▸ hbody.1) (hlen ▸ htwo) ho
    obtain ⟨cs',s₁,ho₁,hk₁,hset,hres⟩ := hhelped
    have hperm : (e::entriesOf (L ++ (k,x')::R)).Perm (entriesOf (L ++ (k,x)::R)) := by
      simp only [entriesOf_append,entriesOf_cons]
      have h1 := (hx.entries.append_right (entriesOf R)).append_left (entriesOf L)
      exact List.Perm.trans (by grind) h1
    have hshrunk : Shrunk c e lo hi (Tree.node i (L ++ (k,x)::R)) (Tree.node i cs') := by
      refine ⟨(body_node ..).mpr ⟨?_,hset.fenced⟩,rfl,fun d => ?_,?_⟩
      · rcases hres with ⟨hl,-⟩ | ⟨hl,-⟩
        · exact (hl.trans hlen).trans_le hbody.1
        · omega
      · rw [leaves_node,hset.head]
        simp [hx.head]
      · rw [entries_node,entries_node]
        exact (hset.entries.cons e).trans hperm
    refine ⟨Tree.node i cs',s₁,ho₁,hk.trans hk₁,hshrunk,?_⟩
    rcases hres with ⟨hl,hr⟩ | ⟨hl,hr⟩
    · exact .inl ⟨by simp only [size_node]; omega,.inl hr⟩
    · exact .inr ⟨by simp only [size_node]; omega,by simp,fuel,by omega,hr⟩

end Child

/-- One level up. -/
theorem Removed.node {result : EStateM.Result Failure BPlusTree Unit} (hc : c.Valid)
    (h : (Tree.node i (L ++ (k,x)::R)).Body c lo hi) (htwo : 2 ≤ (L ++ (k,x)::R).length)
    (hn : n < pageTurns) (hroot : x.id ≠ s.rootPageId)
    (hx : Removed c e (lower lo k L) (upper hi R) i (headId next (leavesOf R))
      ((i,.internal ⟨c.internalMax,parent,routes (L ++ (k,x)::R)⟩) ::
        (cellsOf c i (headId next (x.leaves ++ leavesOf R)) L ++ (cellsOf c i next R ++ F))) s x
      result) :
    Removed c e lo hi parent next F s (Tree.node i (L ++ (k,x)::R)) result := by
  obtain ⟨x',s₁,ho,hk,hshrunk,habove⟩ := hx
  have ho := hshrunk.owns ho
  have hsize := (fenced_append.mp ((body_node ..).mp h).2).2.1.1
  rw [← hk.root] at hroot
  rcases habove with ⟨hs,rfl | ⟨fuel,hf,rfl⟩⟩ | ⟨hs,hzero,fuel,hf,rfl⟩
  · rw [min_eq_left hsize] at hs
    exact removed_settled h hshrunk hk ho hs
  · rw [min_eq_left hsize] at hs
    exact removed_minimum hc h hshrunk hk ho hs hf hn
  · exact removed_short hc h hshrunk hk ho hsize hs hzero htwo hroot hf hn

theorem Owns.id_ne_of_mem {j : PageId} (ho : Owns s (t.cells c parent next ++ F))
    (hj : j ∈ F.map Prod.fst) : t.id ≠ j := by
  have hn := ho.holds.nodup
  rw [List.map_append] at hn
  rintro rfl
  exact (List.disjoint_of_nodup_append hn) (t.id_mem_cells c parent next) hj

variable {key : Key} {rid : RID} {l : Leaf}

/-- `Remove` on a leaf below the root. -/
theorem removeFrom_leaf {es : List Entry} (h : (Tree.leaf i es).Body c lo hi)
    (ho : Owns s ((Tree.leaf i es).cells c parent next ++ F)) (hroot : i ≠ s.rootPageId)
    (he : (key,rid) ∈ es) :
    Removed c (key,rid) lo hi parent next F s (Tree.leaf i es) ((removeFrom i key rid).run s) := by
  have hbody := (body_leaf ..).mp h
  have hlen := List.length_erase_add_one he
  rw [cells_leaf,List.singleton_append] at ho
  have hfetch : (fetchLeaf i).run s = .ok ⟨c.leafMax,parent,next,es⟩ s :=
    run_fetchLeaf ho List.mem_cons_self
  obtain ⟨s₁,hr₁,ho₁,hk₁⟩ := writePage_spec
    (q := .leaf ⟨c.leafMax,parent,next,es.erase (key,rid)⟩) ho
  have hget : (get : TreeM BPlusTree).run s₁ = .ok s₁ s₁ := rfl
  have hassign : (⟨c.leafMax,parent,next,es⟩ : LeafPage).assign (es.erase (key,rid)) =
      .ok ⟨c.leafMax,parent,next,es.erase (key,rid)⟩ := LeafPage.assign_ok (by simp; omega)
  refine ⟨Tree.leaf i (es.erase (key,rid)),s₁,ho₁,hk₁,⟨?_,rfl,fun _ => rfl,?_⟩,?_⟩
  · exact (body_leaf ..).mpr ⟨hbody.1.sublist List.erase_sublist,by omega,
      fun e he => hbody.2.2 e (List.mem_of_mem_erase he)⟩
  · simpa using (List.perm_cons_erase he).symm
  · rw [← hk₁.root] at hroot
    rw [removeFrom,run_bind_ok hfetch]
    simp only [he,not_true_eq_false,if_false]
    rw [hassign,run_bind_ok (run_ofResult_ok _),run_bind_ok hr₁,settleLeaf,run_bind_ok hget,
      if_neg hroot]
    by_cases hsize : (c.leafMax + 1) / 2 ≤ (es.erase (key,rid)).length
    · rw [if_pos hsize]
      refine .inl ⟨le_trans (min_le_left ..) hsize,?_⟩
      by_cases hmin : es.head? = some (key,rid)
      · simp only [hmin,decide_true,if_true]
        exact .inr ⟨pageTurns,rfl,by rw [entries_leaf]; rfl⟩
      · simp only [hmin,decide_false,Bool.false_eq_true,if_false]
        exact .inl rfl
    · rw [if_neg hsize]
      exact .inr ⟨hlen,fun _ => not_le.mp hsize,pageTurns,rfl,rfl⟩

theorem exists_child (hl : l ∈ leavesOf cs) : ∃ L k x R, cs = L ++ (k,x)::R ∧ l ∈ x.leaves := by
  obtain ⟨y,hy,hly⟩ := List.mem_flatMap.mp hl
  obtain ⟨L,R,rfl⟩ := List.append_of_mem hy
  exact ⟨L,y.1,y.2,R,rfl,hly⟩

/-- By induction on the height, for the subtrees below the root page. -/
theorem removeFrom_spec (hc : c.Valid) (h : t.Sound c lo hi)
    (ho : Owns s (t.cells c parent next ++ F)) (hroot : s.rootPageId ∈ F.map Prod.fst)
    (hn : n < pageTurns) (hl : l ∈ t.leaves) (he : (key,rid) ∈ l.entries) :
    Removed c (key,rid) lo hi parent next F s t ((removeFrom l.id key rid).run s) := by
  have hid := ho.id_ne_of_mem hroot
  induction n generalizing lo hi parent next F with
  | zero =>
    obtain ⟨i,es,rfl⟩ := t.exists_leaf
    obtain rfl : l = ⟨i,es⟩ := by simpa using hl
    exact removeFrom_leaf h.2 ho hid he
  | succ n ih =>
    obtain ⟨i,cs,rfl⟩ := t.exists_node
    obtain ⟨L,k,x,R,rfl,hlx⟩ := exists_child hl
    have hx := (fenced_append.mp ((body_node ..).mp h.2).2).2.1
    have hfocus := owns_focus.mp ho
    have hroot' : s.rootPageId ∈ ((i,IndexPage.internal ⟨c.internalMax,parent,routes (L ++ (k,x)::R)⟩) ::
        (cellsOf c i (headId next (x.leaves ++ leavesOf R)) L ++
          (cellsOf c i next R ++ F))).map Prod.fst := by
      simp only [List.map_cons,List.map_append,List.mem_cons,List.mem_append,hroot,or_true]
    have hne := hfocus.id_ne_of_mem hroot'
    have hn' : n < pageTurns := Nat.lt_of_succ_lt hn
    exact (ih hx hfocus hroot' hn' hlx hne).node hc h.2 (le_trans (hc.two_le_minSize n) h.1) hn' hne

end Index
end OurSql
