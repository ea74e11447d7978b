import OurSql.Index.Neighbours

/-! One level of rebalancing: a child that is one entry short borrows from a sibling or
merges with it, and after a merge the parent is looked at. -/
namespace OurSql
namespace Index

open Fence Heap

variable {n : ℕ} {c : Capacity} {t a b x y a' x' : Tree n} {cs L R : List (Key × Tree n)}
  {parent next i ja jx : PageId} {lo hi k ka kb m : Key} {s s' : BPlusTree}
  {F : List (PageId × IndexPage)} {P Q : List (Key × PageId)} {place : Place}

/-- `RebalanceLeaf` and `RebalanceInternal` by the height of the page. -/
def rebalance (n fuel : ℕ) (id : PageId) : TreeM Unit :=
  match n with
  | 0 => rebalanceLeaf fuel id
  | _+1 => rebalanceInternal (fuel+1) id

/-- What they do with the siblings of a page with the entries of `x`. -/
def remedies (c : Capacity) : {n : ℕ} → Tree n → Place → PageId → Remedies
  | 0, x, place, next =>
    { canLend := (leafCanLend · (c.minSize 0))
      borrowLeft := borrowLeafLeft place (Leaf.entries x)
      borrowRight := borrowLeafRight place (Leaf.entries x)
      mergeRight := mergeLeafRight place (Leaf.entries x)
      mergeLeft := mergeLeafLeft place (Leaf.entries x) next
      noSibling := ⟨.internalError,"B+树叶子页没有可合并的兄弟"⟩ }
  | n+1, x, place, _ =>
    { canLend := (internalCanLend · (c.minSize (n+1)))
      borrowLeft := borrowInternalLeft place (routes (Node.children x))
      borrowRight := borrowInternalRight place (routes (Node.children x))
      mergeRight := mergeInternalRight place (routes (Node.children x))
      mergeLeft := mergeInternalLeft place (routes (Node.children x))
      noSibling := ⟨.internalError,"B+树内部页没有可合并的兄弟"⟩ }

theorem canLend_invalid : ((remedies c x place next).canLend invalidPageId).run s = .ok false s := by
  cases n <;> rfl

theorem canLend_run {xs : List (PageId × IndexPage)} {p nx : PageId} (ho : Owns s xs)
    (hm : (a.id,a.page c p nx) ∈ xs) :
    ((remedies c x place next).canLend a.id).run s = .ok (decide (c.minSize n < a.size)) s := by
  have hne := ho.ne_invalid hm
  cases n with
  | zero =>
    obtain ⟨i,es,rfl⟩ := a.exists_leaf
    have hread := run_fetchLeaf ho hm
    simp only [remedies,leafCanLend,if_neg hne]
    rw [run_bind_ok hread]
    rfl
  | succ n =>
    obtain ⟨i,es,rfl⟩ := a.exists_node
    have hread := run_fetchInternal ho hm
    simp only [remedies,internalCanLend,if_neg hne]
    rw [run_bind_ok hread]
    simp only [length_routes]
    rfl

theorem exists_concat {α : Type} {l : List α} (h : l ≠ []) : ∃ l' b, l = l' ++ [b] :=
  ⟨_,_,(List.dropLast_concat_getLast h).symm⟩

/-- The first neighbour lends its last entry. -/
theorem borrowLeft_spec (hc : c.Valid) (ha : a.Sound c lo k) (hx : x.Body c k hi)
    (hxs : x.size + 1 = c.minSize n) (hlend : c.minSize n < a.size) (hhi : k ≤ hi)
    (hl : (P ++ (ka,a.id)::(k,x.id)::Q).length ≤ c.internalMax)
    (ho : Owns s (pairCells c i parent next P ka a k x Q F)) :
    ∃ a' x' m s', (remedies c x (leftPlace i P ka a.id k x.id Q) next).borrowLeft.run s = .ok () s' ∧
      Owns s' (pairCells c i parent next P ka a' m x' Q F) ∧ Keeps s s' ∧
      Lent c lo m hi a x a' x' := by
  have hpos := hc.minSize_pos n
  cases n with
  | zero =>
    obtain ⟨ja,ea,rfl⟩ := a.exists_leaf
    obtain ⟨jx,ex,rfl⟩ := x.exists_leaf
    have hne : ea ≠ [] := by
      rintro rfl
      simp at hlend
    obtain ⟨ea,e,rfl⟩ := exists_concat hne
    have hlent := borrowLeafLeft_lent ha hx hxs hlend hc hhi
    have hl1 := ((sound_leaf ..).mp hlent.left).2.2.1
    have hl2 := ((sound_leaf ..).mp hlent.right).2.2.1
    obtain ⟨s',hr,ho',hk⟩ := borrowLeafLeft_run hl hl1 (by simpa using hl2) ho
    exact ⟨_,_,_,s',hr,ho',hk,hlent⟩
  | succ n =>
    obtain ⟨ja,ca,rfl⟩ := a.exists_node
    obtain ⟨jx,cx,rfl⟩ := x.exists_node
    have hne : ca ≠ [] := by
      rintro rfl
      simp at hlend
    have hnx : cx ≠ [] := by
      have htwo := hc.two_le_minSize n
      rintro rfl
      simp at hxs
      omega
    obtain ⟨ca,d,rfl⟩ := exists_concat hne
    obtain ⟨kd,d⟩ := d
    cases cx with
    | nil => exact absurd rfl hnx
    | cons x₀ cx =>
      obtain ⟨k₀,x₀⟩ := x₀
      have hlent := borrowInternalLeft_lent hc ha hx hxs hlend
      have hd := (fenced_append.mp ha.2.2).2.1
      obtain ⟨s',hr,ho',hk⟩ := borrowInternalLeft_run hc hd hl ha.2.1
        (by simpa using ((sound_node ..).mp hlent.right).2.1) ho
      exact ⟨_,_,_,s',hr,ho',hk,hlent⟩

/-- The second neighbour lends its first entry. -/
theorem borrowRight_spec (nx : PageId) (hc : c.Valid) (ha : a.Body c lo k) (hx : x.Sound c k hi)
    (has : a.size + 1 = c.minSize n) (hlend : c.minSize n < x.size) (hlo : lo ≤ k)
    (hl : (P ++ (ka,a.id)::(k,x.id)::Q).length ≤ c.internalMax)
    (ho : Owns s (pairCells c i parent next P ka a k x Q F)) :
    ∃ a' x' m s', (remedies c a (rightPlace i P ka a.id k x.id Q) nx).borrowRight.run s = .ok () s' ∧
      Owns s' (pairCells c i parent next P ka a' m x' Q F) ∧ Keeps s s' ∧
      Lent c lo m hi a x a' x' := by
  have hpos := hc.minSize_pos n
  cases n with
  | zero =>
    obtain ⟨ja,ea,rfl⟩ := a.exists_leaf
    obtain ⟨jx,ex,rfl⟩ := x.exists_leaf
    cases ex with
    | nil => simp at hlend
    | cons e ex =>
      have hlent := borrowLeafRight_lent ha hx has hlend hc hlo
      have hl1 := ((sound_leaf ..).mp hlent.left).2.2.1
      have hl2 := ((sound_leaf ..).mp hlent.right).2.2.1
      obtain ⟨s',hr,ho',hk⟩ := borrowLeafRight_run hl (by simpa using hl1) hl2 ho
      exact ⟨_,_,_,s',hr,ho',hk,hlent⟩
  | succ n =>
    obtain ⟨ja,ca,rfl⟩ := a.exists_node
    obtain ⟨jx,cx,rfl⟩ := x.exists_node
    have htwo := hc.two_le_minSize n
    match cx with
    | [] => simp at hlend
    | [_] =>
      simp only [size_node,List.length_singleton] at hlend
      omega
    | (kd,d)::(k₀,x₀)::cx =>
      have hlent := borrowInternalRight_lent hc ha hx has hlend
      have hf := hx.2.2
      obtain ⟨s',hr,ho',hk⟩ := borrowInternalRight_run hc hf.1.2 hf.2.1 hl
        (by simpa using ((sound_node ..).mp hlent.left).2.1) hx.2.1 ho
      exact ⟨_,_,_,s',hr,ho',hk,hlent⟩

theorem two_minSize_le (c : Capacity) (n : ℕ) : 2 * c.minSize n ≤ c.maxSize n + 1 := by
  simp only [Capacity.minSize]
  omega

/-- A page that is one entry short fits into its left sibling when that cannot lend. -/
theorem mergeLeft_spec (hc : c.Valid) (ha : a.Sound c lo k) (hx : x.Body c k hi)
    (hxs : x.size + 1 = c.minSize n) (hlend : ¬ c.minSize n < a.size) (hhi : k ≤ hi)
    (hl : (P ++ (ka,a.id)::(k,x.id)::Q).length ≤ c.internalMax)
    (ho : Owns s (pairCells c i parent next P ka a k x Q F)) :
    ∃ y s', (remedies c x (leftPlace i P ka a.id k x.id Q) next).mergeLeft.run s = .ok () s' ∧
      Owns s' (mergedCells c i parent next P ka y Q F) ∧ Keeps s s' ∧ Merged c lo hi a x y := by
  have hpos := hc.minSize_pos n
  have hmax := two_minSize_le c n
  have hlo := ha.le hc
  have has := ha.1
  cases n with
  | zero =>
    obtain ⟨ja,ea,rfl⟩ := a.exists_leaf
    obtain ⟨jx,ex,rfl⟩ := x.exists_leaf
    simp only [size_leaf,Capacity.minSize,Capacity.maxSize] at *
    have hsum : ea.length + ex.length ≤ c.leafMax := by omega
    obtain ⟨s',hr,ho',hk⟩ := mergeLeafLeft_run hl hsum ho
    exact ⟨_,s',hr,ho',hk,merged_leaf ha.2 hx (by omega) hsum hlo hhi⟩
  | succ n =>
    obtain ⟨ja,ca,rfl⟩ := a.exists_node
    obtain ⟨jx,cx,rfl⟩ := x.exists_node
    have htwo := hc.two_le_minSize n
    cases cx with
    | nil =>
      simp only [size_node,List.length_nil] at hxs
      omega
    | cons x₀ cx =>
      obtain ⟨k₀,x₀⟩ := x₀
      simp only [size_node,Capacity.minSize,Capacity.maxSize,List.length_cons] at *
      have hsum : ca.length + (cx.length + 1) ≤ c.internalMax := by omega
      have hne : ca ≠ [] := List.ne_nil_of_length_pos (by omega)
      obtain ⟨s',hr,ho',hk⟩ := mergeInternalLeft_run hc hx.2 hl hsum ho
      exact ⟨_,s',hr,ho',hk,merged_node hc ha.2 hx hne (by omega) hsum⟩

theorem mergeRight_spec (nx : PageId) (hc : c.Valid) (ha : a.Body c lo k) (hx : x.Sound c k hi)
    (has : a.size + 1 = c.minSize n) (hlend : ¬ c.minSize n < x.size) (hlo : lo ≤ k)
    (hl : (P ++ (ka,a.id)::(k,x.id)::Q).length ≤ c.internalMax)
    (ho : Owns s (pairCells c i parent next P ka a k x Q F)) :
    ∃ y s', (remedies c a (rightPlace i P ka a.id k x.id Q) nx).mergeRight.run s = .ok () s' ∧
      Owns s' (mergedCells c i parent next P ka y Q F) ∧ Keeps s s' ∧ Merged c lo hi a x y := by
  have hpos := hc.minSize_pos n
  have hmax := two_minSize_le c n
  have hhi := hx.le hc
  have hxs := hx.1
  cases n with
  | zero =>
    obtain ⟨ja,ea,rfl⟩ := a.exists_leaf
    obtain ⟨jx,ex,rfl⟩ := x.exists_leaf
    simp only [size_leaf,Capacity.minSize,Capacity.maxSize] at *
    have hsum : ea.length + ex.length ≤ c.leafMax := by omega
    obtain ⟨s',hr,ho',hk⟩ := mergeLeafRight_run hl hsum ho
    exact ⟨_,s',hr,ho',hk,merged_leaf ha hx.2 (by omega) hsum hlo hhi⟩
  | succ n =>
    obtain ⟨ja,ca,rfl⟩ := a.exists_node
    obtain ⟨jx,cx,rfl⟩ := x.exists_node
    have htwo := hc.two_le_minSize n
    cases cx with
    | nil =>
      simp only [size_node,List.length_nil] at hxs
      omega
    | cons x₀ cx =>
      obtain ⟨k₀,x₀⟩ := x₀
      simp only [size_node,Capacity.minSize,Capacity.maxSize,List.length_cons] at *
      have hsum : ca.length + (cx.length + 1) ≤ c.internalMax := by omega
      have hne : ca ≠ [] := List.ne_nil_of_length_pos (by omega)
      obtain ⟨s',hr,ho',hk⟩ := mergeInternalRight_run hc hx.2.2 hl hsum ho
      exact ⟨_,s',hr,ho',hk,merged_node hc ha hx.2 hne (by omega) hsum⟩

/-! ### The children of the parent -/

theorem owns_pair : Owns s ((Tree.node i (L ++ (ka,a)::(k,x)::R)).cells c parent next ++ F) ↔
    Owns s (pairCells c i parent (headId next (leavesOf R)) (routes L) ka a k x (routes R)
      (cellsOf c i (headId next (a.leaves ++ (x.leaves ++ leavesOf R))) L ++
        (cellsOf c i next R ++ F))) := by
  simp only [pairCells,cells_node,cellsOf_append,cellsOf_cons,leavesOf_cons,routes_append,
    routes_cons,headId_append]
  constructor <;> exact fun h => h.perm (by grind)

theorem owns_merged : Owns s ((Tree.node i (L ++ (ka,y)::R)).cells c parent next ++ F) ↔
    Owns s (mergedCells c i parent (headId next (leavesOf R)) (routes L) ka y (routes R)
      (cellsOf c i (headId next (y.leaves ++ leavesOf R)) L ++ (cellsOf c i next R ++ F))) := by
  simp only [mergedCells,cells_node,cellsOf_append,cellsOf_cons,leavesOf_cons,routes_append,
    routes_cons,headId_append]
  constructor <;> exact fun h => h.perm (by grind)

/-- The children of a page after one level of rebalancing. -/
structure Resettled (c : Capacity) (lo hi : Key) (cs cs' : List (Key × Tree n)) : Prop where
  fenced : Fenced (Tree.Sound c) hi lo cs'
  entries : (entriesOf cs').Perm (entriesOf cs)
  head : ∀ d, headId d (leavesOf cs') = headId d (leavesOf cs)

theorem Lent.owns (h : Lent c lo m hi a x a' x')
    (ho : Owns s (pairCells c i parent (headId next (leavesOf R)) (routes L) ka a' m x' (routes R)
      (cellsOf c i (headId next (a.leaves ++ (x.leaves ++ leavesOf R))) L ++
        (cellsOf c i next R ++ F)))) :
    Owns s ((Tree.node i (L ++ (ka,a')::(m,x')::R)).cells c parent next ++ F) := by
  rw [owns_pair,headId_append,h.head _ (headId next (x.leaves ++ leavesOf R)),← headId_append]
  exact ho

theorem Lent.resettled {lo' hi' : Key} (h : Lent c (lower lo' ka L) m (upper hi' R) a x a' x')
    (hL : Fenced (Tree.Sound c) ka lo' L) (hR : Fenced (Tree.Sound c) hi' (upper hi' R) R) :
    Resettled c lo' hi' (L ++ (ka,a)::(k,x)::R) (L ++ (ka,a')::(m,x')::R) := by
  refine ⟨fenced_append.mpr ⟨hL,h.left,h.right,hR⟩,?_,fun d => ?_⟩
  · simp only [entriesOf_append,entriesOf_cons]
    have hp := (h.entries.append_right (entriesOf R)).append_left (entriesOf L)
    simpa using hp
  · simp only [leavesOf_append,leavesOf_cons,headId_append]
    rw [h.head _ (headId (headId d (leavesOf R)) x.leaves)]

theorem Merged.owns (h : Merged c lo hi a x y)
    (ho : Owns s (mergedCells c i parent (headId next (leavesOf R)) (routes L) ka y (routes R)
      (cellsOf c i (headId next (a.leaves ++ (x.leaves ++ leavesOf R))) L ++
        (cellsOf c i next R ++ F)))) :
    Owns s ((Tree.node i (L ++ (ka,y)::R)).cells c parent next ++ F) := by
  rw [owns_merged,headId_append,h.head _ (headId next (x.leaves ++ leavesOf R)),← headId_append]
  exact ho

theorem Merged.resettled {lo' hi' : Key} (h : Merged c (lower lo' ka L) (upper hi' R) a x y)
    (hL : Fenced (Tree.Sound c) ka lo' L) (hR : Fenced (Tree.Sound c) hi' (upper hi' R) R) :
    Resettled c lo' hi' (L ++ (ka,a)::(k,x)::R) (L ++ (ka,y)::R) := by
  refine ⟨fenced_append.mpr ⟨hL,h.sound,hR⟩,?_,fun d => ?_⟩
  · simp only [entriesOf_append,entriesOf_cons]
    have hp := (h.entries.append_right (entriesOf R)).append_left (entriesOf L)
    simpa using hp
  · simp only [leavesOf_append,leavesOf_cons,headId_append]
    rw [h.head _ (headId (headId d (leavesOf R)) x.leaves)]

end Index
end OurSql
