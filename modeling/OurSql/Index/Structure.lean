import OurSql.Index.Runs

/-! The structure of the pages that a run of `Insert` and `Remove` leaves, read from the pages
themselves. -/
namespace OurSql
namespace Index

open Fence Heap Faulty

variable {n d : ℕ} {c : Capacity} {t : Tree n} {s₀ s : BPlusTree} {i j parent next : PageId}
  {lo hi : Key} {F : List (PageId × IndexPage)} {m : Multiset Entry} {e : Entry}
  {allowed : BPlusTree → Entry → Prop}

/-- A page `d` levels below another one. -/
inductive Below (s : BPlusTree) : ℕ → PageId → PageId → Prop
  | here (i : PageId) : Below s 0 i i
  | child {d : ℕ} {i j l : PageId} {k : Key} {page : InternalPage} :
      s.pages i = some (.internal page) → (k,j) ∈ page.entries → Below s d j l → Below s (d+1) i l

/-- A leaf below the page has the pair. -/
def Carries (s : BPlusTree) (i : PageId) (e : Entry) : Prop :=
  ∃ d j page, Below s d i j ∧ s.pages j = some (.leaf page) ∧ e ∈ page.entries

/-- The leaf pages below a page, from left to right. -/
def leafIds (s : BPlusTree) : ℕ → PageId → List PageId
  | 0, _ => []
  | fuel+1, i => match s.pages i with
    | some (.leaf _) => [i]
    | some (.internal page) => page.entries.flatMap fun x => leafIds s fuel x.2
    | _ => []

def leftmostLeaf (s : BPlusTree) : ℕ → PageId → PageId
  | 0, i => i
  | fuel+1, i => match s.pages i with
    | some (.internal page) => leftmostLeaf s fuel (childAt page.entries 0)
    | _ => i

/-- The leaf pages from a page on, along the links to the next one. -/
def chainIds (s : BPlusTree) : ℕ → PageId → List PageId
  | 0, _ => []
  | fuel+1, i =>
    if i = invalidPageId then []
    else match s.pages i with
      | some (.leaf page) => i :: chainIds s fuel page.nextPageId
      | _ => []

/-- The pages below the root page form a B+ tree. -/
structure Structured (c : Capacity) (s : BPlusTree) : Prop where
  depth : ∃ n, ∀ d j page, Below s d s.rootPageId j → s.pages j = some (.leaf page) → d = n
  leafSize : ∀ d j page, Below s d s.rootPageId j → s.pages j = some (.leaf page) →
    (j ≠ s.rootPageId → (c.leafMax + 1) / 2 ≤ page.entries.length) ∧ page.entries.length ≤ c.leafMax
  internalSize : ∀ d j page, Below s d s.rootPageId j → s.pages j = some (.internal page) →
    (j ≠ s.rootPageId → (c.internalMax + 1) / 2 ≤ page.entries.length) ∧
      2 ≤ page.entries.length ∧ page.entries.length ≤ c.internalMax
  separators : ∀ d j page A k i B e, Below s d s.rootPageId j → s.pages j = some (.internal page) →
    page.entries = A ++ (k,i)::B → Carries s i e →
    (A ≠ [] → k ≤ e.1) ∧ ∀ x ∈ B.head?, e.1 ≤ x.1
  parents : ∀ d j page, Below s d s.rootPageId j → s.pages j = some (.internal page) →
    ∀ x ∈ page.entries, ∃ p, s.pages x.2 = some p ∧ p.parent = .ok j
  rootParent : ∃ p, s.pages s.rootPageId = some p ∧ p.parent = .ok invalidPageId
  chain : chainIds s pageTurns (leftmostLeaf s pageTurns s.rootPageId) =
    leafIds s pageTurns s.rootPageId

/-! ### The subtree at a page -/

/-- The subtree with its root at the page `j`, `d` levels below the root of a tree of height `n`. -/
structure Subtree (c : Capacity) (s : BPlusTree) (n d : ℕ) (lo hi : Key) (j : PageId) {m : ℕ}
    (u : Tree m) (parent : PageId) : Prop where
  height : m + d = n
  id : u.id = j
  owns : ∃ next F, Owns s (u.cells c parent next ++ F)
  body : ∃ lo' hi', lo ≤ lo' ∧ hi' ≤ hi ∧ u.Body c lo' hi'
  size : d ≠ 0 → c.minSize m ≤ u.size

theorem Below.subtree (hc : c.Valid) (hb : t.Body c lo hi)
    (ho : Owns s (t.cells c parent next ++ F)) (h : Below s d t.id j) :
    ∃ (m : ℕ) (u : Tree m) (parent : PageId), Subtree c s n d lo hi j u parent := by
  induction n generalizing parent next F lo hi d with
  | zero =>
    obtain ⟨i,es,rfl⟩ := t.exists_leaf
    cases h with
    | here =>
      exact ⟨0,_,parent,rfl,rfl,⟨next,F,ho⟩,⟨lo,hi,le_rfl,le_rfl,hb⟩,fun h => absurd rfl h⟩
    | child hp =>
      rw [id_leaf,ho.leafPage] at hp
      cases hp
  | succ n ih =>
    obtain ⟨i,cs,rfl⟩ := t.exists_node
    cases h with
    | here =>
      exact ⟨n+1,_,parent,rfl,rfl,⟨next,F,ho⟩,⟨lo,hi,le_rfl,le_rfl,hb⟩,fun h => absurd rfl h⟩
    | @child d _ j' _ k page hp hmem hbelow =>
      rw [id_node,ho.nodePage] at hp
      obtain rfl : page = ⟨c.internalMax,parent,routes cs⟩ := by simpa using hp.symm
      obtain ⟨⟨k',x⟩,hx,heq⟩ := List.mem_map.mp hmem
      obtain ⟨rfl,rfl⟩ : k' = k ∧ x.id = j' := Prod.mk.inj heq
      obtain ⟨L,R,rfl⟩ := List.append_of_mem hx
      have hf := ((body_node ..).mp hb).2
      have hle : ∀ (y : Tree n) lo hi, y.Sound c lo hi → lo ≤ hi := fun _ _ _ h => h.le hc
      have hsound := (fenced_append.mp hf).2.1
      by_cases hd : d = 0
      · subst hd
        cases hbelow
        exact ⟨n,x,i,rfl,rfl,⟨_,_,owns_focus.mp ho⟩,⟨_,_,(hf.lower_between hle).1,
          (hf.upper_between hle).2,hsound.2⟩,fun _ => hsound.1⟩
      · obtain ⟨m,u,p,hu⟩ := ih hsound.2 (owns_focus.mp ho) hbelow
        obtain ⟨lo',hi',hlo,hhi,hbody⟩ := hu.body
        refine ⟨m,u,p,by rw [← hu.height]; omega,hu.id,hu.owns,⟨lo',hi',?_,?_,hbody⟩,
          fun _ => hu.size hd⟩
        · exact le_trans (hf.lower_between hle).1 hlo
        · exact le_trans hhi (hf.upper_between hle).2

theorem Subtree.leaf {m : ℕ} {u : Tree m} {page : LeafPage} (h : Subtree c s n d lo hi j u parent)
    (hp : s.pages j = some (.leaf page)) :
    d = n ∧ (d ≠ 0 → (c.leafMax + 1) / 2 ≤ page.entries.length) ∧
      page.entries.length ≤ c.leafMax ∧ ∀ e ∈ page.entries, lo ≤ e.1 ∧ e.1 ≤ hi := by
  obtain ⟨next,F,ho⟩ := h.owns
  obtain ⟨lo',hi',hlo,hhi,hb⟩ := h.body
  have hid := h.id
  cases m with
  | zero =>
    obtain ⟨i,es,rfl⟩ := u.exists_leaf
    obtain rfl : i = j := hid
    rw [ho.leafPage] at hp
    cases hp
    rw [body_leaf] at hb
    refine ⟨by rw [← h.height,Nat.zero_add],h.size,hb.2.1,fun e he => ?_⟩
    exact ⟨le_trans hlo (hb.2.2 e he).1,le_trans (hb.2.2 e he).2 hhi⟩
  | succ m =>
    obtain ⟨i,cs,rfl⟩ := u.exists_node
    obtain rfl : i = j := hid
    rw [ho.nodePage] at hp
    cases hp

theorem Subtree.internal {m : ℕ} {u : Tree m} {page : InternalPage}
    (h : Subtree c s n d lo hi j u parent) (hp : s.pages j = some (.internal page)) :
    ∃ (p : ℕ) (cs : List (Key × Tree p)) (next : PageId) (F : List (PageId × IndexPage))
      (lo' hi' : Key), page.entries = routes cs ∧
      Owns s ((Tree.node j cs).cells c parent next ++ F) ∧ (Tree.node j cs).Body c lo' hi' ∧
      (d ≠ 0 → c.minSize (p+1) ≤ cs.length) := by
  obtain ⟨next,F,ho⟩ := h.owns
  obtain ⟨lo',hi',-,-,hb⟩ := h.body
  have hid := h.id
  cases m with
  | zero =>
    obtain ⟨i,es,rfl⟩ := u.exists_leaf
    obtain rfl : i = j := hid
    rw [ho.leafPage] at hp
    cases hp
  | succ m =>
    obtain ⟨i,cs,rfl⟩ := u.exists_node
    obtain rfl : i = j := hid
    rw [ho.nodePage] at hp
    cases hp
    exact ⟨m,cs,next,F,lo',hi',rfl,ho,hb,h.size⟩

/-- The keys below a page lie between the bounds of its subtree. -/
theorem Carries.bounds (hc : c.Valid) (hb : t.Body c lo hi)
    (ho : Owns s (t.cells c parent next ++ F)) (h : Carries s t.id e) : lo ≤ e.1 ∧ e.1 ≤ hi := by
  obtain ⟨d,j,page,hbelow,hp,he⟩ := h
  obtain ⟨m,u,p,hu⟩ := hbelow.subtree hc hb ho
  exact (hu.leaf hp).2.2.2 e he

theorem separators_bound {cs : List (Key × Tree n)} {A B : List (Key × PageId)} {k : Key}
    (hc : c.Valid) (hb : (Tree.node j cs).Body c lo hi)
    (ho : Owns s ((Tree.node j cs).cells c parent next ++ F)) (hsplit : routes cs = A ++ (k,i)::B)
    (h : Carries s i e) : (A ≠ [] → k ≤ e.1) ∧ ∀ x ∈ B.head?, e.1 ≤ x.1 := by
  obtain ⟨L,R',rfl,rfl,hR⟩ := List.map_eq_append_iff.mp hsplit
  obtain ⟨⟨k',x⟩,R,rfl,hx,rfl⟩ := List.map_eq_cons_iff.mp hR
  obtain ⟨rfl,rfl⟩ : k' = k ∧ x.id = i := Prod.mk.inj hx
  have hsound := (fenced_append.mp ((body_node ..).mp hb).2).2.1
  obtain ⟨hlo,hhi⟩ := h.bounds hc hsound.2 (owns_focus.mp ho)
  constructor
  · intro hA
    have hL : L ≠ [] := by simpa using hA
    rwa [lower_of_ne_nil hL] at hlo
  · intro y hy
    cases R with
    | nil => simp at hy
    | cons z R =>
      obtain rfl : (z.1,z.2.id) = y := by simpa using hy
      exact hhi

theorem child_parent {cs : List (Key × Tree n)} (hc : c.Valid)
    (hb : (Tree.node j cs).Body c lo hi) (ho : Owns s ((Tree.node j cs).cells c parent next ++ F))
    {x : Key × PageId} (hx : x ∈ routes cs) : ∃ p, s.pages x.2 = some p ∧ p.parent = .ok j := by
  obtain ⟨⟨k,y⟩,hy,rfl⟩ := List.mem_map.mp hx
  have hcell : ∃ nx, (y.id,y.page c j nx) ∈ (Tree.node j cs).cells c parent next :=
    child_mem_cells hy
  obtain ⟨nx,hm⟩ := hcell
  obtain ⟨lo',hi',hsound⟩ := ((body_node ..).mp hb).2.exists_of_mem hy
  exact ⟨_,ho.left.holds.get _ hm,parent_page hc hsound.2⟩

/-! ### The chain of leaves -/

theorem leafIds_tree (hb : t.Body c lo hi) (ho : Owns s (t.cells c parent next ++ F)) {fuel : ℕ}
    (hf : n < fuel) : leafIds s fuel t.id = t.leaves.map Leaf.id := by
  induction n generalizing parent next F lo hi fuel with
  | zero =>
    obtain ⟨fuel,rfl⟩ : ∃ f, fuel = f + 1 := ⟨fuel-1,by omega⟩
    obtain ⟨i,es,rfl⟩ := t.exists_leaf
    rw [leafIds,id_leaf,ho.leafPage]
    rfl
  | succ n ih =>
    obtain ⟨fuel,rfl⟩ : ∃ f, fuel = f + 1 := ⟨fuel-1,by omega⟩
    obtain ⟨i,cs,rfl⟩ := t.exists_node
    have hchild : ∀ x ∈ cs, leafIds s fuel x.2.id = x.2.leaves.map Leaf.id := by
      intro x hx
      obtain ⟨L,R,rfl⟩ := List.append_of_mem hx
      have hsound := (fenced_append.mp ((body_node ..).mp hb).2).2.1
      exact ih hsound.2 (owns_focus.mp ho) (Nat.lt_of_succ_lt_succ hf)
    rw [leafIds,id_node,ho.nodePage,leaves_node]
    simp only [routes,leavesOf,List.flatMap_map,List.map_flatMap]
    exact List.flatMap_congr hchild

theorem leftmostLeaf_tree (hc : c.Valid) (hb : t.Body c lo hi) (hs : 0 < t.size)
    (ho : Owns s (t.cells c parent next ++ F)) {fuel : ℕ} (hf : n < fuel) :
    leftmostLeaf s fuel t.id = headId invalidPageId t.leaves := by
  induction n generalizing parent next F lo hi fuel with
  | zero =>
    obtain ⟨fuel,rfl⟩ : ∃ f, fuel = f + 1 := ⟨fuel-1,by omega⟩
    obtain ⟨i,es,rfl⟩ := t.exists_leaf
    rw [leftmostLeaf,id_leaf,ho.leafPage]
    rfl
  | succ n ih =>
    obtain ⟨fuel,rfl⟩ : ∃ f, fuel = f + 1 := ⟨fuel-1,by omega⟩
    obtain ⟨i,cs,rfl⟩ := t.exists_node
    cases cs with
    | nil => simp at hs
    | cons x cs =>
      have hsound := ((body_node ..).mp hb).2.1
      have hpos : 0 < x.2.size := lt_of_lt_of_le (hc.minSize_pos n) hsound.1
      have ho' : Owns s ((Tree.node i ([] ++ (x.1,x.2)::cs)).cells c parent next ++ F) := ho
      have hrec := ih hsound.2 hpos (owns_focus.mp ho') (Nat.lt_of_succ_lt_succ hf)
      have hhead := headId_eq (hsound.leaves_ne_nil hc) invalidPageId
        (headId invalidPageId (leavesOf cs))
      rw [leftmostLeaf,id_node,ho.nodePage,leaves_node,leavesOf_cons,headId_append,← hhead,← hrec]
      rfl

theorem chainIds_linked {ls : List Leaf} (hl : Linked c s invalidPageId ls)
    (hids : ∀ l ∈ ls, l.id ≠ invalidPageId) {fuel : ℕ} (hf : ls.length < fuel) :
    chainIds s fuel (headId invalidPageId ls) = ls.map Leaf.id := by
  induction ls generalizing fuel with
  | nil =>
    obtain ⟨fuel,rfl⟩ : ∃ f, fuel = f + 1 := ⟨fuel-1,by omega⟩
    rw [headId_nil,chainIds,if_pos rfl]
    rfl
  | cons l ls ih =>
    obtain ⟨fuel,rfl⟩ : ∃ f, fuel = f + 1 := ⟨fuel-1,by omega⟩
    obtain ⟨⟨parent,hp⟩,-,-,hl⟩ := hl
    have ih := ih hl (fun m hm => hids m (List.mem_cons_of_mem l hm)) (by simpa using hf)
    rw [show headId invalidPageId (l::ls) = l.id from rfl,chainIds,
      if_neg (hids l List.mem_cons_self),hp,List.map_cons]
    simp only
    rw [ih]

/-! ### The root -/

theorem Intact.structured {page : Option HeaderPage} {G : List (PageId × IndexPage)}
    (h : Intact c s page G (.tree t)) : Structured c s := by
  have hc := h.valid.capacity
  have hn := h.valid.height
  have hreach := h.valid.reaches
  obtain ⟨hroot,hs,lo,hi,hb⟩ := h.valid.stands
  have ho : Owns s (t.cells c invalidPageId invalidPageId ++
      (headerCells s.headerPageId s.rootPageId page ++ G)) := h.valid.owns
  have hsub : ∀ d j, Below s d s.rootPageId j →
      ∃ (m : ℕ) (u : Tree m) (parent : PageId), Subtree c s n d lo hi j u parent := by
    intro d j hbelow
    rw [hroot] at hbelow
    exact hbelow.subtree hc hb ho
  have hzero : ∀ d j, Below s d s.rootPageId j → j ≠ s.rootPageId → d ≠ 0 := by
    rintro d j hbelow hne rfl
    cases hbelow
    exact hne rfl
  refine ⟨⟨n,fun d j p hbelow hp => ?_⟩,fun d j p hbelow hp => ?_,fun d j p hbelow hp => ?_,
    fun d j p A k i B e hbelow hp hsplit he => ?_,fun d j p hbelow hp x hx => ?_,?_,?_⟩
  · obtain ⟨m,u,parent,hu⟩ := hsub d j hbelow
    exact (hu.leaf hp).1
  · obtain ⟨m,u,parent,hu⟩ := hsub d j hbelow
    obtain ⟨-,hmin,hmax,-⟩ := hu.leaf hp
    exact ⟨fun hne => hmin (hzero d j hbelow hne),hmax⟩
  · obtain ⟨m,u,parent,hu⟩ := hsub d j hbelow
    obtain ⟨q,cs,next,F,lo',hi',hentries,-,hbody,hmin⟩ := hu.internal hp
    rw [hentries,length_routes]
    refine ⟨fun hne => hmin (hzero d j hbelow hne),?_,((body_node ..).mp hbody).1⟩
    by_cases hd : d = 0
    · subst hd
      cases hbelow
      rw [hroot] at hp
      cases n with
      | zero =>
        obtain ⟨i,es,rfl⟩ := t.exists_leaf
        rw [id_leaf,ho.leafPage] at hp
        cases hp
      | succ n =>
        obtain ⟨i,ds,rfl⟩ := t.exists_node
        rw [id_node,ho.nodePage] at hp
        cases hp
        have hlen := congrArg List.length hentries
        simp only [length_routes] at hlen
        have htwo : 2 ≤ ds.length := h.wide.resolve_left (by simp)
        omega
    · exact le_trans (hc.two_le_minSize q) (hmin hd)
  · obtain ⟨m,u,parent,hu⟩ := hsub d j hbelow
    obtain ⟨q,cs,next,F,lo',hi',hentries,hown,hbody,-⟩ := hu.internal hp
    exact separators_bound hc hbody hown (hentries ▸ hsplit) he
  · obtain ⟨m,u,parent,hu⟩ := hsub d j hbelow
    obtain ⟨q,cs,next,F,lo',hi',hentries,hown,hbody,-⟩ := hu.internal hp
    exact child_parent hc hbody hown (hentries ▸ hx)
  · rw [hroot]
    have hcell := ho
    rw [t.cells_eq] at hcell
    exact ⟨_,hcell.left.holds.get _ List.mem_cons_self,parent_page hc hb⟩
  · rw [hroot,leafIds_tree hb ho hn,leftmostLeaf_tree hc hb hs ho hn]
    exact chainIds_linked hreach.linked hreach.ne_invalid hreach.length_lt

/-- After any run the tree is empty, or its pages form a B+ tree. -/
theorem run_structured (hs : Start c s₀) (h : Arrives anything s₀ s m) :
    s.rootPageId = invalidPageId ∨ Structured c s := by
  obtain ⟨page,r,hi,-⟩ := h.intact hs
  cases r with
  | empty => exact .inl hi.valid.stands
  | tree t => exact .inr hi.structured

theorem run_structured_twoLeaves :
    twoLeaves.rootPageId = invalidPageId ∨ Structured ⟨2,3⟩ twoLeaves :=
  run_structured noTree_start twoLeaves_arrives

end Index
end OurSql
