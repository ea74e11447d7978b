import OurSql.Index.Invariant

/-! What each page operation does to the cells it works on, whatever other cells
there are. -/
namespace OurSql
namespace Index

open Fence Heap

variable {n : ℕ} {c : Capacity} {t : Tree n} {cs : List (Key × Tree n)}
  {parent next i : PageId} {lo hi : Key} {es : List Entry} {s s' s'' : BPlusTree}
  {xs F : List (PageId × IndexPage)} {α β : Type}

/-- The operations on pages leave the tree object alone, and page ids stay in range. -/
structure Keeps (s s' : BPlusTree) : Prop where
  root : s'.rootPageId = s.rootPageId
  header : s'.headerPageId = s.headerPageId
  leafMax : s'.leafMaxSize = s.leafMaxSize
  internalMax : s'.internalMaxSize = s.internalMaxSize

theorem Keeps.refl (s : BPlusTree) : Keeps s s := ⟨rfl,rfl,rfl,rfl⟩

theorem Keeps.trans (h : Keeps s s') (h' : Keeps s' s'') : Keeps s s'' :=
  ⟨h'.root.trans h.root,h'.header.trans h.header,h'.leafMax.trans h.leafMax,
    h'.internalMax.trans h.internalMax⟩

/-- Cells of the heap with page ids that are 32 bits wide and not `INVALID_PAGE_ID`. -/
structure Owns (s : BPlusTree) (xs : List (PageId × IndexPage)) : Prop where
  holds : Holds s.pages xs
  bounded : ∀ c ∈ xs, c.1 < invalidPageId

theorem Owns.perm {ys : List (PageId × IndexPage)} (h : Owns s xs) (hp : xs.Perm ys) : Owns s ys :=
  ⟨h.holds.perm hp,fun c hc => h.bounded c (hp.mem_iff.mpr hc)⟩

theorem Owns.ne_invalid {p : IndexPage} (h : Owns s xs) (hm : (i,p) ∈ xs) : i ≠ invalidPageId :=
  Nat.ne_of_lt (h.bounded _ hm)

theorem Owns.right {ys : List (PageId × IndexPage)} (h : Owns s (xs ++ ys)) : Owns s ys :=
  ⟨h.holds.right,fun c hc => h.bounded c (List.mem_append_right _ hc)⟩

theorem Owns.left {ys : List (PageId × IndexPage)} (h : Owns s (xs ++ ys)) : Owns s xs :=
  ⟨h.holds.left,fun c hc => h.bounded c (List.mem_append_left _ hc)⟩

theorem Owns.tail {d : PageId × IndexPage} (h : Owns s (d::xs)) : Owns s xs := by
  rw [← List.singleton_append] at h
  exact h.right

theorem length_lt_pageTurns {ids : List PageId} (hn : ids.Nodup)
    (hb : ∀ id ∈ ids, id < invalidPageId) : ids.length < pageTurns := by
  have hle := (List.subperm_of_subset hn fun id hid => List.mem_range.mpr (hb id hid)).length_le
  rw [List.length_range] at hle
  exact Nat.lt_succ_of_le hle

theorem Owns.length_lt (h : Owns s xs) : xs.length < pageTurns := by
  have hids : ∀ id ∈ xs.map Prod.fst, id < invalidPageId := by
    intro id hid
    obtain ⟨x,hx,rfl⟩ := List.mem_map.mp hid
    exact h.bounded x hx
  simpa using length_lt_pageTurns h.holds.nodup hids

section Order

variable {d d' d'' : PageId × IndexPage}

theorem Owns.swap (h : Owns s (d::d'::xs)) : Owns s (d'::d::xs) := h.perm (List.Perm.swap ..)

theorem Owns.third (h : Owns s (d::d'::d''::xs)) : Owns s (d''::d::d'::xs) :=
  h.perm (by grind)

theorem Owns.unthird (h : Owns s (d''::d::d'::xs)) : Owns s (d::d'::d''::xs) :=
  h.perm (by grind)

theorem Owns.lift {ys : List (PageId × IndexPage)} (h : Owns s (d::d'::d''::(ys ++ xs))) :
    Owns s (ys ++ (d::d'::d''::xs)) := h.perm (by grind)

theorem Owns.unlift {ys : List (PageId × IndexPage)} (h : Owns s (ys ++ (d::d'::d''::xs))) :
    Owns s (d::d'::d''::(ys ++ xs)) := h.perm (by grind)

end Order

theorem run_bind_ok {m : TreeM α} {f : α → TreeM β} {a : α} (h : m.run s = .ok a s') :
    (m >>= f).run s = (f a).run s' := by
  rw [EStateM.run_bind,h]

theorem run_bind_error {m : TreeM α} {f : α → TreeM β} {e : Failure} (h : m.run s = .error e s') :
    (m >>= f).run s = .error e s' := by
  rw [EStateM.run_bind,h]

@[simp] theorem run_throw (e : Failure) : (throw e : TreeM α).run s = .error e s := rfl

@[simp] theorem run_ofResult_ok (a : α) : (ofResult (.ok a)).run s = .ok a s := rfl

theorem run_fetchPage {p : IndexPage} (h : Owns s xs) (hm : (i,p) ∈ xs) :
    (fetchPage i).run s = .ok p s := by
  simp [fetchPage,h.holds.get _ hm]

theorem run_fetchLeaf {p : LeafPage} (h : Owns s xs) (hm : (i,.leaf p) ∈ xs) :
    (fetchLeaf i).run s = .ok p s := by
  rw [fetchLeaf,run_bind_ok (run_fetchPage h hm)]
  rfl

theorem run_fetchInternal {p : InternalPage} (h : Owns s xs) (hm : (i,.internal p) ∈ xs) :
    (fetchInternal i).run s = .ok p s := by
  rw [fetchInternal,run_bind_ok (run_fetchPage h hm)]
  rfl

theorem run_readLeaf (hc : c.Valid) (h : (Tree.leaf i es).Body c lo hi)
    (ho : Owns s xs) (hm : (i,.leaf ⟨c.leafMax,parent,next,es⟩) ∈ xs) :
    (readLeaf i).run s = .ok ⟨c.leafMax,parent,next,es⟩ s := by
  rw [body_leaf] at h
  rw [readLeaf,run_bind_ok (run_fetchPage ho hm),toLeaf_leaf hc h.1 h.2.1]
  rfl

theorem run_readInternal (hc : c.Valid) (h : (Tree.node i cs).Body c lo hi)
    (ho : Owns s xs) (hm : (i,.internal ⟨c.internalMax,parent,routes cs⟩) ∈ xs) :
    (readInternal i).run s = .ok ⟨c.internalMax,parent,routes cs⟩ s := by
  rw [body_node] at h
  rw [readInternal,run_bind_ok (run_fetchPage ho hm),toInternal_internal hc h.1 h.2]
  rfl

theorem LeafPage.assign_ok {p : LeafPage} (hl : es.length ≤ p.maxSize) :
    p.assign es = .ok { p with entries := es } := by
  rw [LeafPage.assign,if_neg (by omega)]

theorem InternalPage.assign_ok {p : InternalPage} {rs : List (Key × PageId)}
    (hl : rs.length ≤ p.maxSize) : p.assign rs = .ok { p with entries := rs } := by
  rw [InternalPage.assign,if_neg (by omega)]

theorem LeafPage.initializePage_ok (hc : c.Valid) (parent next : PageId) :
    LeafPage.initializePage c.leafMax parent next = .ok ⟨c.leafMax,parent,next,[]⟩ := by
  have h1 := hc.leaf_ge
  have h2 := hc.leaf_le
  rw [LeafPage.initializePage,if_neg (by grind)]

theorem InternalPage.initializePage_ok (hc : c.Valid) (parent : PageId) :
    InternalPage.initializePage c.internalMax parent = .ok ⟨c.internalMax,parent,[]⟩ := by
  have h1 := hc.internal_ge
  have h2 := hc.internal_le
  rw [InternalPage.initializePage,if_neg (by grind)]

theorem writePage_spec {p q : IndexPage} (h : Owns s ((i,p)::xs)) :
    ∃ s', (writePage i q).run s = .ok () s' ∧ Owns s' ((i,q)::xs) ∧ Keeps s s' := by
  refine ⟨_,rfl,⟨h.holds.put,fun d hd => ?_⟩,⟨rfl,rfl,rfl,rfl⟩⟩
  rcases List.mem_cons.mp hd with rfl | hd
  · exact h.bounded (i,p) (by simp)
  · exact h.bounded d (by simp [hd])

theorem deletePage_spec {p : IndexPage} (h : Owns s ((i,p)::xs)) :
    ∃ s', (deletePage i).run s = .ok () s' ∧ Owns s' xs ∧ Keeps s s' := by
  refine ⟨{ s with pages := Function.update s.pages i none },?_,?_,⟨rfl,rfl,rfl,rfl⟩⟩
  · simp [deletePage,h.holds.head]
  · exact ⟨h.holds.drop,fun d hd => h.bounded d (by simp [hd])⟩

/-- `NewPage` fails or gives a page of its own. -/
theorem newPage_spec (h : Owns s xs) :
    (∃ e, newPage.run s = .error e s ∧ e.code = .ioError) ∨
      ∃ i s', newPage.run s = .ok i s' ∧ Owns s' ((i,.blank)::xs) ∧ Keeps s s' := by
  cases hs : s.supply with
  | nil => exact Or.inl ⟨noPage,by simp [newPage,hs],rfl⟩
  | cons i rest =>
    by_cases hi : i = 0 ∨ invalidPageId ≤ i ∨ (s.pages i).isSome = true
    · exact Or.inl ⟨noPage,by simp [newPage,hs,hi,or_assoc],rfl⟩
    · simp only [not_or,not_le,Option.not_isSome_iff_eq_none] at hi
      refine Or.inr ⟨i,{ s with supply := rest, pages := Function.update s.pages i (some .blank) },
        by simp [newPage,hs,hi,Nat.not_le.mpr hi.2.1] <;> rfl,⟨h.holds.alloc hi.2.2,fun d hd => ?_⟩,
        ⟨rfl,rfl,rfl,rfl⟩⟩
      rcases List.mem_cons.mp hd with rfl | hd
      · exact hi.2.1
      · exact h.bounded d hd

theorem assignLeaf_spec {p : LeafPage} (h : Owns s ((i,.leaf p)::xs))
    (hl : e.length ≤ p.maxSize) :
    ∃ s', (assignLeaf i e).run s = .ok () s' ∧
      Owns s' ((i,.leaf { p with entries := e })::xs) ∧ Keeps s s' := by
  obtain ⟨s',hr,hs⟩ := writePage_spec (q := .leaf { p with entries := e }) h
  refine ⟨s',?_,hs⟩
  rw [assignLeaf,run_bind_ok (run_fetchLeaf h List.mem_cons_self),LeafPage.assign_ok hl,
    run_bind_ok (run_ofResult_ok _)]
  exact hr

theorem assignLeafNext_spec {p : LeafPage} (next : PageId) (h : Owns s ((i,.leaf p)::xs))
    (hl : e.length ≤ p.maxSize) :
    ∃ s', (assignLeafNext i e next).run s = .ok () s' ∧
      Owns s' ((i,.leaf { p with entries := e, nextPageId := next })::xs) ∧ Keeps s s' := by
  obtain ⟨s',hr,hs⟩ := writePage_spec (q := .leaf { p with entries := e, nextPageId := next }) h
  refine ⟨s',?_,hs⟩
  rw [assignLeafNext,run_bind_ok (run_fetchLeaf h List.mem_cons_self),LeafPage.assign_ok hl,
    run_bind_ok (run_ofResult_ok _)]
  exact hr

theorem assignInternal_spec {p : InternalPage} {r : List (Key × PageId)}
    (h : Owns s ((i,.internal p)::xs)) (hl : r.length ≤ p.maxSize) :
    ∃ s', (assignInternal i r).run s = .ok () s' ∧
      Owns s' ((i,.internal { p with entries := r })::xs) ∧ Keeps s s' := by
  obtain ⟨s',hr,hs⟩ := writePage_spec (q := .internal { p with entries := r }) h
  refine ⟨s',?_,hs⟩
  rw [assignInternal,run_bind_ok (run_fetchInternal h List.mem_cons_self),
    InternalPage.assign_ok hl,
    run_bind_ok (run_ofResult_ok _)]
  exact hr

/-- `SetParent` on the root of a subtree. -/
theorem setParent_spec (parent' : PageId) (hc : c.Valid) (ht : t.Body c lo hi)
    (h : Owns s (t.cells c parent next ++ F)) :
    ∃ s', (setParent t.id parent').run s = .ok () s' ∧
      Owns s' (t.cells c parent' next ++ F) ∧ Keeps s s' := by
  rw [t.cells_eq,List.cons_append] at h ⊢
  obtain ⟨s',hr,hs⟩ := writePage_spec (q := t.page c parent' next) h
  refine ⟨s',?_,hs⟩
  rw [setParent,run_bind_ok (run_fetchPage h (List.mem_cons_self ..))]
  cases n with
  | zero =>
    obtain ⟨i,es,rfl⟩ := t.exists_leaf
    rw [body_leaf] at ht
    rw [page_leaf] at hr
    simpa only [page_leaf,toLeaf_leaf hc ht.1 ht.2.1] using hr
  | succ n =>
    obtain ⟨i,cs,rfl⟩ := t.exists_node
    rw [body_node] at ht
    rw [page_node] at hr
    simp only [page_node,toLeaf_internal,fail,toInternal_internal hc ht.1 ht.2]
    rw [run_bind_ok (run_ofResult_ok _)]
    exact hr

/-- `SetParent` on each of a row of subtrees. -/
theorem setParents_spec (parent' : PageId) (hc : c.Valid) (hf : Fenced (Tree.Sound c) hi lo cs)
    (h : Owns s (cellsOf c parent next cs ++ F)) :
    ∃ s', (setParents parent' ((routes cs).map Prod.snd)).run s = .ok () s' ∧
      Owns s' (cellsOf c parent' next cs ++ F) ∧ Keeps s s' := by
  induction cs generalizing s lo F with
  | nil => exact ⟨s,rfl,h,Keeps.refl s⟩
  | cons x cs ih =>
    obtain ⟨hx,hcs⟩ := hf
    rw [cellsOf_cons,List.append_assoc] at h
    obtain ⟨s1,hr1,hs1,hk1⟩ := setParent_spec parent' hc hx.2 h
    obtain ⟨s2,hr2,hs2,hk2⟩ := ih hcs (F := x.2.cells c parent' (headId next (leavesOf cs)) ++ F)
      (hs1.perm (by grind))
    refine ⟨s2,?_,hs2.perm (by rw [cellsOf_cons]; grind),hk1.trans hk2⟩
    rw [routes_cons,List.map_cons,setParents,run_bind_ok hr1,hr2]

end Index
end OurSql
