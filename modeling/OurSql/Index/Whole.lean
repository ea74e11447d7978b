import OurSql.Index.Remove
import OurSql.Index.InsertStopped

/-! `Insert` and `Remove` on a whole tree, with the header page that names its root. -/
namespace OurSql
namespace Index

open Fence Heap Faulty

variable {n : ℕ} {c : Capacity} {t : Tree n} {s s' : BPlusTree} {key : Key} {rid : RID}
  {page : Option HeaderPage} {id root : PageId} {F G xs : List (PageId × IndexPage)} {r : Root}

/-- The header page, if the tree has one. -/
def headerCells (id root : PageId) : Option HeaderPage → List (PageId × IndexPage)
  | none => []
  | some page => [(id,.header { page with root := root })]

/-- A root page that is not a leaf has two children. -/
def Faulty.Root.Wide : Root → Prop
  | .empty => True
  | .tree (n := n) t => n = 0 ∨ 2 ≤ t.size

/-- A valid tree whose header page names its root, beside other pages. -/
structure Intact (c : Capacity) (s : BPlusTree) (page : Option HeaderPage)
    (G : List (PageId × IndexPage)) (r : Root) : Prop where
  valid : Valid c s (headerCells s.headerPageId s.rootPageId page ++ G) r
  header : page = none ↔ s.headerPageId = invalidPageId
  wide : r.Wide

theorem Owns.setRoot (h : Owns s xs) (id : PageId) : Owns { s with rootPageId := id } xs :=
  ⟨h.holds,h.bounded⟩

theorem persistRootPageId_spec (hp : page = none ↔ s.headerPageId = invalidPageId)
    (ho : Owns s (headerCells s.headerPageId root page ++ xs)) :
    ∃ s', persistRootPageId.run s = .ok () s' ∧
      Owns s' (headerCells s.headerPageId s.rootPageId page ++ xs) ∧ Keeps s s' := by
  have hget : (get : TreeM BPlusTree).run s = .ok s s := rfl
  rw [persistRootPageId,run_bind_ok hget]
  cases page with
  | none =>
    rw [if_pos (hp.mp rfl)]
    exact ⟨s,rfl,ho,Keeps.refl s⟩
  | some page =>
    have hne : s.headerPageId ≠ invalidPageId := fun h => by simpa using hp.mpr h
    obtain ⟨s',hr,ho',hk⟩ := writePage_spec
      (q := .header { page with root := s.rootPageId }) ho
    refine ⟨s',?_,ho',hk⟩
    rw [if_neg hne,run_bind_ok (run_fetchPage ho List.mem_cons_self)]
    exact hr

/-- `PersistRootPageId` right after the root page id has changed. -/
theorem setRoot_persist (hp : page = none ↔ s.headerPageId = invalidPageId) (id : PageId)
    (ho : Owns s (headerCells s.headerPageId root page ++ xs)) :
    ∃ s', (setRoot id >>= fun _ => persistRootPageId).run s = .ok () s' ∧
      Owns s' (headerCells s'.headerPageId s'.rootPageId page ++ xs) ∧
      Keeps { s with rootPageId := id } s' := by
  have hset : (setRoot id).run s = .ok () { s with rootPageId := id } := rfl
  obtain ⟨s',hr,ho',hk⟩ := persistRootPageId_spec (s := { s with rootPageId := id }) hp
    (ho.setRoot id)
  refine ⟨s',?_,?_,hk⟩
  · rw [run_bind_ok hset]
    exact hr
  · rw [hk.header,hk.root]
    exact ho'

/-! ### Insertion -/

theorem startTree_spec (key : Key) (rid : RID) (hc : c.Valid) (hmax : s.leafMaxSize = c.leafMax)
    (hp : page = none ↔ s.headerPageId = invalidPageId)
    (ho : Owns s (headerCells s.headerPageId root page ++ G)) :
    (∃ err s', (startTree key rid).run s = .error err s' ∧ err.code = .ioError) ∨
    ∃ i s', (startTree key rid).run s = .ok () s' ∧
      Owns s' ((Tree.leaf i [(key,rid)]).cells c invalidPageId invalidPageId ++
        (headerCells s'.headerPageId s'.rootPageId page ++ G)) ∧
      Keeps { s with rootPageId := i } s' := by
  have hge := hc.leaf_ge
  rcases newPage_spec ho with ⟨err,hr,herr⟩ | ⟨i,s₁,hr₁,ho₁,hk₁⟩
  · exact .inl ⟨err,s,by rw [startTree,run_bind_error hr],herr⟩
  · have hget : (get : TreeM BPlusTree).run s₁ = .ok s₁ s₁ := rfl
    have hset : (setRoot i).run s₁ = .ok () { s₁ with rootPageId := i } := rfl
    have hins : (⟨c.leafMax,invalidPageId,invalidPageId,[]⟩ : LeafPage).insert key rid =
        .ok ⟨c.leafMax,invalidPageId,invalidPageId,[(key,rid)]⟩ := by
      rw [LeafPage.insert,if_neg (by simp [fromBound]),if_neg (by simp; omega),
        LeafPage.assign_ok (by simp [insertEntry,below,fromBound]; omega)]
      rfl
    obtain ⟨s₂,hr₂,ho₂,hk₂⟩ := writePage_spec
      (q := .leaf ⟨c.leafMax,invalidPageId,invalidPageId,[(key,rid)]⟩) (ho₁.setRoot i)
    have hheader : s₂.headerPageId = s.headerPageId := hk₂.header.trans hk₁.header
    have ho₂ : Owns s₂ (headerCells s₂.headerPageId root page ++
        ((i,.leaf ⟨c.leafMax,invalidPageId,invalidPageId,[(key,rid)]⟩)::G)) := by
      rw [hheader]
      exact ho₂.perm (by grind)
    obtain ⟨s₃,hr₃,ho₃,hk₃⟩ := persistRootPageId_spec (hheader ▸ hp) ho₂
    refine .inr ⟨i,s₃,?_,?_,?_⟩
    · rw [startTree,run_bind_ok hr₁,run_bind_ok hget,hk₁.leafMax,hmax,LeafPage.initializePage_ok hc,
        run_bind_ok (run_ofResult_ok _),hins,run_bind_ok (run_ofResult_ok _),run_bind_ok hset,
        run_bind_ok hr₂]
      exact hr₃
    · rw [hk₃.header,hk₃.root]
      apply ho₃.perm
      rw [cells_leaf]
      grind
    · have hk : Keeps { s with rootPageId := i } { s₁ with rootPageId := i } :=
        ⟨rfl,hk₁.header,hk₁.leafMax,hk₁.internalMax⟩
      exact hk.trans (hk₂.trans hk₃)

theorem createNewRoot_spec {a b : Tree n} {lo hi sep : Key} {e : Entry} (hc : c.Valid)
    (hmax : s.internalMaxSize = c.internalMax)
    (hp : page = none ↔ s.headerPageId = invalidPageId) (hh : Halves c e lo hi sep t a b)
    (ho : Owns s (a.cells c invalidPageId (headId invalidPageId b.leaves) ++
      (b.cells c invalidPageId invalidPageId ++ (headerCells s.headerPageId root page ++ G)))) :
    (∃ err s', (createNewRoot t.id sep b.id).run s = .error err s' ∧ err.code = .ioError) ∨
    ∃ i s', (createNewRoot t.id sep b.id).run s = .ok () s' ∧
      Owns s' ((Tree.node i [(0,a),(sep,b)]).cells c invalidPageId invalidPageId ++
        (headerCells s'.headerPageId s'.rootPageId page ++ G)) ∧
      Keeps { s with rootPageId := i } s' := by
  have hge := hc.internal_ge
  rcases newPage_spec ho with ⟨err,hr,herr⟩ | ⟨i,s₁,hr₁,ho₁,hk₁⟩
  · exact .inl ⟨err,s,by rw [createNewRoot,run_bind_error hr],herr⟩
  · have hget : (get : TreeM BPlusTree).run s₁ = .ok s₁ s₁ := rfl
    obtain ⟨s₂,hr₂,ho₂,hk₂⟩ := writePage_spec
      (q := .internal ⟨c.internalMax,invalidPageId,[(0,t.id),(sep,b.id)]⟩) ho₁
    obtain ⟨s₃,hr₃,ho₃,hk₃⟩ := setParent_spec i hc hh.left.2 (ho₂.perm List.perm_middle.symm)
    have ho₃ : Owns s₃ (b.cells c invalidPageId invalidPageId ++
        (a.cells c i (headId invalidPageId b.leaves) ++
          ((i,.internal ⟨c.internalMax,invalidPageId,[(0,t.id),(sep,b.id)]⟩) ::
            (headerCells s.headerPageId root page ++ G)))) := ho₃.perm (by grind)
    obtain ⟨s₄,hr₄,ho₄,hk₄⟩ := setParent_spec i hc hh.right.2 ho₃
    have hk : Keeps s s₄ := ((hk₁.trans hk₂).trans hk₃).trans hk₄
    have ho₄ : Owns s₄ (headerCells s₄.headerPageId root page ++
        ((Tree.node i [(0,a),(sep,b)]).cells c invalidPageId invalidPageId ++ G)) := by
      rw [hk.header]
      apply ho₄.perm
      simp only [cells_node,cellsOf_cons,cellsOf_nil,routes_cons,routes_nil,hh.id,leavesOf_cons,
        leavesOf_nil,headId_nil,List.append_nil]
      grind
    obtain ⟨s₅,hr₅,ho₅,hk₅⟩ := setRoot_persist (hk.header ▸ hp) i ho₄
    refine .inr ⟨i,s₅,?_,ho₅.perm (by grind),?_⟩
    · rw [createNewRoot,run_bind_ok hr₁,run_bind_ok hget,hk₁.internalMax,hmax,
        InternalPage.initializePage_ok hc,run_bind_ok (run_ofResult_ok _),
        InternalPage.assign_ok (by simp; omega),run_bind_ok (run_ofResult_ok _),run_bind_ok hr₂]
      rw [hh.id] at hr₃
      rw [run_bind_ok hr₃,run_bind_ok hr₄]
      exact hr₅
    · have hkr : Keeps { s with rootPageId := i } { s₄ with rootPageId := i } :=
        ⟨rfl,hk.header,hk.leafMax,hk.internalMax⟩
      exact hkr.trans hk₅

theorem Keeps.rooted (h : Keeps s s') (hr : s.rootPageId = id) :
    Keeps { s with rootPageId := id } s' :=
  ⟨h.root.trans hr,h.header,h.leafMax,h.internalMax⟩

theorem Intact.tree {lo hi : Key} (h : Intact c s page G r)
    (hk : Keeps { s with rootPageId := t.id } s')
    (ho : Owns s' (t.cells c invalidPageId invalidPageId ++
      (headerCells s'.headerPageId s'.rootPageId page ++ G)))
    (hb : t.Body c lo hi) (hs : 0 < t.size) (hw : n = 0 ∨ 2 ≤ t.size) :
    Intact c s' page G (.tree t) where
  valid := ⟨h.valid.capacity,hk.leafMax.trans h.valid.leafMax,hk.internalMax.trans h.valid.internalMax,
    ⟨hk.root,hs,lo,hi,hb⟩,ho⟩
  header := by
    rw [hk.header]
    exact h.header
  wide := hw

/-- The leaf that the descent for the key ends in has the pair. -/
def Spotted (key : Key) (rid : RID) : Root → Prop
  | .empty => False
  | .tree t => ∃ climb l, Route key t climb l ∧ (key,rid) ∈ l.entries

theorem root_ne_invalid (h : Valid c s F (.tree t)) : s.rootPageId ≠ invalidPageId := by
  have ho := h.owns
  rw [Root.cells,t.cells_eq] at ho
  exact h.stands.1 ▸ ho.ne_invalid List.mem_cons_self

/-- On a tree with a root page `Insert` goes down to a leaf. -/
theorem insert_descends {climb : List PageId} {l : Leaf} (h : Valid c s F (.tree t))
    (hr : Route key t climb l) (rid : RID) :
    (insert key rid).run s = (insertFrom l.id climb key rid).run s := by
  have hc := h.capacity
  have h1 := hc.leaf_ge
  have h2 := hc.leaf_le
  have h3 := hc.internal_ge
  have h4 := hc.internal_le
  obtain ⟨hroot,hs,lo,hi,hb⟩ := h.stands
  have hget : (get : TreeM BPlusTree).run s = .ok s s := rfl
  have hfind := findLeaf_route [] hc hb h.owns hr h.height
  rw [List.append_nil,← hroot] at hfind
  rw [insert,run_bind_ok hget,h.leafMax,h.internalMax,if_neg (by grind),
    if_neg (root_ne_invalid h),run_bind_ok hfind]

theorem insert_spotted (h : Valid c s F r) (hm : Spotted key rid r) :
    (insert key rid).run s = .error duplicate s := by
  cases r with
  | empty => exact hm.elim
  | tree t =>
    obtain ⟨climb,l,hr,he⟩ := hm
    obtain ⟨-,-,lo,hi,hb⟩ := h.stands
    rw [insert_descends h hr]
    exact insertFrom_duplicate h.capacity hb h.owns hr he

/-- `Insert` of any other pair adds it, unless `NewPage` fails. -/
theorem insert_spec (h : Intact c s page G r) (hm : ¬ Spotted key rid r) :
    (∃ err s', (insert key rid).run s = .error err s' ∧ err.code = .ioError) ∨
    ∃ r' s', (insert key rid).run s = .ok () s' ∧ Intact c s' page G r' ∧
      r'.entries.Perm ((key,rid)::r.entries) := by
  have hv := h.valid
  have hc := hv.capacity
  cases r with
  | empty =>
    have h1 := hc.leaf_ge
    have h2 := hc.leaf_le
    have h3 := hc.internal_ge
    have h4 := hc.internal_le
    have hroot : s.rootPageId = invalidPageId := hv.stands
    have hget : (get : TreeM BPlusTree).run s = .ok s s := rfl
    rw [insert,run_bind_ok hget,hv.leafMax,hv.internalMax,if_neg (by grind),if_pos hroot]
    rcases startTree_spec key rid hc hv.leafMax h.header hv.owns with herr | ⟨i,s₁,hr,ho,hk⟩
    · exact .inl herr
    · have hbody : (Tree.leaf i [(key,rid)]).Body c key key :=
        (body_leaf ..).mpr ⟨List.pairwise_singleton ..,by simp; omega,by simp⟩
      have hset : Intact c s₁ page G (.tree (Tree.leaf i [(key,rid)])) :=
        h.tree hk ho hbody (by simp) (.inl rfl)
      exact .inr ⟨_,s₁,hr,hset,by simp [Root.entries]⟩
  | @tree n t =>
    obtain ⟨hroot,hs,lo,hi,hb⟩ := hv.stands
    have hb : t.Body c (min lo key) (max hi key) := hb.widen (min_le_left ..) (le_max_left ..)
    obtain ⟨climb,l,hroute⟩ := exists_route hc hb hs key
    rw [insert_descends hv hroute]
    have hspec := insertFrom_spec [] hc hb hv.owns hroute (min_le_right ..) (le_max_right ..)
      fun he => hm ⟨climb,l,hroute,he⟩
    rw [List.append_nil] at hspec
    rcases hspec with herr | ⟨t',s₁,hr,ho,hk,hg⟩ | ⟨a,b,sep,s₁,hr,ho,hk,hh⟩
    · exact .inl herr
    · rw [← hk.header,← hk.root] at ho
      refine .inr ⟨.tree t',s₁,hr,h.tree (hk.rooted (hroot.trans hg.id.symm)) ho hg.body
        (lt_of_lt_of_le hs hg.size) ?_,hg.entries⟩
      exact h.wide.imp id fun hw => le_trans hw hg.size
    · rw [← hk.header,← hk.root] at ho
      rw [hr,insertUp]
      rcases createNewRoot_spec hc (hk.internalMax.trans hv.internalMax)
        (by rw [hk.header]; exact h.header) hh ho with herr | ⟨i,s₂,hr₂,ho₂,hk₂⟩
      · exact .inl herr
      · have hge := hc.internal_ge
        have hbody : (Tree.node i [(0,a),(sep,b)]).Body c (min lo key) (max hi key) :=
          (body_node ..).mpr ⟨by simp; omega,hh.left,hh.right,trivial⟩
        have hk₃ : Keeps { s with rootPageId := i } s₂ :=
          ⟨hk₂.root,hk₂.header.trans hk.header,hk₂.leafMax.trans hk.leafMax,
            hk₂.internalMax.trans hk.internalMax⟩
        refine .inr ⟨.tree (Tree.node i [(0,a),(sep,b)]),s₂,hr₂,
          h.tree hk₃ ho₂ hbody (by simp) (.inr (by simp)),?_⟩
        simpa [Root.entries] using hh.entries

/-! ### Removal -/

theorem removeFrom_rootLeaf {i : PageId} {es : List Entry}
    (h : Intact c s page G (.tree (Tree.leaf i es))) (he : (key,rid) ∈ es) :
    ∃ r' s', (removeFrom i key rid).run s = .ok () s' ∧ Intact c s' page G r' ∧
      ((key,rid)::r'.entries).Perm es := by
  have hv := h.valid
  have hc := hv.capacity
  obtain ⟨hroot,hs,lo,hi,hb⟩ := hv.stands
  have hbody := (body_leaf ..).mp hb
  have hlen := List.length_erase_add_one he
  have ho : Owns s ((i,.leaf ⟨c.leafMax,invalidPageId,invalidPageId,es⟩) ::
      (headerCells s.headerPageId s.rootPageId page ++ G)) := hv.owns
  rw [id_leaf] at hroot
  have hfetch := run_fetchLeaf ho List.mem_cons_self
  obtain ⟨s₁,hr₁,ho₁,hk₁⟩ := writePage_spec
    (q := .leaf ⟨c.leafMax,invalidPageId,invalidPageId,es.erase (key,rid)⟩) ho
  have hget : (get : TreeM BPlusTree).run s₁ = .ok s₁ s₁ := rfl
  have hassign : (⟨c.leafMax,invalidPageId,invalidPageId,es⟩ : LeafPage).assign (es.erase (key,rid)) =
      .ok ⟨c.leafMax,invalidPageId,invalidPageId,es.erase (key,rid)⟩ :=
    LeafPage.assign_ok (by simp; omega)
  have hroot₁ : i = s₁.rootPageId := (hk₁.root.trans hroot).symm
  have hperm : ((key,rid)::es.erase (key,rid)).Perm es := (List.perm_cons_erase he).symm
  have hrun : (removeFrom i key rid).run s = (if es.erase (key,rid) ≠ [] then return ()
      else do
        setRoot invalidPageId
        persistRootPageId
        deletePage i : TreeM Unit).run s₁ := by
    rw [removeFrom,run_bind_ok hfetch]
    simp only [he,not_true_eq_false,if_false]
    rw [hassign,run_bind_ok (run_ofResult_ok _),run_bind_ok hr₁,settleLeaf,run_bind_ok hget,
      if_pos hroot₁]
  rw [hrun]
  rw [← hk₁.header,← hk₁.root] at ho₁
  by_cases hne : es.erase (key,rid) = []
  · rw [if_neg (not_not.mpr hne)]
    obtain ⟨s₂,hr₂,ho₂,hk₂⟩ := setRoot_persist (by rw [hk₁.header]; exact h.header) invalidPageId
      (ho₁.perm List.perm_middle.symm)
    obtain ⟨s₃,hr₃,ho₃,hk₃⟩ := deletePage_spec (ho₂.perm List.perm_middle)
    have hk : Keeps { s with rootPageId := invalidPageId } s₃ :=
      ⟨hk₃.root.trans hk₂.root,hk₃.header.trans (hk₂.header.trans hk₁.header),
        hk₃.leafMax.trans (hk₂.leafMax.trans hk₁.leafMax),
        hk₃.internalMax.trans (hk₂.internalMax.trans hk₁.internalMax)⟩
    refine ⟨.empty,s₃,?_,⟨⟨hc,hk.leafMax.trans hv.leafMax,hk.internalMax.trans hv.internalMax,
      hk.root,?_⟩,?_,trivial⟩,?_⟩
    · have hset : (setRoot invalidPageId).run s₁ = .ok () { s₁ with rootPageId := invalidPageId } := rfl
      rw [run_bind_ok hset] at hr₂ ⊢
      rw [run_bind_ok hr₂]
      exact hr₃
    · rw [hk₃.header,hk₃.root]
      exact ho₃
    · rw [hk.header]
      exact h.header
    · rw [Root.entries]
      rwa [hne] at hperm
  · have hbody' : (Tree.leaf i (es.erase (key,rid))).Body c lo hi :=
      (body_leaf ..).mpr ⟨hbody.1.sublist List.erase_sublist,by omega,
        fun e he => hbody.2.2 e (List.mem_of_mem_erase he)⟩
    rw [if_pos hne]
    refine ⟨.tree (Tree.leaf i (es.erase (key,rid))),s₁,rfl,
      h.tree (hk₁.rooted hroot) ho₁ hbody' (List.length_pos_iff.mpr hne) (.inl rfl),?_⟩
    rw [Root.entries,entries_leaf]
    exact hperm

/-- The only child of an internal root becomes the root. -/
theorem collapseRoot_spec {i : PageId} {k lo hi : Key} (hc : c.Valid)
    (hp : page = none ↔ s.headerPageId = invalidPageId) (ht : t.Body c lo hi)
    (ho : Owns s ((Tree.node i [(k,t)]).cells c invalidPageId invalidPageId ++
      (headerCells s.headerPageId root page ++ G))) :
    ∃ s', (collapseRoot i (routes [(k,t)])).run s = .ok () s' ∧
      Owns s' (t.cells c invalidPageId invalidPageId ++
        (headerCells s'.headerPageId s'.rootPageId page ++ G)) ∧
      Keeps { s with rootPageId := t.id } s' := by
  have ho : Owns s (t.cells c i invalidPageId ++
      ((i,.internal ⟨c.internalMax,invalidPageId,routes [(k,t)]⟩) ::
        (headerCells s.headerPageId root page ++ G))) := by
    apply ho.perm
    simp only [cells_node,cellsOf_cons,cellsOf_nil,leavesOf_nil,headId_nil,List.append_nil]
    grind
  obtain ⟨s₁,hr₁,ho₁,hk₁⟩ := setParent_spec invalidPageId hc ht ho
  have ho₁ : Owns s₁ (headerCells s₁.headerPageId root page ++
      ((i,.internal ⟨c.internalMax,invalidPageId,routes [(k,t)]⟩) ::
        (t.cells c invalidPageId invalidPageId ++ G))) := by
    rw [hk₁.header]
    exact ho₁.perm (by grind)
  obtain ⟨s₂,hr₂,ho₂,hk₂⟩ := setRoot_persist (by rw [hk₁.header]; exact hp) t.id ho₁
  obtain ⟨s₃,hr₃,ho₃,hk₃⟩ := deletePage_spec (ho₂.perm List.perm_middle)
  refine ⟨s₃,?_,?_,?_⟩
  · have hset : (setRoot t.id).run s₁ = .ok () { s₁ with rootPageId := t.id } := rfl
    rw [run_bind_ok hset] at hr₂
    rw [routes_cons]
    simp only [collapseRoot]
    rw [run_bind_ok hr₁,run_bind_ok hset,run_bind_ok hr₂]
    exact hr₃
  · rw [hk₃.header,hk₃.root]
    exact ho₃.perm (by grind)
  · exact ⟨hk₃.root.trans hk₂.root,hk₃.header.trans (hk₂.header.trans hk₁.header),
      hk₃.leafMax.trans (hk₂.leafMax.trans hk₁.leafMax),
      hk₃.internalMax.trans (hk₂.internalMax.trans hk₁.internalMax)⟩

/-- A root that has lost a child stays, or it gives way to its only child. -/
theorem rebalance_root {i : PageId} {cs : List (Key × Tree n)} {lo hi : Key} (fuel : ℕ)
    (h : Intact c s page G r) (hk : Keeps s s') (hroot : s.rootPageId = i)
    (hb : (Tree.node i cs).Body c lo hi) (hne : cs ≠ [])
    (ho : Owns s' ((Tree.node i cs).cells c invalidPageId invalidPageId ++
      (headerCells s.headerPageId s.rootPageId page ++ G))) :
    ∃ r' s'', (rebalance (n+1) fuel i).run s' = .ok () s'' ∧ Intact c s'' page G r' ∧
      r'.entries = entriesOf cs := by
  have hc := h.valid.capacity
  have hroot' : i = s'.rootPageId := (hk.root.trans hroot).symm
  have hget : (get : TreeM BPlusTree).run s' = .ok s' s' := rfl
  have hread := run_readInternal hc hb ho List.mem_cons_self
  rw [rebalance,rebalanceInternal,run_bind_ok hread,run_bind_ok hget]
  simp only [if_pos hroot',length_routes]
  rw [← hk.header,← hk.root] at ho
  by_cases htwo : 2 ≤ cs.length
  · rw [if_pos htwo]
    exact ⟨.tree (Tree.node i cs),s',rfl,h.tree (hk.rooted hroot) ho hb
      (List.length_pos_iff.mpr hne) (.inr htwo),by rw [Root.entries,entries_node]⟩
  · rw [if_neg htwo]
    obtain ⟨⟨k,t⟩,rfl⟩ : ∃ y, cs = [y] := by
      have hpos := List.length_pos_iff.mpr hne
      exact List.length_eq_one_iff.mp (by omega)
    have ht := ((body_node ..).mp hb).2.1
    obtain ⟨s₁,hr,ho₁,hk₁⟩ := collapseRoot_spec hc (by rw [hk.header]; exact h.header) ht.2 ho
    have hk₂ : Keeps { s with rootPageId := t.id } s₁ :=
      ⟨hk₁.root,hk₁.header.trans hk.header,hk₁.leafMax.trans hk.leafMax,
        hk₁.internalMax.trans hk.internalMax⟩
    have hwide : n = 0 ∨ 2 ≤ t.size := by
      cases n with
      | zero => exact .inl rfl
      | succ n => exact .inr (le_trans (hc.two_le_minSize n) ht.1)
    refine ⟨.tree t,s₁,hr,h.tree hk₂ ho₁ ht.2 (lt_of_lt_of_le (hc.minSize_pos n) ht.1) hwide,?_⟩
    simp [Root.entries]

theorem removeFrom_rootNode {i : PageId} {cs : List (Key × Tree n)} {l : Leaf}
    (h : Intact c s page G (.tree (Tree.node i cs))) (hl : l ∈ leavesOf cs)
    (he : (key,rid) ∈ l.entries) :
    ∃ r' s', (removeFrom l.id key rid).run s = .ok () s' ∧ Intact c s' page G r' ∧
      ((key,rid)::r'.entries).Perm (entriesOf cs) := by
  have hv := h.valid
  have hc := hv.capacity
  obtain ⟨hroot,hs,lo,hi,hb⟩ := hv.stands
  have htwo : 2 ≤ cs.length := h.wide.resolve_left (by simp)
  have hn := Nat.lt_of_succ_lt hv.height
  rw [id_node] at hroot
  obtain ⟨L,k,x,R,rfl,hlx⟩ := exists_child hl
  have hx := (fenced_append.mp ((body_node ..).mp hb).2).2.1
  have ho : Owns s ((Tree.node i (L ++ (k,x)::R)).cells c invalidPageId invalidPageId ++
      (headerCells s.headerPageId s.rootPageId page ++ G)) := hv.owns
  have hfocus := owns_focus.mp ho
  have hmem : s.rootPageId ∈ ((i,IndexPage.internal ⟨c.internalMax,invalidPageId,routes (L ++ (k,x)::R)⟩) ::
      (cellsOf c i (headId invalidPageId (x.leaves ++ leavesOf R)) L ++
        (cellsOf c i invalidPageId R ++
          (headerCells s.headerPageId s.rootPageId page ++ G)))).map Prod.fst := by
    rw [hroot,List.map_cons]
    exact List.mem_cons_self
  have hchild := removeFrom_spec hc hx hfocus hmem hn hlx he
  obtain ⟨t',s₁,ho₁,hk,hshrunk,habove⟩ :=
    hchild.node hc hb htwo hn (hfocus.id_ne_of_mem hmem)
  obtain ⟨j,cs',rfl⟩ := t'.exists_node
  obtain rfl : j = i := hshrunk.id
  rcases habove with ⟨hsize,hres⟩ | ⟨hsize,-,fuel,-,hres⟩
  · have hr : (removeFrom l.id key rid).run s = .ok () s₁ := by
      rcases hres with hr | ⟨fuel,hf,hr⟩
      · exact hr
      · rw [hr,id_node]
        have hlt := hv.height
        obtain ⟨fuel,rfl⟩ : ∃ f, fuel = f + 1 := ⟨fuel-1,by omega⟩
        have hpage : (fetchPage j).run s₁ =
            .ok ((Tree.node j cs').page c invalidPageId invalidPageId) s₁ :=
          run_fetchPage ho₁ List.mem_cons_self
        rw [propagateMinimumChange,run_bind_ok hpage,parent_page hc hshrunk.body,
          run_bind_ok (run_ofResult_ok _),if_pos rfl]
        rfl
    have hmin := hc.two_le_minSize n
    rw [← hk.header,← hk.root] at ho₁
    refine ⟨.tree (Tree.node j cs'),s₁,hr,h.tree (hk.rooted hroot) ho₁ hshrunk.body ?_ (.inr ?_),?_⟩
    · simp only [size_node] at hsize ⊢
      omega
    · simp only [size_node] at hsize ⊢
      omega
    · simpa [Root.entries] using hshrunk.entries
  · have hne : cs' ≠ [] := by
      rintro rfl
      simp only [size_node,List.length_nil] at hsize
      omega
    obtain ⟨r',s₂,hr,hset,hentries⟩ := rebalance_root fuel h hk hroot hshrunk.body hne ho₁
    refine ⟨r',s₂,hres.trans hr,hset,?_⟩
    rw [hentries]
    simpa using hshrunk.entries

/-- The walk along the leaves finds a leaf that has the pair, if one has it. -/
theorem findPair_run {ls : List Leaf} (key : Key) (rid : RID) (hc : c.Valid)
    (hl : Linked c s invalidPageId ls) (hids : ∀ l ∈ ls, l.id ≠ invalidPageId)
    (hs : (pairsOf ls).Pairwise (·.1 ≤ ·.1)) {fuel : ℕ} (hf : ls.length < fuel) :
    (∃ l ∈ ls, (key,rid) ∈ l.entries ∧
      (findPair key rid fuel (headId invalidPageId ls)).run s = .ok (some l.id) s) ∨
    ((key,rid) ∉ pairsOf ls ∧
      (findPair key rid fuel (headId invalidPageId ls)).run s = .ok none s) := by
  induction ls generalizing fuel with
  | nil =>
    obtain ⟨fuel,rfl⟩ : ∃ f, fuel = f + 1 := ⟨fuel-1,by omega⟩
    exact .inr ⟨by simp,by rw [headId_nil,findPair,if_pos rfl]; rfl⟩
  | cons l ls ih =>
    obtain ⟨fuel,rfl⟩ : ∃ f, fuel = f + 1 := ⟨fuel-1,by omega⟩
    obtain ⟨⟨parent,hp⟩,hsorted,hlen,hl⟩ := hl
    rw [pairsOf_cons] at hs
    obtain ⟨-,hs₂,hcross⟩ := List.pairwise_append.mp hs
    have hread : (readLeaf l.id).run s =
        .ok ⟨c.leafMax,parent,headId invalidPageId ls,l.entries⟩ s := by
      have hfetch : (fetchPage l.id).run s =
          .ok (.leaf ⟨c.leafMax,parent,headId invalidPageId ls,l.entries⟩) s := by
        simp [fetchPage,hp]
      rw [readLeaf,run_bind_ok hfetch,toLeaf_leaf hc hsorted hlen]
      rfl
    have ih := ih hl (fun m hm => hids m (List.mem_cons_of_mem l hm)) hs₂ (by simpa using hf)
    rw [show headId invalidPageId (l::ls) = l.id from rfl,findPair,
      if_neg (hids l List.mem_cons_self),run_bind_ok hread]
    simp only
    by_cases he : (key,rid) ∈ l.entries
    · rw [if_pos he]
      exact .inl ⟨l,List.mem_cons_self,he,rfl⟩
    · rw [if_neg he]
      by_cases hlast : l.entries.getLast?.any (key < ·.1) = true
      · -- a key above the one looked for: no leaf behind this one has the pair
        rw [if_pos hlast]
        refine .inr ⟨fun hin => ?_,rfl⟩
        rw [pairsOf_cons] at hin
        rcases List.mem_append.mp hin with hin | hin
        · exact he hin
        · cases hg : l.entries.getLast? with
          | none => simp [hg] at hlast
          | some e =>
            have hlt : key < e.1 := by simpa [hg] using hlast
            exact absurd (hcross e (List.mem_of_getLast? hg) _ hin) (not_le.mpr hlt)
      · rw [if_neg hlast]
        rcases ih with ⟨m,hm,hin,hr⟩ | ⟨hnot,hr⟩
        · exact .inl ⟨m,List.mem_cons_of_mem l hm,hin,hr⟩
        · refine .inr ⟨fun hin => ?_,hr⟩
          rw [pairsOf_cons] at hin
          exact (List.mem_append.mp hin).elim he hnot

theorem Faulty.Valid.reaches (h : Valid c s F (.tree t)) : Reaches c s n t.leaves t.entries := by
  obtain ⟨hroot,hs,lo,hi,hb⟩ := h.stands
  -- bounds in order, whatever they are for a root that is an empty leaf
  have hb : t.Body c (min lo hi) (max lo hi) := hb.widen (min_le_left ..) (le_max_right ..)
  exact reaches_tree h.capacity hb hs min_le_max h.owns hroot

def notStored : Failure := ⟨.notFound,"B+树未找到指定的Key/RID"⟩

/-- On a tree with a root page `Remove` comes to a leaf that has the pair, if one has it. -/
theorem remove_descends (key : Key) (rid : RID) (h : Valid c s F (.tree t)) :
    (∃ l ∈ t.leaves, (key,rid) ∈ l.entries ∧
      (remove key rid).run s = (removeFrom l.id key rid).run s) ∨
    ((key,rid) ∉ t.entries ∧ (remove key rid).run s = .error notStored s) := by
  have hc := h.capacity
  have hreach := h.reaches
  obtain ⟨lo,hi,hleads⟩ := hreach.leads
  obtain ⟨as,l,bs,path,hsplit,hbefore,hfind⟩ := hleads.ends key [] pageTurns hreach.height
  have hlen := hreach.length_lt
  have hlinked := hreach.linked
  have hord := hleads.ordered
  rw [hsplit] at hlinked hord hlen
  rw [pairsOf_append] at hord
  rw [List.length_append] at hlen
  have hpair := findPair_run key rid hc (linked_append.mp hlinked).2
    (fun m hm => hreach.ne_invalid m (hsplit ▸ List.mem_append_right as hm))
    (List.pairwise_append.mp hord).2.1 (Nat.lt_of_le_of_lt (Nat.le_add_left ..) hlen)
  have hget : (get : TreeM BPlusTree).run s = .ok s s := rfl
  have hrun : ∀ found x, (findPair key rid pageTurns l.id).run s = .ok found s →
      (found.elim (throw notStored) fun target => removeFrom target key rid : TreeM Unit).run s
        = x → (remove key rid).run s = x := by
    intro found x hfound hx
    rw [remove,run_bind_ok hget,if_neg (root_ne_invalid h),run_bind_ok hfind]
    simp only
    rw [run_bind_ok hfound,← hx]
    cases found <;> rfl
  rcases hpair with ⟨m,hm,he,hr⟩ | ⟨hnot,hr⟩
  · exact .inl ⟨m,hsplit ▸ List.mem_append_right as hm,he,hrun _ _ hr rfl⟩
  · refine .inr ⟨fun he => ?_,hrun _ _ hr rfl⟩
    have he : (key,rid) ∈ pairsOf t.leaves := he
    rw [hsplit,pairsOf_append] at he
    rcases List.mem_append.mp he with he | he
    · exact lt_irrefl key (hbefore _ he)
    · exact hnot he

/-- `Remove` takes one copy of a stored pair from the tree. -/
theorem remove_stored (h : Intact c s page G r) (he : (key,rid) ∈ r.entries) :
    ∃ r' s', (remove key rid).run s = .ok () s' ∧ Intact c s' page G r' ∧
      ((key,rid)::r'.entries).Perm r.entries := by
  cases r with
  | empty => simp [Root.entries] at he
  | @tree n t =>
    rcases remove_descends key rid h.valid with ⟨l,hl,hmem,hr⟩ | ⟨hnot,-⟩
    · rw [hr,Root.entries]
      cases n with
      | zero =>
        obtain ⟨i,es,rfl⟩ := t.exists_leaf
        obtain rfl : l = ⟨i,es⟩ := by simpa using hl
        rw [entries_leaf]
        exact removeFrom_rootLeaf h hmem
      | succ n =>
        obtain ⟨i,cs,rfl⟩ := t.exists_node
        rw [entries_node]
        exact removeFrom_rootNode h hl hmem
    · exact absurd he hnot

theorem remove_missing (h : Valid c s F r) (he : (key,rid) ∉ r.entries) :
    ∃ err, (remove key rid).run s = .error err s ∧ err.code = .notFound := by
  cases r with
  | empty =>
    have hroot : s.rootPageId = invalidPageId := h.stands
    have hget : (get : TreeM BPlusTree).run s = .ok s s := rfl
    refine ⟨⟨.notFound,"B+树为空"⟩,?_,rfl⟩
    rw [remove,run_bind_ok hget,if_pos hroot]
    rfl
  | tree t =>
    rcases remove_descends key rid h with ⟨l,hl,hmem,-⟩ | ⟨-,hr⟩
    · exact absurd (List.mem_flatMap.mpr ⟨l,hl,hmem⟩) he
    · exact ⟨notStored,hr,rfl⟩

end Index
end OurSql
