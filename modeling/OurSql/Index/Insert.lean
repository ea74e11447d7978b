import OurSql.Index.Search

/-! Insertion into a subtree: the subtree grows in place, or it splits in two and the
loop goes on with its parent. -/
namespace OurSql
namespace Index

open Fence Heap

variable {n : ℕ} {c : Capacity} {t t' a b : Tree n} {cs L R : List (Key × Tree n)} {x : Tree n}
  {parent next i j : PageId} {lo hi k key sep : Key} {rid : RID} {e : Entry}
  {es : List Entry} {s s' : BPlusTree} {F : List (PageId × IndexPage)}
  {climb path : List PageId} {l : Leaf}

theorem insertAfter_append {xs w : List (Key × PageId)} {e : Key × PageId}
    (h : ∀ y ∈ xs, y.2 ≠ i) :
    insertAfter i e (xs ++ (k,i)::w) = some (xs ++ (k,i)::e::w) := by
  induction xs with
  | nil => simp [insertAfter]
  | cons y xs ih =>
    have hy : y.2 ≠ i := h y (by simp)
    simp [insertAfter,hy,ih fun z hz => h z (by simp [hz])]

/-- The root pages of neighbouring subtrees are among their pages. -/
theorem ids_sublist (cs : List (Key × Tree n)) :
    ((routes cs).map Prod.snd).Sublist ((cellsOf c parent next cs).map Prod.fst) := by
  induction cs with
  | nil => simp
  | cons x cs ih =>
    rw [cellsOf_cons,Tree.cells_eq,routes_cons]
    simpa using ih.trans (by simp)

theorem Owns.ids_nodup (h : Owns s (cellsOf c parent next cs ++ F)) :
    ((routes cs).map Prod.snd).Nodup := h.left.holds.nodup.sublist (ids_sublist cs)

theorem Owns.id_ne (h : Owns s (cellsOf c parent next (L ++ (k,x)::R) ++ F)) :
    ∀ y ∈ routes L, y.2 ≠ x.id := by
  have hn := h.ids_nodup
  simp only [routes_append,routes_cons,List.map_append,List.map_cons] at hn
  intro y hy
  exact fun he => (List.disjoint_of_nodup_append hn) (List.mem_map_of_mem hy) (by simp [he])

/-- A subtree after an insertion that has not split its root. -/
structure Grown (c : Capacity) (e : Entry) (lo hi : Key) (t t' : Tree n) : Prop where
  body : t'.Body c lo hi
  id : t'.id = t.id
  head : ∀ d, headId d t'.leaves = headId d t.leaves
  size : t.size ≤ t'.size
  entries : t'.entries.Perm (e::t.entries)

/-- The two subtrees that an insertion has split a subtree in. -/
structure Halves (c : Capacity) (e : Entry) (lo hi sep : Key) (t a b : Tree n) : Prop where
  left : a.Sound c lo sep
  right : b.Sound c sep hi
  id : a.id = t.id
  head : ∀ d, headId d a.leaves = headId d t.leaves
  entries : (a.entries ++ b.entries).Perm (e::t.entries)

/-- The outcomes of an insertion into a subtree: `NewPage` fails, the subtree grows, or
it splits and `insertUp` goes on above it. -/
def Inserted (c : Capacity) (e : Entry) (lo hi : Key) (parent next : PageId)
    (F : List (PageId × IndexPage)) (path : List PageId) (s : BPlusTree) (t : Tree n)
    (result : EStateM.Result Failure BPlusTree Unit) : Prop :=
  (∃ err s', result = .error err s' ∧ err.code = .ioError) ∨
  (∃ t' s', result = .ok () s' ∧ Owns s' (t'.cells c parent next ++ F) ∧ Keeps s s' ∧
    Grown c e lo hi t t') ∨
  ∃ (a b : Tree n) (sep : Key) (s' : BPlusTree),
    result = (insertUp path t.id ⟨sep,b.id⟩).run s' ∧
    Owns s' (a.cells c parent (headId next b.leaves) ++ (b.cells c parent next ++ F)) ∧
    Keeps s s' ∧ Halves c e lo hi sep t a b

def duplicate : Failure := ⟨.alreadyExists,"B+树中已存在相同的Key/RID"⟩

theorem insertIntoLeaf_duplicate (hc : c.Valid) (h : (Tree.leaf i es).Body c lo hi)
    (ho : Owns s ((Tree.leaf i es).cells c parent next ++ F)) (he : (key,rid) ∈ es) :
    (insertIntoLeaf i key rid).run s = .error duplicate s := by
  have hdup : (fromBound es (key,rid)).head? = some (key,rid) := (head_fromBound h.1).mpr he
  rw [insertIntoLeaf,run_bind_ok (run_readLeaf hc h ho List.mem_cons_self),if_pos hdup]
  rfl

theorem insertIntoLeaf_fits (hc : c.Valid) (h : (Tree.leaf i es).Body c lo hi)
    (ho : Owns s ((Tree.leaf i es).cells c parent next ++ F)) (he : (key,rid) ∉ es)
    (hl : es.length < c.leafMax) :
    ∃ s', (insertIntoLeaf i key rid).run s = .ok .none s' ∧
      Owns s' ((Tree.leaf i (insertEntry es (key,rid))).cells c parent next ++ F) ∧
      Keeps s s' := by
  have hsorted : Sorted es := h.1
  have hdup : ¬ (fromBound es (key,rid)).head? = some (key,rid) := by rwa [head_fromBound hsorted]
  rw [cells_leaf,List.singleton_append] at ho
  have hins : (⟨c.leafMax,parent,next,es⟩ : LeafPage).insert key rid =
      .ok ⟨c.leafMax,parent,next,insertEntry es (key,rid)⟩ := by
    rw [LeafPage.insert,if_neg hdup,if_neg (by simpa using hl),
      LeafPage.assign_ok (by simpa using Nat.succ_le_of_lt hl)]
  obtain ⟨s',hr,hs⟩ := writePage_spec
    (q := .leaf ⟨c.leafMax,parent,next,insertEntry es (key,rid)⟩) ho
  refine ⟨s',?_,hs⟩
  rw [insertIntoLeaf,run_bind_ok (run_readLeaf hc h ho List.mem_cons_self),if_neg hdup,if_pos hl,
    hins,run_bind_ok (run_ofResult_ok _),run_bind_ok hr]
  rfl

/-- A full leaf keeps the first half and gives the second one to a new page behind it. -/
theorem insertIntoLeaf_splits (hc : c.Valid) (h : (Tree.leaf i es).Body c lo hi)
    (ho : Owns s ((Tree.leaf i es).cells c parent next ++ F)) (he : (key,rid) ∉ es)
    (hl : es.length = c.leafMax) {left right : List Entry}
    (hleft : (insertEntry es (key,rid)).take ((c.leafMax + 1) / 2) = left)
    (hright : (insertEntry es (key,rid)).drop ((c.leafMax + 1) / 2) = right) :
    (∃ err, (insertIntoLeaf i key rid).run s = .error err s ∧ newPage.run s = .error err s ∧
      err.code = .ioError) ∨
    ∃ j s', (insertIntoLeaf i key rid).run s = .ok ⟨firstKey right,j⟩ s' ∧
      Owns s' ((Tree.leaf i left).cells c parent j ++
        ((Tree.leaf j right).cells c parent next ++ F)) ∧ Keeps s s' := by
  have hsorted : Sorted es := h.1
  have hdup : ¬ (fromBound es (key,rid)).head? = some (key,rid) := by rwa [head_fromBound hsorted]
  rw [cells_leaf,List.singleton_append] at ho
  have hge := hc.leaf_ge
  have hlen := length_insertEntry es (key,rid)
  rcases newPage_spec ho with ⟨err,hr,herr⟩ | ⟨j,s1,hr1,ho1,hk1⟩
  · refine Or.inl ⟨err,?_,hr,herr⟩
    rw [insertIntoLeaf,run_bind_ok (run_readLeaf hc h ho List.mem_cons_self),if_neg hdup,
      if_neg (by simp [hl]),run_bind_error hr]
  · obtain ⟨s2,hr2,ho2,hk2⟩ := writePage_spec (q := .leaf ⟨c.leafMax,parent,j,left⟩)
      (ho1.perm (List.Perm.swap ..))
    obtain ⟨s3,hr3,ho3,hk3⟩ := writePage_spec (q := .leaf ⟨c.leafMax,parent,next,right⟩)
      (ho2.perm (List.Perm.swap ..))
    refine Or.inr ⟨j,s3,?_,ho3.perm (List.Perm.swap ..),(hk1.trans hk2).trans hk3⟩
    have hleft' : left.length ≤ c.leafMax := by
      rw [← hleft,List.length_take]
      omega
    have hright' : right.length ≤ c.leafMax := by
      rw [← hright,List.length_drop]
      omega
    rw [insertIntoLeaf,run_bind_ok (run_readLeaf hc h ho List.mem_cons_self),if_neg hdup,
      if_neg (by simp [hl]),run_bind_ok hr1]
    simp only [hlen,hl,hleft,hright]
    rw [LeafPage.initializePage_ok hc,run_bind_ok (run_ofResult_ok _),LeafPage.assign_ok hleft',
      run_bind_ok (run_ofResult_ok _),LeafPage.assign_ok hright',run_bind_ok (run_ofResult_ok _),
      run_bind_ok hr2,run_bind_ok hr3]
    rfl

/-- The page of the parent after one of its children has split. -/
theorem insertAfter_routes (hid : a.id = x.id)
    (ho : Owns s (cellsOf c i next (L ++ (k,a)::(sep,b)::R) ++ F)) :
    insertAfter x.id (sep,b.id) (routes (L ++ (k,x)::R)) =
      some (routes (L ++ (k,a)::(sep,b)::R)) := by
  have hne := ho.id_ne
  rw [hid] at hne
  simpa [hid] using insertAfter_append (k := k) (e := (sep,b.id)) (w := routes R) hne

theorem insertIntoInternal_fits (hc : c.Valid) (h : (Tree.node i (L ++ (k,x)::R)).Body c lo hi)
    (hid : a.id = x.id) (hb : b.Sound c sep key)
    (ho : Owns s ((i,.internal ⟨c.internalMax,parent,routes (L ++ (k,x)::R)⟩) ::
      (cellsOf c i next (L ++ (k,a)::(sep,b)::R) ++ F)))
    (hl : (L ++ (k,x)::R).length < c.internalMax) :
    ∃ s', (insertIntoInternal i x.id sep b.id).run s = .ok none s' ∧
      Owns s' ((Tree.node i (L ++ (k,a)::(sep,b)::R)).cells c parent next ++ F) ∧ Keeps s s' := by
  have hins := insertAfter_routes hid ho.tail
  have hlen : (routes (L ++ (k,a)::(sep,b)::R)).length ≤ c.internalMax := by
    simp only [length_routes,List.length_append,List.length_cons] at hl ⊢
    omega
  obtain ⟨s1,hr1,ho1,hk1⟩ := writePage_spec
    (q := .internal ⟨c.internalMax,parent,routes (L ++ (k,a)::(sep,b)::R)⟩) ho
  have ho1 : Owns s1 ((Tree.node i (L ++ (k,a)::(sep,b)::R)).cells c parent next ++ F) := ho1
  rw [List.append_cons,owns_focus] at ho1
  obtain ⟨s2,hr2,ho2,hk2⟩ := setParent_spec i hc hb.2 ho1
  rw [← owns_focus,← List.append_cons] at ho2
  refine ⟨s2,?_,ho2,hk1.trans hk2⟩
  rw [insertIntoInternal,run_bind_ok (run_readInternal hc h ho List.mem_cons_self)]
  simp only [hins,if_pos hlen]
  rw [InternalPage.assign_ok hlen,run_bind_ok (run_ofResult_ok _),run_bind_ok hr1,run_bind_ok hr2]
  rfl

/-- A full page keeps the first half of its children and gives the others to a new page. -/
theorem insertIntoInternal_splits (hc : c.Valid)
    (h : (Tree.node i (L ++ (k,x)::R)).Body c lo hi) (hid : a.id = x.id)
    (ho : Owns s ((i,.internal ⟨c.internalMax,parent,routes (L ++ (k,x)::R)⟩) ::
      (cellsOf c i next (L ++ (k,a)::(sep,b)::R) ++ F)))
    (hl : (L ++ (k,x)::R).length = c.internalMax) {A B : List (Key × Tree n)} {d : Tree n}
    {middle lo' hi' : Key} (hsplit : L ++ (k,a)::(sep,b)::R = A ++ (middle,d)::B)
    (hA : A.length = (c.internalMax + 1) / 2)
    (hf : Fenced (Tree.Sound c) hi' lo' ((middle,d)::B)) :
    (∃ err, (insertIntoInternal i x.id sep b.id).run s = .error err s ∧ err.code = .ioError) ∨
    ∃ j s', (insertIntoInternal i x.id sep b.id).run s = .ok (some ⟨middle,j⟩) s' ∧
      Owns s' ((Tree.node i A).cells c parent (headId next (leavesOf ((middle,d)::B))) ++
        ((Tree.node j ((0,d)::B)).cells c parent next ++ F)) ∧ Keeps s s' := by
  have hins := insertAfter_routes hid ho.tail
  have hge := hc.internal_ge
  have hlen : A.length + (B.length + 1) = c.internalMax + 1 := by
    have := congrArg List.length hsplit
    simp only [List.length_append,List.length_cons] at this hl
    omega
  have hread := run_readInternal hc h ho List.mem_cons_self
  rw [hsplit] at hins ho
  obtain ⟨es,hins,hmax,htake,hdrop⟩ : ∃ es,
      insertAfter x.id (sep,b.id) (routes (L ++ (k,x)::R)) = some es ∧
      ¬ es.length ≤ c.internalMax ∧ es.take (es.length / 2) = routes A ∧
      es.drop (es.length / 2) = (middle,d.id)::routes B := by
    have hes : (routes (A ++ (middle,d)::B)).length = c.internalMax + 1 := by
      rw [length_routes,List.length_append,List.length_cons,hlen]
    have hhalf : (routes (A ++ (middle,d)::B)).length / 2 = (routes A).length := by
      rw [hes,length_routes,hA]
    refine ⟨_,hins,by omega,?_,?_⟩
    · rw [hhalf,routes_append,List.take_left]
    · rw [hhalf,routes_append,List.drop_left,routes_cons]
  rcases newPage_spec ho with ⟨err,hr,herr⟩ | ⟨j,s1,hr1,ho1,hk1⟩
  · refine Or.inl ⟨err,?_,herr⟩
    rw [insertIntoInternal,run_bind_ok hread]
    simp only [hins,if_neg hmax]
    rw [run_bind_error hr]
  · obtain ⟨s2,hr2,ho2,hk2⟩ := writePage_spec (q := .internal ⟨c.internalMax,parent,routes A⟩)
      (ho1.perm (List.Perm.swap ..))
    obtain ⟨s3,hr3,ho3,hk3⟩ := writePage_spec
      (q := .internal ⟨c.internalMax,parent,routes ((0,d)::B)⟩) (ho2.perm (List.Perm.swap ..))
    rw [cellsOf_append] at ho3
    have ho3 : Owns s3 (cellsOf c i next ((middle,d)::B) ++
        ((j,.internal ⟨c.internalMax,parent,routes ((0,d)::B)⟩) ::
          (i,.internal ⟨c.internalMax,parent,routes A⟩) ::
            (cellsOf c i (headId next (leavesOf ((middle,d)::B))) A ++ F))) :=
      ho3.perm (by grind)
    obtain ⟨s4,hr4,ho4,hk4⟩ := setParents_spec j hc hf ho3
    have hleft : (routes A).length ≤ c.internalMax := by
      rw [length_routes]
      omega
    have hright : ((0,d.id)::routes B).length ≤ c.internalMax := by
      rw [List.length_cons,length_routes]
      omega
    refine Or.inr ⟨j,s4,?_,?_,((hk1.trans hk2).trans hk3).trans hk4⟩
    · rw [insertIntoInternal,run_bind_ok hread]
      simp only [hins,if_neg hmax]
      rw [run_bind_ok hr1,InternalPage.initializePage_ok hc,run_bind_ok (run_ofResult_ok _)]
      simp only [htake,hdrop,setFirstKey,firstKey]
      rw [InternalPage.assign_ok hleft,run_bind_ok (run_ofResult_ok _),
        InternalPage.assign_ok hright,run_bind_ok (run_ofResult_ok _),run_bind_ok hr2]
      exact (run_bind_ok hr3).trans (run_bind_ok hr4)
    · refine ho4.perm ?_
      rw [cells_node,cells_node,cellsOf_cons,cellsOf_cons]
      grind

theorem Fenced.set {x' : Tree n} (h : Fenced (Tree.Sound c) hi lo (L ++ (k,x)::R))
    (hx : x'.Sound c (lower lo k L) (upper hi R)) :
    Fenced (Tree.Sound c) hi lo (L ++ (k,x')::R) :=
  fenced_append.mpr ⟨(fenced_append.mp h).1,hx,(fenced_append.mp h).2.2⟩

theorem Fenced.split (h : Fenced (Tree.Sound c) hi lo (L ++ (k,x)::R))
    (ha : a.Sound c (lower lo k L) sep) (hb : b.Sound c sep (upper hi R)) :
    Fenced (Tree.Sound c) hi lo (L ++ (k,a)::(sep,b)::R) :=
  fenced_append.mpr ⟨(fenced_append.mp h).1,ha,hb,(fenced_append.mp h).2.2⟩

/-- A child that grows makes its parent grow. -/
theorem Grown.node {x' : Tree n} (h : (Tree.node i (L ++ (k,x)::R)).Body c lo hi)
    (hx : Grown c e (lower lo k L) (upper hi R) x x') :
    Grown c e lo hi (Tree.node i (L ++ (k,x)::R)) (Tree.node i (L ++ (k,x')::R)) := by
  rw [body_node] at h
  have hsize := (fenced_append.mp h.2).2.1.1
  refine ⟨?_,rfl,fun d => ?_,?_,?_⟩
  · rw [body_node]
    exact ⟨by simpa using h.1,Fenced.set h.2 ⟨le_trans hsize hx.size,hx.body⟩⟩
  · simp [hx.head]
  · simp
  · simp only [entries_node,entriesOf_append,entriesOf_cons]
    have hp := hx.entries
    have h1 : (entriesOf L ++ (x'.entries ++ entriesOf R)).Perm
        (entriesOf L ++ ((e::x.entries) ++ entriesOf R)) := (hp.append_right _).append_left _
    exact h1.trans (by grind)

theorem Halves.perm (hx : Halves c e (lower lo k L) (upper hi R) sep x a b) :
    (entriesOf (L ++ (k,a)::(sep,b)::R)).Perm (e::entriesOf (L ++ (k,x)::R)) := by
  simp only [entriesOf_append,entriesOf_cons]
  have h1 : (entriesOf L ++ ((a.entries ++ b.entries) ++ entriesOf R)).Perm
      (entriesOf L ++ ((e::x.entries) ++ entriesOf R)) :=
    (hx.entries.append_right _).append_left _
  rw [List.append_assoc] at h1
  exact h1.trans (by grind)

/-- The halves of a full leaf. -/
theorem halves_leaf (hc : c.Valid) (h : (Tree.leaf i es).Body c lo hi) (hlo : lo ≤ e.1)
    (hhi : e.1 ≤ hi) (hl : es.length = c.leafMax) {left right : List Entry}
    (hleft : (insertEntry es e).take ((c.leafMax + 1) / 2) = left)
    (hright : (insertEntry es e).drop ((c.leafMax + 1) / 2) = right) :
    Halves c e lo hi (firstKey right) (Tree.leaf i es) (Tree.leaf i left) (Tree.leaf j right) := by
  rw [body_leaf] at h
  have hge := hc.leaf_ge
  have happ : left ++ right = insertEntry es e := by rw [← hleft,← hright,List.take_append_drop]
  have hlen := congrArg List.length happ
  rw [length_insertEntry,List.length_append] at hlen
  have hll : left.length = (c.leafMax + 1) / 2 := by
    rw [← hleft,List.length_take,length_insertEntry]
    omega
  have hsorted : Sorted (left ++ right) := happ ▸ insertEntry_sorted e h.1
  have hb : ∀ d ∈ left ++ right, lo ≤ d.1 ∧ d.1 ≤ hi := by
    intro d hd
    rcases mem_insertEntry.mp (happ ▸ hd) with rfl | hd
    · exact ⟨hlo,hhi⟩
    · exact h.2.2 d hd
  cases right with
  | nil => simp at hlen; omega
  | cons y right =>
    obtain ⟨hs1,hs2,hcross⟩ := List.pairwise_append.mp hsorted
    refine ⟨(sound_leaf ..).mpr ⟨by omega,hs1,by omega,fun d hd => ?_⟩,
      (sound_leaf ..).mpr ⟨by omega,hs2,by omega,fun d hd => ?_⟩,rfl,fun d => rfl,?_⟩
    · exact ⟨(hb d (by simp [hd])).1,(hcross d hd y (by simp)).key_le⟩
    · refine ⟨?_,(hb d (List.mem_append_right _ hd)).2⟩
      rcases List.mem_cons.mp hd with rfl | hd
      · exact le_rfl
      · exact (List.rel_of_pairwise_cons hs2 hd).key_le
    · simpa [happ] using insertEntry_perm es e

/-- The halves of a full internal page. -/
theorem halves_node (hc : c.Valid) {A B : List (Key × Tree n)} {d : Tree n} {middle : Key}
    (hl : A.length + (B.length + 1) = c.internalMax + 1) (hA : A.length = (c.internalMax + 1) / 2)
    (hf : Fenced (Tree.Sound c) hi lo (A ++ (middle,d)::B))
    (hd : ∀ f, headId f (leavesOf A) = headId f (leavesOf cs))
    (hp : (entriesOf (A ++ (middle,d)::B)).Perm (e::entriesOf cs)) :
    Halves c e lo hi middle (Tree.node i cs) (Tree.node i A) (Tree.node j ((0,d)::B)) := by
  have hge := hc.internal_ge
  obtain ⟨hfA,hfB⟩ := fenced_append.mp hf
  have hne : A ≠ [] := by
    rintro rfl
    simp at hA
    omega
  rw [lower_of_ne_nil hne] at hfB
  refine ⟨(sound_node ..).mpr ⟨by omega,by omega,hfA⟩,
    (sound_node ..).mpr ⟨by simp; omega,by simp; omega,hfB⟩,rfl,hd,?_⟩
  simpa using hp

/-- A parent takes in the halves of its child: `NewPage` fails, the parent grows, or it splits. -/
theorem insertIntoInternal_step (hc : c.Valid) (h : (Tree.node i (L ++ (k,x)::R)).Body c lo hi)
    (hx : Halves c e (lower lo k L) (upper hi R) sep x a b)
    (ho : Owns s (a.cells c i (headId (headId next (leavesOf R)) b.leaves) ++
      (b.cells c i (headId next (leavesOf R)) ++
        ((i,.internal ⟨c.internalMax,parent,routes (L ++ (k,x)::R)⟩) ::
          (cellsOf c i (headId next (x.leaves ++ leavesOf R)) L ++ (cellsOf c i next R ++ F)))))) :
    (∃ err, (insertIntoInternal i x.id sep b.id).run s = .error err s ∧ err.code = .ioError) ∨
    (∃ t' s', (insertIntoInternal i x.id sep b.id).run s = .ok none s' ∧
      Owns s' (t'.cells c parent next ++ F) ∧ Keeps s s' ∧
      Grown c e lo hi (Tree.node i (L ++ (k,x)::R)) t') ∨
    ∃ (a' b' : Tree (n+1)) (sep' : Key) (s' : BPlusTree),
      (insertIntoInternal i x.id sep b.id).run s = .ok (some ⟨sep',b'.id⟩) s' ∧
      Owns s' (a'.cells c parent (headId next b'.leaves) ++ (b'.cells c parent next ++ F)) ∧
      Keeps s s' ∧ Halves c e lo hi sep' (Tree.node i (L ++ (k,x)::R)) a' b' := by
  have hbody := (body_node ..).mp h
  have hf := Fenced.split hbody.2 hx.left hx.right
  have ha := headId_eq (hx.left.leaves_ne_nil hc)
  have ho : Owns s ((i,.internal ⟨c.internalMax,parent,routes (L ++ (k,x)::R)⟩) ::
      (cellsOf c i next (L ++ (k,a)::(sep,b)::R) ++ F)) := by
    apply ho.perm
    rw [headId_append,← hx.head,ha _ (headId (headId next (leavesOf R)) b.leaves)]
    simp only [cellsOf_append,cellsOf_cons,leavesOf_cons,headId_append]
    grind
  have hlen : (L ++ (k,a)::(sep,b)::R).length = (L ++ (k,x)::R).length + 1 := by
    simp
    omega
  have hhead : ∀ d, headId d (leavesOf (L ++ (k,a)::(sep,b)::R)) =
      headId d (leavesOf (L ++ (k,x)::R)) := by
    intro d
    simp only [leavesOf_append,leavesOf_cons,headId_append,← hx.head]
    rw [ha _ (headId d (leavesOf R))]
  rcases Nat.lt_or_eq_of_le hbody.1 with hl | hl
  · obtain ⟨s1,hr1,ho1,hk1⟩ := insertIntoInternal_fits hc h hx.id hx.right ho hl
    refine Or.inr (Or.inl ⟨_,s1,hr1,ho1,hk1,(body_node ..).mpr ⟨by omega,hf⟩,rfl,hhead,by simp,?_⟩)
    simpa using hx.perm
  · have hge := hc.internal_ge
    obtain ⟨A,B,hsplit,hA⟩ : ∃ A B, L ++ (k,a)::(sep,b)::R = A ++ B ∧
        A.length = (c.internalMax + 1) / 2 :=
      ⟨_,_,(List.take_append_drop ((c.internalMax + 1) / 2) _).symm,by
        rw [List.length_take]
        omega⟩
    have hAB := congrArg List.length hsplit
    rw [hlen,hl,List.length_append] at hAB
    cases B with
    | nil => simp at hAB; omega
    | cons d B =>
      obtain ⟨middle,d⟩ := d
      rw [hsplit] at hf hhead
      rcases insertIntoInternal_splits hc h hx.id ho hl hsplit hA (fenced_append.mp hf).2 with
        herror | ⟨j,s1,hr1,ho1,hk1⟩
      · exact Or.inl herror
      · refine Or.inr (Or.inr ⟨Tree.node i A,Tree.node j ((0,d)::B),middle,s1,hr1,ho1,hk1,?_⟩)
        refine halves_node hc hAB.symm hA hf (fun f => ?_) (hsplit ▸ hx.perm)
        have hne : A ≠ [] := by
          rintro rfl
          simp at hA
          omega
        rw [← hhead,leavesOf_append,headId_append]
        exact headId_eq (leavesOf_ne_nil hc (fenced_append.mp hf).1 hne) _ _

/-- The step of the loop of `Insert`. -/
theorem insertUp_step (path : List PageId) (hc : c.Valid)
    (h : (Tree.node i (L ++ (k,x)::R)).Body c lo hi)
    (hx : Halves c e (lower lo k L) (upper hi R) sep x a b)
    (ho : Owns s (a.cells c i (headId (headId next (leavesOf R)) b.leaves) ++
      (b.cells c i (headId next (leavesOf R)) ++
        ((i,.internal ⟨c.internalMax,parent,routes (L ++ (k,x)::R)⟩) ::
          (cellsOf c i (headId next (x.leaves ++ leavesOf R)) L ++ (cellsOf c i next R ++ F)))))) :
    Inserted c e lo hi parent next F path s (Tree.node i (L ++ (k,x)::R))
      ((insertUp (i::path) x.id ⟨sep,b.id⟩).run s) := by
  rcases insertIntoInternal_step hc h hx ho with ⟨err,hr,herr⟩ | ⟨t',s1,hr,ho1,hk,hg⟩ |
    ⟨a',b',sep',s1,hr,ho1,hk,hh⟩
  · exact Or.inl ⟨err,s,by rw [insertUp,run_bind_error hr],herr⟩
  · refine Or.inr (Or.inl ⟨t',s1,?_,ho1,hk,hg⟩)
    rw [insertUp,run_bind_ok hr]
    rfl
  · refine Or.inr (Or.inr ⟨a',b',sep',s1,?_,ho1,hk,hh⟩)
    rw [insertUp,run_bind_ok hr]
    rfl

theorem insertFrom_duplicate (hc : c.Valid) (h : t.Body c lo hi)
    (ho : Owns s (t.cells c parent next ++ F)) (hr : Route key t climb l)
    (he : (key,rid) ∈ l.entries) : (insertFrom l.id path key rid).run s = .error duplicate s := by
  induction n generalizing lo hi parent next F climb with
  | zero =>
    obtain ⟨i,es,rfl⟩ := t.exists_leaf
    obtain ⟨rfl,rfl⟩ := route_leaf.mp hr
    rw [insertFrom,run_bind_error (insertIntoLeaf_duplicate hc h ho he)]
  | succ n ih =>
    obtain ⟨i,cs,rfl⟩ := t.exists_node
    obtain ⟨L,k,x,R,climb,rfl,-,rfl,hroute⟩ := route_node.mp hr
    rw [body_node] at h
    exact ih (fenced_append.mp h.2).2.1.2 (owns_focus.mp ho) hroute

/-- Insertion of a new pair into the leaf that the descent has found. -/
theorem insertFrom_spec (path : List PageId) (hc : c.Valid) (h : t.Body c lo hi)
    (ho : Owns s (t.cells c parent next ++ F)) (hr : Route key t climb l) (hlo : lo ≤ key)
    (hhi : key ≤ hi) (he : (key,rid) ∉ l.entries) :
    Inserted c (key,rid) lo hi parent next F path s t
      ((insertFrom l.id (climb ++ path) key rid).run s) := by
  induction n generalizing lo hi parent next F climb path with
  | zero =>
    obtain ⟨i,es,rfl⟩ := t.exists_leaf
    obtain ⟨rfl,rfl⟩ := route_leaf.mp hr
    have hbody := (body_leaf ..).mp h
    rcases Nat.lt_or_eq_of_le hbody.2.1 with hl | hl
    · obtain ⟨s1,hr1,ho1,hk1⟩ := insertIntoLeaf_fits hc h ho he hl
      refine Or.inr (Or.inl ⟨_,s1,?_,ho1,hk1,?_⟩)
      · rw [insertFrom,run_bind_ok hr1]
        rfl
      · refine ⟨(body_leaf ..).mpr ⟨insertEntry_sorted _ hbody.1,
          by simpa using Nat.succ_le_of_lt hl,fun d hd => ?_⟩,rfl,fun d => rfl,by simp,by simpa using insertEntry_perm es (key,rid)⟩
        rcases mem_insertEntry.mp hd with rfl | hd
        · exact ⟨hlo,hhi⟩
        · exact hbody.2.2 d hd
    · rcases insertIntoLeaf_splits hc h ho he hl rfl rfl with ⟨err,hr1,-,herr⟩ | ⟨j,s1,hr1,ho1,hk1⟩
      · exact Or.inl ⟨err,s,by rw [insertFrom,run_bind_error hr1],herr⟩
      · refine Or.inr (Or.inr ⟨_,_,_,s1,?_,ho1,hk1,halves_leaf hc h hlo hhi hl rfl rfl⟩)
        have hj : j ≠ invalidPageId := ho1.right.ne_invalid List.mem_cons_self
        rw [insertFrom,run_bind_ok hr1]
        simp only [if_neg hj]
        rfl
  | succ n ih =>
    obtain ⟨i,cs,rfl⟩ := t.exists_node
    obtain ⟨L,k,x,R,climb,rfl,hfocus,rfl,hroute⟩ := route_node.mp hr
    have hbody := (body_node ..).mp h
    obtain ⟨hxlo,hxhi⟩ := hfocus.between hlo hhi
    have hx := ih (i::path) (fenced_append.mp hbody.2).2.1.2 (owns_focus.mp ho) hroute
      hxlo hxhi
    rw [List.append_assoc,List.singleton_append]
    rcases hx with hx | ⟨x',s1,hr1,ho1,hk1,hg⟩ | ⟨a,b,sep,s1,hr1,ho1,hk1,hh⟩
    · exact Or.inl hx
    · refine Or.inr (Or.inl ⟨Tree.node i (L ++ (k,x')::R),s1,hr1,?_,hk1,Grown.node h hg⟩)
      rw [owns_focus,headId_append,hg.head,← headId_append]
      simpa [hg.id] using ho1
    · rw [hr1]
      rcases insertUp_step path hc h hh ho1 with hx | ⟨t',s2,hr2,ho2,hk2,hg⟩ |
        ⟨a',b',sep',s2,hr2,ho2,hk2,hh'⟩
      · exact Or.inl hx
      · exact Or.inr (Or.inl ⟨t',s2,hr2,ho2,hk1.trans hk2,hg⟩)
      · exact Or.inr (Or.inr ⟨a',b',sep',s2,hr2,ho2,hk1.trans hk2,hh'⟩)

end Index
end OurSql
