import OurSql.Index.Whole
import Mathlib.Data.Multiset.Filter

/-! Runs of `Insert` and `Remove` from an empty tree: the tree stays valid and holds, as a multiset,
the pairs that were inserted and not removed since. -/
namespace OurSql
namespace Index

open Fence Heap Faulty

variable {n : ℕ} {c : Capacity} {t : Tree n} {s₀ s s' : BPlusTree} {key lower upper : Key}
  {rid : RID} {page : Option HeaderPage} {F : List (PageId × IndexPage)} {r : Root}
  {m : Multiset Entry} {allowed : BPlusTree → Entry → Prop}

/-- An empty tree with capacities that `Insert` accepts, without a header page or with one that
`CreatePersistent` has written. -/
structure Start (c : Capacity) (s : BPlusTree) : Prop where
  capacity : c.Valid
  leafMax : s.leafMaxSize = c.leafMax
  internalMax : s.internalMaxSize = c.internalMax
  root : s.rootPageId = invalidPageId
  header : s.headerPageId = invalidPageId ∨ s.headerPageId < invalidPageId ∧
    ∃ page : HeaderPage, s.pages s.headerPageId = some (.header page) ∧ page.root = invalidPageId

/-- Where a run without page-I/O failures ends, and the pairs inserted with `Ok` and not removed
since; each `Insert` is an allowed one. -/
inductive Arrives (allowed : BPlusTree → Entry → Prop) (s₀ : BPlusTree) :
    BPlusTree → Multiset Entry → Prop
  | start : Arrives allowed s₀ s₀ 0
  | inserted {s s' : BPlusTree} {m : Multiset Entry} {key : Key} {rid : RID} :
      Arrives allowed s₀ s m → allowed s (key,rid) → (insert key rid).run s = .ok () s' →
      Arrives allowed s₀ s' ((key,rid) ::ₘ m)
  | removed {s s' : BPlusTree} {m : Multiset Entry} {key : Key} {rid : RID} :
      Arrives allowed s₀ s m → (remove key rid).run s = .ok () s' →
      Arrives allowed s₀ s' (m.erase (key,rid))
  | insertRefused {s s' : BPlusTree} {m : Multiset Entry} {key : Key} {rid : RID} {e : Failure} :
      Arrives allowed s₀ s m → allowed s (key,rid) → (insert key rid).run s = .error e s' →
      e.code ≠ .ioError → Arrives allowed s₀ s' m
  | removeRefused {s s' : BPlusTree} {m : Multiset Entry} {key : Key} {rid : RID} {e : Failure} :
      Arrives allowed s₀ s m → (remove key rid).run s = .error e s' → e.code ≠ .ioError →
      Arrives allowed s₀ s' m

def anything : BPlusTree → Entry → Prop := fun _ _ => True

theorem Start.intact (h : Start c s) : ∃ page, Intact c s page [] .empty := by
  rcases h.header with hh | ⟨hlt,page,hp,hroot⟩
  · refine ⟨none,⟨h.capacity,h.leafMax,h.internalMax,h.root,?_⟩,by simp [hh],trivial⟩
    exact ⟨holds_nil,by simp [Root.cells,headerCells]⟩
  · refine ⟨some page,⟨h.capacity,h.leafMax,h.internalMax,h.root,?_⟩,?_,trivial⟩
    · have hcell : headerCells s.headerPageId s.rootPageId (some page) =
          [(s.headerPageId,.header page)] := by
        rw [headerCells,h.root,← hroot]
      rw [hcell]
      refine ⟨holds_cons.mpr ⟨hp,by simp,holds_nil⟩,fun x hx => ?_⟩
      obtain rfl : x = (s.headerPageId,.header page) := by simpa [Root.cells] using hx
      exact hlt
    · simpa using Nat.ne_of_lt hlt

theorem Arrives.intact (hs : Start c s₀) (h : Arrives allowed s₀ s m) :
    ∃ page r, Intact c s page [] r ∧ (r.entries : Multiset Entry) = m := by
  induction h with
  | start =>
    obtain ⟨page,hi⟩ := hs.intact
    exact ⟨page,.empty,hi,rfl⟩
  | @inserted s s' m key rid _ _ hr ih =>
    obtain ⟨page,r,hi,rfl⟩ := ih
    by_cases hm : Spotted key rid r
    · rw [insert_spotted hi.valid hm] at hr
      cases hr
    · rcases insert_spec hi hm with ⟨err,s₁,hr₁,-⟩ | ⟨r',s₁,hr₁,hi',hp⟩
      · rw [hr₁] at hr
        cases hr
      · rw [hr₁] at hr
        cases hr
        exact ⟨page,r',hi',Multiset.coe_eq_coe.mpr hp⟩
  | @insertRefused s s' m key rid e _ _ hr hcode ih =>
    obtain ⟨page,r,hi,rfl⟩ := ih
    by_cases hm : Spotted key rid r
    · rw [insert_spotted hi.valid hm] at hr
      cases hr
      exact ⟨page,r,hi,rfl⟩
    · rcases insert_spec hi hm with ⟨err,s₁,hr₁,herr⟩ | ⟨r',s₁,hr₁,-,-⟩
      · rw [hr₁] at hr
        cases hr
        exact absurd herr hcode
      · rw [hr₁] at hr
        cases hr
  | @removed s s' m key rid _ hr ih =>
    obtain ⟨page,r,hi,rfl⟩ := ih
    by_cases he : (key,rid) ∈ r.entries
    · obtain ⟨r',s₁,hr₁,hi',hp⟩ := remove_stored hi he
      rw [hr₁] at hr
      cases hr
      refine ⟨page,r',hi',?_⟩
      rw [← Multiset.coe_eq_coe.mpr hp,← Multiset.cons_coe,Multiset.erase_cons_head]
    · obtain ⟨err,hr₁,-⟩ := remove_missing hi.valid he
      rw [hr₁] at hr
      cases hr
  | @removeRefused s s' m key rid e _ hr _ ih =>
    obtain ⟨page,r,hi,rfl⟩ := ih
    by_cases he : (key,rid) ∈ r.entries
    · obtain ⟨r',s₁,hr₁,-,-⟩ := remove_stored hi he
      rw [hr₁] at hr
      cases hr
    · obtain ⟨err,hr₁,-⟩ := remove_missing hi.valid he
      rw [hr₁] at hr
      cases hr
      exact ⟨page,r,hi,rfl⟩

/-! ### Scans and lookups -/

theorem rangeScan_valid (h : Valid c s F r) (hle : lower ≤ upper) :
    (rangeScan lower upper).run s =
      .ok (sortEntries (r.entries.filter (inRange lower upper))) s := by
  cases r with
  | empty =>
    have hget : (get : TreeM BPlusTree).run s = .ok s s := rfl
    have hroot : s.rootPageId = invalidPageId := h.stands
    rw [rangeScan,if_neg (not_lt.mpr hle),Index.run_bind_ok hget,if_pos hroot]
    rfl
  | tree t =>
    have hreach := h.reaches
    obtain ⟨lo,hi,hleads⟩ := hreach.leads
    exact rangeScan_eq h.capacity hleads hreach.linked hreach.ne_invalid hreach.height
      hreach.length_lt hle

/-- The scans and lookups of the tree give these pairs, in (key, RID) order. -/
structure Serves (s : BPlusTree) (m : Multiset Entry) : Prop where
  scan : ∀ lower upper, lower ≤ upper → ∃ result, (rangeScan lower upper).run s = .ok result s ∧
    Sorted result ∧ (result : Multiset Entry) = m.filter fun e => lower ≤ e.1 ∧ e.1 ≤ upper
  lookup : ∀ key, ∃ result, (getValue key).run s = .ok (result.map Prod.snd) s ∧
    Sorted result ∧ (result : Multiset Entry) = m.filter fun e => e.1 = key

theorem Faulty.Valid.serves (h : Valid c s F r) : Serves s (r.entries : Multiset Entry) := by
  have hperm : ∀ lower upper, ((sortEntries (r.entries.filter (inRange lower upper)) : List Entry) :
      Multiset Entry) = (r.entries : Multiset Entry).filter fun e => lower ≤ e.1 ∧ e.1 ≤ upper := by
    intro lower upper
    rw [Multiset.coe_eq_coe.mpr (sortEntries_perm _),Multiset.filter_coe]
    congr 1
    refine List.filter_congr fun e _ => ?_
    simp [inRange]
  refine ⟨fun lower upper hle => ⟨_,rangeScan_valid h hle,sortEntries_sorted _,hperm lower upper⟩,
    fun key => ⟨_,?_,sortEntries_sorted _,(hperm key key).trans ?_⟩⟩
  · rw [getValue,Index.run_bind_ok (rangeScan_valid h (le_refl key))]
    rfl
  · refine Multiset.filter_congr fun e _ => ?_
    exact ⟨fun h => le_antisymm h.2 h.1,fun h => h ▸ ⟨le_rfl,le_rfl⟩⟩

/-- The tree refines the multiset of the pairs inserted and not removed. -/
theorem run_refines (hs : Start c s₀) (h : Arrives anything s₀ s m) :
    Serves s m ∧ ∀ key rid,
      ((key,rid) ∈ m → ∃ s', (remove key rid).run s = .ok () s' ∧ Serves s' (m.erase (key,rid))) ∧
      ((key,rid) ∉ m → ∃ e, (remove key rid).run s = .error e s ∧ e.code = .notFound) := by
  obtain ⟨page,r,hi,rfl⟩ := h.intact hs
  refine ⟨hi.valid.serves,fun key rid => ⟨fun he => ?_,fun he => ?_⟩⟩
  · obtain ⟨r',s',hr,hi',hp⟩ := remove_stored hi (Multiset.mem_coe.mp he)
    refine ⟨s',hr,?_⟩
    rw [← Multiset.coe_eq_coe.mpr hp,← Multiset.cons_coe,Multiset.erase_cons_head]
    exact hi'.valid.serves
  · exact remove_missing hi.valid fun hm => he (Multiset.mem_coe.mpr hm)

/-- An empty tree with pages of two and three entries, and four pages left in the file. -/
def noTree : BPlusTree := ⟨fun _ => none,[3,4,5,6],invalidPageId,invalidPageId,2,3⟩

theorem noTree_start : Start ⟨2,3⟩ noTree where
  capacity := ⟨by decide,by decide,by decide,by decide⟩
  leafMax := rfl
  internalMax := rfl
  root := rfl
  header := .inl rfl

/-- The tree after an insertion. -/
def afterInsert (s : BPlusTree) (key : Key) (rid : RID) : BPlusTree :=
  match (insert key rid).run s with
  | .ok _ s' => s'
  | .error _ s' => s'

/-- Three pairs with one key, in two leaves. -/
def twoLeaves : BPlusTree :=
  afterInsert (afterInsert (afterInsert noTree 5 ⟨9,1⟩) 5 ⟨9,2⟩) 5 ⟨9,3⟩

theorem twoLeaves_arrives : Arrives anything noTree twoLeaves {(5,⟨9,3⟩),(5,⟨9,2⟩),(5,⟨9,1⟩)} :=
  .inserted (.inserted (.inserted .start trivial rfl) trivial rfl) trivial rfl

theorem run_refines_twoLeaves :
    Serves twoLeaves {(5,⟨9,3⟩),(5,⟨9,2⟩),(5,⟨9,1⟩)} ∧ ∀ key rid,
      ((key,rid) ∈ ({(5,⟨9,3⟩),(5,⟨9,2⟩),(5,⟨9,1⟩)} : Multiset Entry) → ∃ s',
        (remove key rid).run twoLeaves = .ok () s' ∧
          Serves s' (({(5,⟨9,3⟩),(5,⟨9,2⟩),(5,⟨9,1⟩)} : Multiset Entry).erase (key,rid))) ∧
      ((key,rid) ∉ ({(5,⟨9,3⟩),(5,⟨9,2⟩),(5,⟨9,1⟩)} : Multiset Entry) → ∃ e,
        (remove key rid).run twoLeaves = .error e twoLeaves ∧ e.code = .notFound) :=
  run_refines noTree_start twoLeaves_arrives

/-! ### Pairs inserted twice -/

/-- A way from a page down to a leaf on which no separator passed equals the key. -/
inductive Clear (s : BPlusTree) (key : Key) : PageId → PageId → Prop
  | leaf (i : PageId) : Clear s key i i
  | child {i j l : PageId} {k : Key} {page : InternalPage} {A B : List (Key × PageId)} :
      s.pages i = some (.internal page) → page.entries = A ++ (k,j)::B → (A ≠ [] → k ≠ key) →
      Clear s key j l → Clear s key i l

/-- The pair is in a leaf to which no separator equal to its key leads. -/
def Visible (s : BPlusTree) (e : Entry) : Prop :=
  s.rootPageId ≠ invalidPageId ∧ ∃ l page, Clear s e.1 s.rootPageId l ∧ s.pages l = some (.leaf page) ∧ e ∈ page.entries

/-- A lookup of the key gives the pair. -/
def Present (s : BPlusTree) (e : Entry) : Prop :=
  ∃ rids s', (getValue e.1).run s = .ok rids s' ∧ e.2 ∈ rids

theorem Serves.present (h : Serves s m) : Present s (key,rid) ↔ (key,rid) ∈ m := by
  obtain ⟨result,hr,-,hm⟩ := h.lookup key
  have hiff : rid ∈ result.map Prod.snd ↔ (key,rid) ∈ m := by
    have hmem : ∀ e, e ∈ result ↔ e ∈ m ∧ e.1 = key := by
      intro e
      rw [← Multiset.mem_coe,hm,Multiset.mem_filter]
    constructor
    · intro h
      obtain ⟨e,he,rfl⟩ := List.mem_map.mp h
      obtain ⟨he,rfl⟩ := (hmem e).mp he
      exact he
    · exact fun h => List.mem_map.mpr ⟨(key,rid),(hmem _).mpr ⟨h,rfl⟩,rfl⟩
  constructor
  · rintro ⟨rids,s',hr',hrid⟩
    rw [hr] at hr'
    cases hr'
    exact hiff.mp hrid
  · exact fun h => ⟨_,s,hr,hiff.mpr h⟩

theorem Owns.leafPage {i parent next : PageId} {es : List Entry}
    (ho : Owns s ((Tree.leaf i es).cells c parent next ++ F)) :
    s.pages i = some (.leaf ⟨c.leafMax,parent,next,es⟩) :=
  ho.left.holds.get (i,_) List.mem_cons_self

theorem Owns.nodePage {i parent next : PageId} {cs : List (Key × Tree n)}
    (ho : Owns s ((Tree.node i cs).cells c parent next ++ F)) :
    s.pages i = some (.internal ⟨c.internalMax,parent,routes cs⟩) :=
  ho.left.holds.get (i,_) List.mem_cons_self

/-- The route to a leaf passes no separator that equals the key. -/
theorem Route.clear {parent next : PageId} {climb : List PageId} {l : Leaf}
    (ho : Owns s (t.cells c parent next ++ F)) (h : Route key t climb l) :
    Clear s key t.id l.id ∧ ∃ p, s.pages l.id = some (.leaf p) ∧ p.entries = l.entries := by
  induction n generalizing parent next F climb with
  | zero =>
    obtain ⟨i,es,rfl⟩ := t.exists_leaf
    obtain ⟨-,rfl⟩ := route_leaf.mp h
    exact ⟨.leaf i,_,ho.leafPage,rfl⟩
  | succ n ih =>
    obtain ⟨i,cs,rfl⟩ := t.exists_node
    obtain ⟨L,k,x,R,climb,rfl,hfocus,-,hroute⟩ := route_node.mp h
    obtain ⟨hclear,hpage⟩ := ih (owns_focus.mp ho) hroute
    have hsplit : routes (L ++ (k,x)::R) = routes L ++ (k,x.id)::routes R := by simp
    refine ⟨.child ho.nodePage hsplit (fun hne => ?_) hclear,hpage⟩
    have hL : L ≠ [] := by
      rintro rfl
      exact hne rfl
    exact ne_of_lt (hfocus.lt hL)

/-- The other way round, for a leaf that has a pair with the key. -/
theorem Clear.route {parent next l : PageId} {lo hi : Key} {p : LeafPage} (hc : c.Valid)
    (hb : t.Body c lo hi) (ho : Owns s (t.cells c parent next ++ F)) (h : Clear s key t.id l)
    (hp : s.pages l = some (.leaf p)) (he : (key,rid) ∈ p.entries) :
    ∃ climb m, Route key t climb m ∧ (key,rid) ∈ m.entries := by
  induction n generalizing parent next F lo hi with
  | zero =>
    obtain ⟨i,es,rfl⟩ := t.exists_leaf
    have hget := ho.leafPage
    cases h with
    | leaf =>
      rw [id_leaf] at hp
      rw [hp] at hget
      cases hget
      exact ⟨[],⟨i,es⟩,⟨rfl,rfl⟩,he⟩
    | child hi' =>
      rw [id_leaf] at hi'
      rw [hi'] at hget
      cases hget
  | succ n ih =>
    obtain ⟨i,cs,rfl⟩ := t.exists_node
    have hget := ho.nodePage
    cases h with
    | leaf =>
      rw [id_node] at hp
      rw [hp] at hget
      cases hget
    | @child _ j _ k page A B hi' hsplit hk hclear =>
      rw [id_node] at hi'
      rw [hi'] at hget
      obtain rfl : page = ⟨c.internalMax,parent,routes cs⟩ := by
        simpa using hget
      obtain ⟨L,R',rfl,rfl,hR⟩ := List.map_eq_append_iff.mp hsplit
      obtain ⟨⟨k',x⟩,R,rfl,hx,rfl⟩ := List.map_eq_cons_iff.mp hR
      obtain ⟨rfl,rfl⟩ : k' = k ∧ x.id = j := Prod.mk.inj hx
      have hbody := ((body_node ..).mp hb).2
      have hsound := (fenced_append.mp hbody).2.1
      obtain ⟨climb,m,hroute,hm⟩ := ih hsound.2 (owns_focus.mp ho) hclear
      have hmem : (key,rid) ∈ x.entries := List.mem_flatMap.mpr ⟨m,hroute.mem,hm⟩
      obtain ⟨hlo,hhi⟩ := (hsound.2.ordered hc).2 _ hmem
      refine ⟨climb ++ [i],m,route_node.mpr ⟨L,k',x,R,climb,rfl,⟨fun y hy => ?_,?_⟩,rfl,hroute⟩,hm⟩
      · have hL : L ≠ [] := by
          rintro rfl
          simp at hy
        rw [lower_of_ne_nil hL] at hlo
        have hlt : k' < key := lt_of_le_of_ne hlo (hk (by simpa using hL))
        have htail : (L ++ [(k',x)]).tail.Pairwise (·.1 ≤ ·.1) := by
          have hsub : (L ++ [(k',x)]).Sublist (L ++ (k',x)::R) := by
            rw [List.append_cons L (k',x) R]
            exact List.sublist_append_left ..
          exact (hbody.pairwise_tail fun _ _ _ h => h.le hc).sublist hsub.tail
        rw [List.tail_append_of_ne_nil hL] at hy htail
        rcases List.mem_append.mp hy with hy | hy
        · exact lt_of_le_of_lt ((List.pairwise_append.mp htail).2.2 y hy (k',x) (by simp)) hlt
        · obtain rfl := List.mem_singleton.mp hy
          exact hlt
      · cases R with
        | nil => exact le_rfl
        | cons y R => exact hhi

theorem spotted_iff (h : Valid c s F r) : Spotted key rid r ↔ Visible s (key,rid) := by
  cases r with
  | empty =>
    have hroot : s.rootPageId = invalidPageId := h.stands
    exact ⟨fun hm => hm.elim,fun hv => absurd hroot hv.1⟩
  | tree t =>
    have hne := root_ne_invalid h
    obtain ⟨hroot,-,lo,hi,hb⟩ := h.stands
    constructor
    · rintro ⟨climb,l,hroute,he⟩
      obtain ⟨hclear,p,hp,hentries⟩ := hroute.clear h.owns
      refine ⟨hne,l.id,p,hroot ▸ hclear,hp,?_⟩
      rw [hentries]
      exact he
    · rintro ⟨-,l,p,hclear,hp,he⟩
      exact Clear.route h.capacity hb h.owns (hroot ▸ hclear) hp he

/-- `Insert` refuses a stored pair exactly when it is visible, and in a run that never inserts a
stored pair that is not, no pair is stored twice. -/
theorem insert_unique (hs : Start c s₀) (h : Arrives allowed s₀ s m) :
    (∀ key rid, Present s (key,rid) →
      ((insert key rid).run s = .error duplicate s ↔ Visible s (key,rid))) ∧
    ((∀ s e, allowed s e → Present s e → Visible s e) → m.Nodup) := by
  constructor
  · intro key rid _
    obtain ⟨page,r,hi,rfl⟩ := h.intact hs
    rw [← spotted_iff hi.valid]
    refine ⟨fun hr => ?_,insert_spotted hi.valid⟩
    by_contra hm
    rcases insert_spec hi hm with ⟨err,s',hr',hcode⟩ | ⟨r',s',hr',-,-⟩
    · rw [hr] at hr'
      cases hr'
      cases hcode
    · rw [hr] at hr'
      cases hr'
  · intro hallowed
    induction h with
    | start => exact Multiset.nodup_zero
    | @inserted s s' m key rid h ha hr ih =>
      refine Multiset.nodup_cons.mpr ⟨fun hmem => ?_,ih⟩
      obtain ⟨page,r,hi,rfl⟩ := h.intact hs
      have hv := hallowed _ _ ha (hi.valid.serves.present.mpr hmem)
      rw [insert_spotted hi.valid ((spotted_iff hi.valid).mpr hv)] at hr
      cases hr
    | removed _ _ ih => exact ih.erase _
    | insertRefused _ _ _ _ ih => exact ih
    | removeRefused _ _ _ ih => exact ih

theorem insert_unique_twoLeaves :
    (∀ key rid, Present twoLeaves (key,rid) →
      ((insert key rid).run twoLeaves = .error duplicate twoLeaves ↔ Visible twoLeaves (key,rid))) ∧
    ((∀ s e, anything s e → Present s e → Visible s e) →
      ({(5,⟨9,3⟩),(5,⟨9,2⟩),(5,⟨9,1⟩)} : Multiset Entry).Nodup) :=
  insert_unique noTree_start twoLeaves_arrives

/-- A pair in the second one of two leaves with its key is stored once more. -/
theorem insert_stores_twice : Arrives anything noTree twoLeaves {(5,⟨9,3⟩),(5,⟨9,2⟩),(5,⟨9,1⟩)} ∧
    Present twoLeaves (5,⟨9,2⟩) ∧
    (insert 5 ⟨9,2⟩).run twoLeaves = .ok () (afterInsert twoLeaves 5 ⟨9,2⟩) ∧
    (getValue 5).run (afterInsert twoLeaves 5 ⟨9,2⟩) =
      .ok [⟨9,1⟩,⟨9,2⟩,⟨9,2⟩,⟨9,3⟩] (afterInsert twoLeaves 5 ⟨9,2⟩) :=
  ⟨twoLeaves_arrives,⟨[⟨9,1⟩,⟨9,2⟩,⟨9,3⟩],_,rfl,by decide⟩,rfl,rfl⟩

end Index
end OurSql
