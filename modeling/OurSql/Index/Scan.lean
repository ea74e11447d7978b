import OurSql.Index.Search

/-! Range scans over any pages that lead into a chain of leaves: the descent may end in
front of the entries it looks for, as the scan goes on along the leaves. -/
namespace OurSql
namespace Index

open Fence Heap

variable {n : ℕ} {c : Capacity} {s : BPlusTree} {next i : PageId} {lo hi lower upper key : Key}
  {es result : List Entry} {ls ms : List Leaf}

def pairsOf (ls : List Leaf) : List Entry := ls.flatMap Leaf.entries

@[simp] theorem pairsOf_nil : pairsOf [] = [] := rfl

@[simp] theorem pairsOf_cons (l : Leaf) : pairsOf (l::ls) = l.entries ++ pairsOf ls :=
  List.flatMap_cons

@[simp] theorem pairsOf_append : pairsOf (ls ++ ms) = pairsOf ls ++ pairsOf ms :=
  List.flatMap_append

/-- Neighbouring leaves that the pages hold, each with the id of the next one. -/
def Linked (c : Capacity) (s : BPlusTree) (next : PageId) : List Leaf → Prop
  | [] => True
  | l::ls => (∃ parent, s.pages l.id = some (.leaf ⟨c.leafMax,parent,headId next ls,l.entries⟩)) ∧
      Sorted l.entries ∧ l.entries.length ≤ c.leafMax ∧ Linked c s next ls

theorem linked_append : Linked c s next (ls ++ ms) ↔
    Linked c s (headId next ms) ls ∧ Linked c s next ms := by
  induction ls with
  | nil => simp [Linked]
  | cons l ls ih => simp only [List.cons_append,Linked,headId_append,ih,and_assoc]

/-! ### The scan -/

def inRange (lower upper : Key) (e : Entry) : Bool := decide (lower ≤ e.1) && decide (e.1 ≤ upper)

theorem inRange_false_of_lt {e : Entry} (h : upper < e.1) : inRange lower upper e = false := by
  simp [inRange,not_le.mpr h]

theorem filter_above (h : ∀ e ∈ es, upper < e.1) : es.filter (inRange lower upper) = [] :=
  List.filter_eq_nil_iff.mpr fun e he => by simp [inRange_false_of_lt (h e he)]

theorem filter_below (h : ∀ e ∈ es, e.1 < lower) : es.filter (inRange lower upper) = [] :=
  List.filter_eq_nil_iff.mpr fun e he => by simp [inRange,not_le.mpr (h e he)]

/-- What a page adds; the scan ends in it only at a key above the range. -/
theorem collect_eq (lower upper : Key) (result : List Entry) (hs : es.Pairwise (·.1 ≤ ·.1)) : ∃ last,
    collect lower upper es result = (result ++ es.filter (inRange lower upper),last) ∧
      (last = true → ∃ e ∈ es, upper < e.1) := by
  induction es generalizing result with
  | nil => exact ⟨false,by simp [collect],by simp⟩
  | cons e es ih =>
    obtain ⟨he,hs⟩ := List.pairwise_cons.mp hs
    rw [collect]
    by_cases hl : e.1 < lower
    · obtain ⟨last,hc,hlast⟩ := ih result hs
      refine ⟨last,?_,fun h => ?_⟩
      · rw [if_pos hl,hc]
        simp [inRange,not_le.mpr hl]
      · obtain ⟨d,hd,hu⟩ := hlast h
        exact ⟨d,List.mem_cons_of_mem e hd,hu⟩
    · by_cases hu : upper < e.1
      · refine ⟨true,?_,fun _ => ⟨e,List.mem_cons_self,hu⟩⟩
        have habove : ∀ d ∈ e::es, upper < d.1 := by
          intro d hd
          rcases List.mem_cons.mp hd with rfl | hd
          · exact hu
          · exact lt_of_lt_of_le hu (he d hd)
        rw [if_neg hl,if_pos hu,filter_above habove,List.append_nil]
      · obtain ⟨last,hc,hlast⟩ := ih (result ++ [e]) hs
        refine ⟨last,?_,fun h => ?_⟩
        · rw [if_neg hl,if_neg hu,hc]
          simp [inRange,not_lt.mp hl,not_lt.mp hu]
        · obtain ⟨d,hd,hu⟩ := hlast h
          exact ⟨d,List.mem_cons_of_mem e hd,hu⟩

/-- By induction on the leaves from the current one on. -/
theorem scanLeaves_eq (lower upper : Key) (result : List Entry) (hc : c.Valid) (hl : Linked c s invalidPageId ls)
    (hids : ∀ l ∈ ls, l.id ≠ invalidPageId) (hs : (pairsOf ls).Pairwise (·.1 ≤ ·.1)) {fuel : ℕ}
    (hf : ls.length < fuel) : (scanLeaves lower upper fuel (headId invalidPageId ls) result).run s =
      .ok (sortEntries (result ++ (pairsOf ls).filter (inRange lower upper))) s := by
  induction ls generalizing result fuel with
  | nil =>
    obtain ⟨fuel,rfl⟩ : ∃ f, fuel = f + 1 := ⟨fuel-1,by omega⟩
    rw [headId_nil,scanLeaves,if_pos rfl]
    simp
  | cons l ls ih =>
    obtain ⟨fuel,rfl⟩ : ∃ f, fuel = f + 1 := ⟨fuel-1,by omega⟩
    obtain ⟨⟨parent,hp⟩,hsorted,hlen,hl⟩ := hl
    rw [pairsOf_cons] at hs ⊢
    obtain ⟨hs1,hs2,hcross⟩ := List.pairwise_append.mp hs
    have hread : (readLeaf l.id).run s =
        .ok ⟨c.leafMax,parent,headId invalidPageId ls,l.entries⟩ s := by
      have hfetch : (fetchPage l.id).run s =
          .ok (.leaf ⟨c.leafMax,parent,headId invalidPageId ls,l.entries⟩) s := by
        simp [fetchPage,hp]
      rw [readLeaf,run_bind_ok hfetch,toLeaf_leaf hc hsorted hlen]
      rfl
    have ih := ih (result ++ l.entries.filter (inRange lower upper)) hl
      (fun m hm => hids m (List.mem_cons_of_mem l hm)) hs2 (by simpa using hf)
    obtain ⟨last,hcol,hlast⟩ := collect_eq lower upper result hs1
    rw [show headId invalidPageId (l::ls) = l.id from rfl,scanLeaves,
      if_neg (hids l List.mem_cons_self),run_bind_ok hread]
    simp only [hcol]
    cases last with
    | false =>
      rw [ih,List.filter_append,List.append_assoc]
    | true =>
      obtain ⟨e,he,hu⟩ := hlast rfl
      have habove : ∀ d ∈ pairsOf ls, upper < d.1 :=
        fun d hd => lt_of_lt_of_le hu (hcross e he d hd)
      rw [List.filter_append,filter_above habove,List.append_nil]
      rfl

/-! ### The descent -/

/-- Whatever the key, the descent from page `id` ends in one of these leaves, with only smaller
keys in those before it. -/
structure Leads (s : BPlusTree) (n : ℕ) (id : PageId) (ls : List Leaf) (lo hi : Key) : Prop where
  le : lo ≤ hi
  ordered : (pairsOf ls).Pairwise (·.1 ≤ ·.1)
  bounds : ∀ e ∈ pairsOf ls, lo ≤ e.1 ∧ e.1 ≤ hi
  valid : id ≠ invalidPageId
  ends : ∀ key path fuel, n < fuel → ∃ as l bs path', ls = as ++ l::bs ∧
    (∀ e ∈ pairsOf as, e.1 < key) ∧ (findLeaf key fuel id path).run s = .ok (l.id,path') s

theorem Leads.widen {lo' hi' : Key} (h : Leads s n i ls lo hi) (hlo : lo' ≤ lo) (hhi : hi ≤ hi') :
    Leads s n i ls lo' hi' where
  le := le_trans hlo (le_trans h.le hhi)
  ordered := h.ordered
  bounds := fun e he => ⟨le_trans hlo (h.bounds e he).1,le_trans (h.bounds e he).2 hhi⟩
  valid := h.valid
  ends := h.ends

/-- Leaves behind those that the descent can end in. -/
theorem Leads.append {sep : Key} (h : Leads s n i ls lo sep) (hle : sep ≤ hi)
    (hs : (pairsOf ms).Pairwise (·.1 ≤ ·.1)) (hb : ∀ e ∈ pairsOf ms, sep ≤ e.1 ∧ e.1 ≤ hi) :
    Leads s n i (ls ++ ms) lo hi where
  le := le_trans h.le hle
  ordered := by
    rw [pairsOf_append]
    exact List.pairwise_append.mpr ⟨h.ordered,hs,fun a ha b hb' =>
      le_trans (h.bounds a ha).2 (hb b hb').1⟩
  bounds := by
    intro e he
    rw [pairsOf_append] at he
    rcases List.mem_append.mp he with he | he
    · exact ⟨(h.bounds e he).1,le_trans (h.bounds e he).2 hle⟩
    · exact ⟨le_trans h.le (hb e he).1,(hb e he).2⟩
  valid := h.valid
  ends := by
    intro key path fuel hf
    obtain ⟨as,l,bs,path',rfl,hbefore,hrun⟩ := h.ends key path fuel hf
    exact ⟨as,l,bs ++ ms,path',by simp,hbefore,hrun⟩

theorem leads_leaf {parent : PageId} (hc : c.Valid) (hle : lo ≤ hi) (hi' : i ≠ invalidPageId)
    (hp : s.pages i = some (.leaf ⟨c.leafMax,parent,next,es⟩)) (hs : Sorted es)
    (hl : es.length ≤ c.leafMax) (hb : ∀ e ∈ es, lo ≤ e.1 ∧ e.1 ≤ hi) :
    Leads s 0 i [⟨i,es⟩] lo hi where
  le := hle
  ordered := by
    simpa using hs.imp entryLe.key_le
  bounds := by
    simpa using hb
  valid := hi'
  ends := by
    intro key path fuel hf
    obtain ⟨fuel,rfl⟩ : ∃ f, fuel = f + 1 := ⟨fuel-1,by omega⟩
    have hfetch : (fetchPage i).run s = .ok (.leaf ⟨c.leafMax,parent,next,es⟩) s := by
      simp [fetchPage,hp]
    refine ⟨[],⟨i,es⟩,[],path,rfl,by simp,?_⟩
    rw [findLeaf,run_bind_ok hfetch,toLeaf_leaf hc hs hl]
    rfl

/-- A child and the leaves that it leads to. -/
abbrev Child (n : ℕ) := Key × Tree n × List Leaf

def leavesFrom (ys : List (Child n)) : List Leaf := ys.flatMap fun y => y.2.2

def children (ys : List (Child n)) : List (Key × Tree n) := ys.map fun y => (y.1,y.2.1)

/-- The leaves of neighbouring children, in key order between the bounds. -/
theorem fenced_leads {ys : List (Child n)}
    (h : Fenced (fun y lo hi => Leads s n y.1.id y.2 lo hi) hi lo ys) :
    (pairsOf (leavesFrom ys)).Pairwise (·.1 ≤ ·.1) ∧
      ∀ e ∈ pairsOf (leavesFrom ys), lo ≤ e.1 ∧ e.1 ≤ hi := by
  induction ys generalizing lo with
  | nil => simp [leavesFrom]
  | cons y ys ih =>
    obtain ⟨hy,hys⟩ := h
    obtain ⟨hs,hb⟩ := ih hys
    have hu : Fence.upper hi ys ≤ hi := by
      by_cases hne : ys = []
      · rw [hne,upper_nil]
      · exact hys.le (fun _ _ _ h => h.le) hne
    rw [show leavesFrom (y::ys) = y.2.2 ++ leavesFrom ys from List.flatMap_cons,pairsOf_append]
    refine ⟨List.pairwise_append.mpr ⟨hy.ordered,hs,fun a ha b hb' => ?_⟩,fun e he => ?_⟩
    · exact le_trans (hy.bounds a ha).2 (hb b hb').1
    · rcases List.mem_append.mp he with he | he
      · exact ⟨(hy.bounds e he).1,le_trans (hy.bounds e he).2 hu⟩
      · exact ⟨le_trans hy.le (hb e he).1,(hb e he).2⟩

/-- A page whose routes lead to its children leads to their leaves. -/
theorem leads_node {ys : List (Child n)} {parent : PageId} (hc : c.Valid)
    (hi' : i ≠ invalidPageId) (hne : ys ≠ [])
    (hp : s.pages i = some (.internal ⟨c.internalMax,parent,routes (children ys)⟩))
    (hl : (children ys).length ≤ c.internalMax)
    (hf : Fenced (Tree.Sound c) hi lo (children ys))
    (h : Fenced (fun y lo hi => Leads s n y.1.id y.2 lo hi) hi lo ys) :
    Leads s (n+1) i (leavesFrom ys) lo hi where
  le := h.le (fun _ _ _ h => h.le) hne
  ordered := (fenced_leads h).1
  bounds := (fenced_leads h).2
  valid := hi'
  ends := by
    intro key path fuel hfuel
    obtain ⟨fuel,rfl⟩ : ∃ f, fuel = f + 1 := ⟨fuel-1,by omega⟩
    have hcs : children ys ≠ [] := by simpa [children] using hne
    obtain ⟨L,k,x,R,hsplit,hfocus⟩ := exists_focus key hcs
    obtain ⟨ys₁,ys₂,rfl,rfl,hys₂⟩ := List.map_eq_append_iff.mp hsplit
    obtain ⟨y,ys₂,rfl,hy,rfl⟩ := List.map_eq_cons_iff.mp hys₂
    obtain ⟨k',x',ls⟩ := y
    obtain ⟨rfl,rfl⟩ : k' = k ∧ x' = x := Prod.mk.inj hy
    obtain ⟨hleft,hx,-⟩ := fenced_append.mp h
    obtain ⟨as,l,bs,path',rfl,hbefore,hrun⟩ :=
      hx.ends key (i::path) fuel (Nat.lt_of_succ_lt_succ hfuel)
    have hfetch : (fetchPage i).run s =
        .ok (.internal ⟨c.internalMax,parent,routes (children (ys₁ ++ (k',x',as ++ l::bs)::ys₂))⟩)
          s := by
      simp [fetchPage,hp]
    have hlookup : lookup key (routes (children (ys₁ ++ (k',x',as ++ l::bs)::ys₂))) = x'.id := by
      rw [hsplit]
      exact hfocus.lookup
    refine ⟨leavesFrom ys₁ ++ as,l,bs ++ leavesFrom ys₂,path',by simp [leavesFrom],fun e he => ?_,?_⟩
    · rw [pairsOf_append] at he
      rcases List.mem_append.mp he with he | he
      · -- the leaves of an earlier child lie below a separator that the descent has passed
        have hle := ((fenced_leads hleft).2 e he).2
        have hlt : k' < key := hfocus.lt fun hnil => by
          obtain rfl : ys₁ = [] := by simpa using hnil
          simp [leavesFrom] at he
        exact lt_of_le_of_lt hle hlt
      · exact hbefore e he
    · rw [findLeaf,run_bind_ok hfetch]
      simp only [toLeaf_internal,fail,toInternal_internal hc hl hf]
      rw [run_bind_ok (run_ofResult_ok _)]
      simp only [hlookup,if_neg hx.valid,hrun]

/-! ### Lookups -/

theorem rangeScan_eq (hc : c.Valid) (h : Leads s n s.rootPageId ls lo hi)
    (hl : Linked c s invalidPageId ls) (hids : ∀ l ∈ ls, l.id ≠ invalidPageId)
    (hn : n < pageTurns) (hlen : ls.length < pageTurns) (hle : lower ≤ upper) :
    (rangeScan lower upper).run s =
      .ok (sortEntries ((pairsOf ls).filter (inRange lower upper))) s := by
  obtain ⟨as,l,bs,path,rfl,hbefore,hrun⟩ := h.ends lower [] pageTurns hn
  have hord := h.ordered
  rw [pairsOf_append] at hord ⊢
  rw [List.length_append] at hlen
  have hscan := scanLeaves_eq lower upper [] hc (linked_append.mp hl).2
    (fun m hm => hids m (List.mem_append_right as hm)) (List.pairwise_append.mp hord).2.1
    (Nat.lt_of_le_of_lt (Nat.le_add_left ..) hlen)
  rw [List.filter_append,filter_below hbefore,List.nil_append]
  have hget : (get : TreeM BPlusTree).run s = .ok s s := rfl
  rw [rangeScan,if_neg (not_lt.mpr hle),run_bind_ok hget,if_neg h.valid,run_bind_ok hrun]
  exact hscan

/-- A lookup gives the RIDs that the pairs have under the key. -/
def Finds (s : BPlusTree) (pairs : List Entry) : Prop :=
  ∀ key, ∃ rids, (getValue key).run s = .ok rids s ∧
    rids.Perm ((pairs.filter fun e => e.1 = key).map Prod.snd)

theorem inRange_self (e : Entry) : inRange key key e = decide (e.1 = key) := by
  rw [inRange,← Bool.decide_and]
  exact decide_eq_decide.mpr ⟨fun h => le_antisymm h.2 h.1,fun h => h ▸ ⟨le_rfl,le_rfl⟩⟩

theorem finds_of_leads (hc : c.Valid) (h : Leads s n s.rootPageId ls lo hi)
    (hl : Linked c s invalidPageId ls) (hids : ∀ l ∈ ls, l.id ≠ invalidPageId)
    (hn : n < pageTurns) (hlen : ls.length < pageTurns) : Finds s (pairsOf ls) := by
  intro key
  refine ⟨(sortEntries ((pairsOf ls).filter (inRange key key))).map Prod.snd,?_,?_⟩
  · rw [getValue,run_bind_ok (rangeScan_eq hc h hl hids hn hlen (le_refl key))]
    rfl
  · rw [show inRange key key = fun e => decide (e.1 = key) from funext inRange_self]
    exact (sortEntries_perm _).map Prod.snd

/-! ### Trees -/

theorem pairsOf_leavesOf (cs : List (Key × Tree n)) : pairsOf (leavesOf cs) = entriesOf cs := by
  simp [pairsOf,leavesOf,entriesOf,Tree.entries,List.flatMap_assoc]

/-- A page without its parent, which no search reads. -/
def IndexPage.orphan : IndexPage → IndexPage
  | .leaf page => .leaf { page with parentPageId := 0 }
  | .internal page => .internal { page with parentPageId := 0 }
  | page => page

/-- The pages hold these cells, but for the parents of the pages. -/
def Shows (s : BPlusTree) (xs : List (PageId × IndexPage)) : Prop :=
  ∀ x ∈ xs, (s.pages x.1).map IndexPage.orphan = some x.2.orphan

variable {parent : PageId} {t : Tree n} {cs : List (Key × Tree n)}
  {xs ys F : List (PageId × IndexPage)}

theorem Owns.shows (h : Owns s xs) : Shows s xs := fun x hx => by rw [h.holds.get x hx]; rfl

theorem shows_append : Shows s (xs ++ ys) ↔ Shows s xs ∧ Shows s ys := List.forall_mem_append

theorem orphan_eq_leaf {p : IndexPage} {page : LeafPage}
    (h : p.orphan = (IndexPage.leaf page).orphan) :
    ∃ parent, p = .leaf { page with parentPageId := parent } := by
  cases p with
  | leaf q =>
    refine ⟨q.parentPageId,?_⟩
    cases q
    cases page
    simp_all [IndexPage.orphan]
  | _ => simp [IndexPage.orphan] at h

theorem orphan_eq_internal {p : IndexPage} {page : InternalPage}
    (h : p.orphan = (IndexPage.internal page).orphan) :
    ∃ parent, p = .internal { page with parentPageId := parent } := by
  cases p with
  | internal q =>
    refine ⟨q.parentPageId,?_⟩
    cases q
    cases page
    simp_all [IndexPage.orphan]
  | _ => simp [IndexPage.orphan] at h

theorem Shows.leaf {page : LeafPage} (h : Shows s xs) (hm : (i,.leaf page) ∈ xs) :
    ∃ parent, s.pages i = some (.leaf { page with parentPageId := parent }) := by
  obtain ⟨p,hp,heq⟩ := Option.map_eq_some_iff.mp (h _ hm)
  obtain ⟨parent,rfl⟩ := orphan_eq_leaf heq
  exact ⟨parent,hp⟩

theorem Shows.internal {page : InternalPage} (h : Shows s xs) (hm : (i,.internal page) ∈ xs) :
    ∃ parent, s.pages i = some (.internal { page with parentPageId := parent }) := by
  obtain ⟨p,hp,heq⟩ := Option.map_eq_some_iff.mp (h _ hm)
  obtain ⟨parent,rfl⟩ := orphan_eq_internal heq
  exact ⟨parent,hp⟩

/-- The leaves of neighbouring subtrees are linked. -/
theorem linked_cellsOf (hP : ∀ (u : Tree n) (parent next : PageId) (lo hi : Key), u.Sound c lo hi →
      Shows s (u.cells c parent next) → Linked c s next u.leaves)
    (hf : Fenced (Tree.Sound c) hi lo cs) (h : Shows s (cellsOf c parent next cs)) :
    Linked c s next (leavesOf cs) := by
  induction cs generalizing lo with
  | nil => trivial
  | cons x cs ih =>
    rw [cellsOf_cons,shows_append] at h
    rw [leavesOf_cons,linked_append]
    exact ⟨hP _ _ _ _ _ hf.1 h.1,ih hf.2 h.2⟩

theorem linked_tree (hb : t.Body c lo hi) (h : Shows s (t.cells c parent next)) :
    Linked c s next t.leaves := by
  induction n generalizing lo hi parent next with
  | zero =>
    obtain ⟨i,es,rfl⟩ := t.exists_leaf
    rw [body_leaf] at hb
    have hm : (i,.leaf ⟨c.leafMax,parent,next,es⟩) ∈ (Tree.leaf i es).cells c parent next :=
      List.mem_cons_self
    exact ⟨h.leaf hm,hb.1,hb.2.1,trivial⟩
  | succ n ih =>
    obtain ⟨i,cs,rfl⟩ := t.exists_node
    rw [body_node] at hb
    rw [cells_node] at h
    exact linked_cellsOf (fun u _ _ _ _ hu => ih hu.2) hb.2 fun x hx => h x (List.mem_cons_of_mem _ hx)

/-- Children that lead to their own leaves. -/
def whole (cs : List (Key × Tree n)) : List (Child n) := cs.map fun x => (x.1,x.2,x.2.leaves)

@[simp] theorem leavesFrom_whole : leavesFrom (whole cs) = leavesOf cs := by
  simp [leavesFrom,leavesOf,whole,List.flatMap_map]

@[simp] theorem children_whole : children (whole cs) = cs := by
  simp [children,whole,Function.comp_def]

/-- Neighbouring subtrees lead to their leaves. -/
theorem leads_cellsOf (hP : ∀ (u : Tree n) (parent next : PageId) (lo hi : Key), u.Sound c lo hi →
      Shows s (u.cells c parent next) → (∀ x ∈ u.cells c parent next, x.1 ≠ invalidPageId) →
      Leads s n u.id u.leaves lo hi)
    (hf : Fenced (Tree.Sound c) hi lo cs) (h : Shows s (cellsOf c parent next cs))
    (hv : ∀ x ∈ cellsOf c parent next cs, x.1 ≠ invalidPageId) :
    Fenced (fun y lo hi => Leads s n y.1.id y.2 lo hi) hi lo (whole cs) := by
  induction cs generalizing lo with
  | nil => trivial
  | cons x cs ih =>
    rw [cellsOf_cons] at h hv
    obtain ⟨h1,h2⟩ := shows_append.mp h
    have hu : Fence.upper hi (whole cs) = Fence.upper hi cs := by
      cases cs <;> rfl
    rw [whole,List.map_cons,fenced_cons,← whole,hu]
    exact ⟨hP _ _ _ _ _ hf.1 h1 fun y hy => hv y (List.mem_append_left _ hy),
      ih hf.2 h2 fun y hy => hv y (List.mem_append_right _ hy)⟩

theorem leads_tree (hc : c.Valid) (hb : t.Body c lo hi) (hs : 0 < t.size) (hle : lo ≤ hi)
    (h : Shows s (t.cells c parent next)) (hv : ∀ x ∈ t.cells c parent next, x.1 ≠ invalidPageId) :
    Leads s n t.id t.leaves lo hi := by
  induction n generalizing lo hi parent next with
  | zero =>
    obtain ⟨i,es,rfl⟩ := t.exists_leaf
    rw [body_leaf] at hb
    have hm : (i,.leaf ⟨c.leafMax,parent,next,es⟩) ∈ (Tree.leaf i es).cells c parent next :=
      List.mem_cons_self
    obtain ⟨p,hp⟩ := h.leaf hm
    exact leads_leaf hc hle (hv _ hm) hp hb.1 hb.2.1 hb.2.2
  | succ n ih =>
    obtain ⟨i,cs,rfl⟩ := t.exists_node
    rw [body_node] at hb
    rw [cells_node] at h hv
    obtain ⟨p,hp⟩ := h.internal List.mem_cons_self
    have hrow := leads_cellsOf (fun u _ _ _ _ hu =>
        ih hu.2 (lt_of_lt_of_le (hc.minSize_pos n) hu.1) (hu.le hc)) hb.2
      (fun x hx => h x (List.mem_cons_of_mem _ hx)) fun x hx => hv x (List.mem_cons_of_mem _ hx)
    rw [size_node] at hs
    have hne : whole cs ≠ [] := by
      simpa [whole] using List.ne_nil_of_length_pos hs
    have hp : s.pages i = some (.internal ⟨c.internalMax,p,routes (children (whole cs))⟩) := by
      rw [children_whole]
      exact hp
    rw [leaves_node,← leavesFrom_whole]
    refine leads_node hc (hv _ List.mem_cons_self) hne hp ?_ ?_ hrow
    · rw [children_whole]
      exact hb.1
    · rw [children_whole]
      exact hb.2

theorem leavesOf_sublist (hP : ∀ (t : Tree n) (parent next : PageId),
      (t.leaves.map Leaf.id).Sublist ((t.cells c parent next).map Prod.fst))
    (cs : List (Key × Tree n)) (parent next : PageId) :
    ((leavesOf cs).map Leaf.id).Sublist ((cellsOf c parent next cs).map Prod.fst) := by
  induction cs with
  | nil => simp
  | cons x cs ih =>
    rw [leavesOf_cons,cellsOf_cons,List.map_append,List.map_append]
    exact (hP _ _ _).append ih

/-- The leaf pages are among the pages of the tree. -/
theorem leaves_sublist (c : Capacity) (t : Tree n) (parent next : PageId) :
    (t.leaves.map Leaf.id).Sublist ((t.cells c parent next).map Prod.fst) := by
  induction n generalizing parent next with
  | zero =>
    obtain ⟨i,es,rfl⟩ := t.exists_leaf
    simp
  | succ n ih =>
    obtain ⟨i,cs,rfl⟩ := t.exists_node
    rw [cells_node,leaves_node,List.map_cons]
    exact (leavesOf_sublist ih cs i next).cons _

theorem Owns.valid (h : Owns s xs) : ∀ x ∈ xs, x.1 ≠ invalidPageId :=
  fun x hx => Nat.ne_of_lt (h.bounded x hx)

theorem Owns.leaf_lt (h : Owns s xs) (hs : (ls.map Leaf.id).Sublist (xs.map Prod.fst)) :
    ∀ l ∈ ls, l.id < invalidPageId := by
  intro l hl
  obtain ⟨y,hy,heq⟩ := List.mem_map.mp (hs.subset (List.mem_map_of_mem hl))
  exact heq ▸ h.bounded y hy

theorem Route.mem {climb : List PageId} {l : Leaf} (h : Route key t climb l) : l ∈ t.leaves := by
  induction n generalizing climb with
  | zero =>
    obtain ⟨i,es,rfl⟩ := t.exists_leaf
    obtain ⟨-,rfl⟩ := route_leaf.mp h
    simp
  | succ n ih =>
    obtain ⟨i,cs,rfl⟩ := t.exists_node
    obtain ⟨L,k,x,R,climb,rfl,-,rfl,hx⟩ := route_node.mp h
    simp [ih hx]

/-- From the root the pages lead to leaves that hold these pairs. -/
structure Reaches (c : Capacity) (s : BPlusTree) (m : ℕ) (ls : List Leaf) (pairs : List Entry) :
    Prop where
  leads : ∃ lo hi, Leads s m s.rootPageId ls lo hi
  linked : Linked c s invalidPageId ls
  nodup : (ls.map Leaf.id).Nodup
  bounded : ∀ l ∈ ls, l.id < invalidPageId
  height : m < pageTurns
  pairs : (pairsOf ls).Perm pairs

theorem Reaches.length_lt {m : ℕ} {pairs : List Entry} (h : Reaches c s m ls pairs) :
    ls.length < pageTurns := by
  have hids : ∀ id ∈ ls.map Leaf.id, id < invalidPageId := by
    intro id hid
    obtain ⟨l,hl,rfl⟩ := List.mem_map.mp hid
    exact h.bounded l hl
  simpa using length_lt_pageTurns h.nodup hids

theorem Reaches.ne_invalid {m : ℕ} {pairs : List Entry} (h : Reaches c s m ls pairs) :
    ∀ l ∈ ls, l.id ≠ invalidPageId := fun l hl => Nat.ne_of_lt (h.bounded l hl)

theorem Reaches.finds {m : ℕ} {pairs : List Entry} (hc : c.Valid) (h : Reaches c s m ls pairs) :
    Finds s pairs := by
  obtain ⟨lo,hi,hl⟩ := h.leads
  intro key
  obtain ⟨rids,hr,hp⟩ := finds_of_leads hc hl h.linked h.ne_invalid h.height h.length_lt key
  exact ⟨rids,hr,hp.trans ((h.pairs.filter _).map Prod.snd)⟩

theorem Reaches.perm {m : ℕ} {pairs pairs' : List Entry} (h : Reaches c s m ls pairs)
    (hp : pairs.Perm pairs') : Reaches c s m ls pairs' :=
  ⟨h.leads,h.linked,h.nodup,h.bounded,h.height,h.pairs.trans hp⟩

theorem reaches_tree (hc : c.Valid) (hb : t.Body c lo hi) (hs : 0 < t.size) (hle : lo ≤ hi)
    (ho : Owns s (t.cells c parent invalidPageId ++ F)) (hroot : s.rootPageId = t.id) :
    Reaches c s n t.leaves t.entries where
  leads := ⟨lo,hi,hroot ▸ leads_tree hc hb hs hle ho.left.shows ho.left.valid⟩
  linked := linked_tree hb ho.left.shows
  nodup := ho.left.holds.nodup.sublist (leaves_sublist c t parent invalidPageId)
  bounded := ho.left.leaf_lt (leaves_sublist c t parent invalidPageId)
  height := height_lt hc hb hs ho
  pairs := List.Perm.refl _

end Index
end OurSql
