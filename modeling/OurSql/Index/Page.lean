import OurSql.Common
import Mathlib.Data.List.Sort
import Mathlib.Order.Lattice
import Mathlib.Tactic.Common

/-! The pages of a B+ tree: leaf pages of sorted (key, RID) entries, internal pages
of (key, child) entries whose first key is not used, and the header page that names
the root. -/
namespace OurSql
namespace Index

/-- `index_key_t`. -/
abbrev Key := ℤ

abbrev Entry := Key × RID

instance : LawfulBEq Entry := inferInstance

def ridLess (left right : RID) : Bool :=
  left.pageId < right.pageId || (left.pageId = right.pageId && left.slotId < right.slotId)

def entryLess (left right : Entry) : Bool :=
  left.1 < right.1 || (left.1 = right.1 && ridLess left.2 right.2)

def entryLe (left right : Entry) : Prop := entryLess right left = false

instance : DecidableRel entryLe := fun _ _ => inferInstanceAs (Decidable (_ = _))

theorem entryLe_iff {a b : Entry} : entryLe a b ↔
    a.1 < b.1 ∨ a.1 = b.1 ∧ (a.2.pageId < b.2.pageId ∨
      a.2.pageId = b.2.pageId ∧ a.2.slotId ≤ b.2.slotId) := by
  simp only [entryLe,entryLess,ridLess,Bool.or_eq_false_iff,Bool.and_eq_false_iff,
    decide_eq_false_iff_not]
  grind

theorem entryLess_iff {a b : Entry} : entryLess a b = true ↔ ¬ entryLe b a := by
  simp [entryLe]

theorem entryLe.key_le {a b : Entry} (h : entryLe a b) : a.1 ≤ b.1 := by
  grind [entryLe_iff]

theorem entryLe_of_key_lt {a b : Entry} (h : a.1 < b.1) : entryLe a b := by
  grind [entryLe_iff]

theorem entryLe_total (a b : Entry) : entryLe a b ∨ entryLe b a := by
  grind [entryLe_iff]

theorem entryLe_trans {a b c : Entry} (h : entryLe a b) (h' : entryLe b c) : entryLe a c := by
  grind [entryLe_iff]

theorem entryLe_antisymm {a b : Entry} (h : entryLe a b) (h' : entryLe b a) : a = b := by
  rcases a with ⟨k,p,q⟩
  rcases b with ⟨k',p',q'⟩
  simp only [entryLe_iff] at h h'
  simp only [Prod.mk.injEq,RID.mk.injEq]
  grind

instance : Std.Total entryLe := ⟨entryLe_total⟩

instance : IsTrans Entry entryLe := ⟨fun _ _ _ => entryLe_trans⟩

instance : Std.Antisymm entryLe := ⟨fun _ _ => entryLe_antisymm⟩

/-- `std::sort` by `EntryLess`; the order is total, so the sorted list is the only one. -/
def sortEntries (entries : List Entry) : List Entry := entries.insertionSort entryLe

abbrev Sorted (entries : List Entry) : Prop := entries.Pairwise entryLe

theorem sortEntries_perm (entries : List Entry) : (sortEntries entries).Perm entries :=
  List.perm_insertionSort entryLe entries

theorem sortEntries_sorted (entries : List Entry) : Sorted (sortEntries entries) :=
  List.pairwise_insertionSort entryLe entries

@[simp] theorem length_sortEntries (entries : List Entry) :
    (sortEntries entries).length = entries.length := (sortEntries_perm entries).length_eq

@[simp] theorem mem_sortEntries {entries : List Entry} {e : Entry} :
    e ∈ sortEntries entries ↔ e ∈ entries := (sortEntries_perm entries).mem_iff

/-- What stands before the place `std::lower_bound` finds. -/
def below (entries : List Entry) (e : Entry) : List Entry := entries.takeWhile (entryLess · e)

/-- What stands from that place on. -/
def fromBound (entries : List Entry) (e : Entry) : List Entry := entries.dropWhile (entryLess · e)

def insertEntry (entries : List Entry) (e : Entry) : List Entry :=
  below entries e ++ e :: fromBound entries e

theorem insertEntry_eq (entries : List Entry) (e : Entry) :
    insertEntry entries e = entries.orderedInsert entryLe e := by
  have h : (entryLess · e) = fun b => decide ¬ entryLe e b := by
    funext b
    simp [entryLe]
  rw [List.orderedInsert_eq_take_drop,insertEntry,below,fromBound,h]

theorem insertEntry_perm (entries : List Entry) (e : Entry) :
    (insertEntry entries e).Perm (e :: entries) := by
  rw [insertEntry_eq]
  exact List.perm_orderedInsert entryLe e entries

theorem insertEntry_sorted {entries : List Entry} (e : Entry) (hs : Sorted entries) :
    Sorted (insertEntry entries e) := by
  rw [insertEntry_eq]
  exact hs.orderedInsert e entries

@[simp] theorem length_insertEntry (entries : List Entry) (e : Entry) :
    (insertEntry entries e).length = entries.length + 1 := (insertEntry_perm entries e).length_eq

theorem mem_insertEntry {entries : List Entry} {e x : Entry} :
    x ∈ insertEntry entries e ↔ x = e ∨ x ∈ entries := by
  rw [(insertEntry_perm entries e).mem_iff,List.mem_cons]

/-- In a sorted page the entry at the lower bound decides whether the pair is there. -/
theorem head_fromBound {entries : List Entry} {e : Entry} (hs : Sorted entries) :
    (fromBound entries e).head? = some e ↔ e ∈ entries := by
  induction entries with
  | nil => simp [fromBound]
  | cons y ys ih =>
    obtain ⟨hy,hs⟩ := List.pairwise_cons.mp hs
    by_cases hl : entryLess y e = true
    · have hne : e ≠ y := by
        rintro rfl
        exact entryLess_iff.mp hl ((entryLe_total e e).elim id id)
      simpa [fromBound,List.dropWhile_cons,hl,hne] using ih hs
    · have hle : entryLe e y := by simpa [entryLe] using hl
      simp only [fromBound,List.dropWhile_cons,hl,Bool.false_eq_true,if_false,List.head?_cons,
        Option.some.injEq,List.mem_cons]
      constructor
      · exact fun h => Or.inl h.symm
      · rintro (h | h)
        · exact h.symm
        · exact entryLe_antisymm (hy e h) hle

/-- `kPhysicalMaxSize` of both page classes: 16 bytes for an entry after a header of 32. -/
def kPhysicalMaxSize : ℕ := (4096 - 32) / 16

structure LeafPage where
  maxSize : ℕ
  parentPageId : PageId
  nextPageId : PageId
  entries : List Entry
  deriving DecidableEq, Repr

structure InternalPage where
  maxSize : ℕ
  parentPageId : PageId
  entries : List (Key × PageId)
  deriving DecidableEq, Repr

structure HeaderPage where
  root : PageId
  leafMax : ℕ
  internalMax : ℕ
  deriving DecidableEq, Repr

/-- The bytes of a page by the type in its first field; a new page is all zero. -/
inductive IndexPage
  | blank
  | leaf (page : LeafPage)
  | internal (page : InternalPage)
  | header (page : HeaderPage)
  deriving DecidableEq, Repr

def LeafPage.initializePage (maxSize : ℕ) (parentPageId nextPageId : PageId) : Result LeafPage :=
  if maxSize < 2 || kPhysicalMaxSize < maxSize then
    fail .invalidArgument "B+树叶子页容量必须在 2 到物理上限之间"
  else .ok ⟨maxSize,parentPageId,nextPageId,[]⟩

/-- The loop of `Validate` over neighbouring entries of a leaf. -/
def keysInOrder : List Entry → Bool
  | x::y::rest => !entryLess y x && keysInOrder (y::rest)
  | _ => true

def LeafPage.validate (page : LeafPage) : Status :=
  if page.maxSize < 2 || kPhysicalMaxSize < page.maxSize || page.maxSize < page.entries.length then
    fail .internalError "B+树叶子页头损坏"
  else if !keysInOrder page.entries then fail .internalError "B+树叶子页键值无序"
  else .ok ()

def LeafPage.assign (page : LeafPage) (entries : List Entry) : Result LeafPage :=
  if page.maxSize < entries.length then fail .outOfSpace "B+树叶子页赋值溢出"
  else .ok { page with entries := entries }

def LeafPage.insert (page : LeafPage) (key : Key) (rid : RID) : Result LeafPage :=
  if (fromBound page.entries (key,rid)).head? = some (key,rid) then
    fail .alreadyExists "B+树中已存在相同的Key/RID"
  else if page.maxSize ≤ page.entries.length then fail .outOfSpace "B+树叶子页已满"
  else page.assign (insertEntry page.entries (key,rid))

def InternalPage.initializePage (maxSize : ℕ) (parentPageId : PageId) : Result InternalPage :=
  if maxSize < 3 || kPhysicalMaxSize < maxSize then
    fail .invalidArgument "B+树内部页容量必须在 3 到物理上限之间"
  else .ok ⟨maxSize,parentPageId,[]⟩

/-- The loop of `Validate` over neighbouring keys, the first key left out. -/
def separatorsInOrder : List (Key × PageId) → Bool
  | x::y::rest => !decide (y.1 < x.1) && separatorsInOrder (y::rest)
  | _ => true

def InternalPage.validate (page : InternalPage) : Status :=
  if page.maxSize < 3 || kPhysicalMaxSize < page.maxSize || page.maxSize < page.entries.length then
    fail .internalError "B+树内部页头损坏"
  else if !separatorsInOrder page.entries.tail then fail .internalError "B+树内部页键值无序"
  else .ok ()

def InternalPage.assign (page : InternalPage) (entries : List (Key × PageId)) :
    Result InternalPage :=
  if page.maxSize < entries.length then fail .outOfSpace "B+树内部页赋值溢出"
  else .ok { page with entries := entries }

/-- `Lookup`: go on to the next child while its key is smaller. -/
def lookup (key : Key) : List (Key × PageId) → PageId
  | [] => invalidPageId
  | [(_,child)] => child
  | (_,child)::(separator,next)::rest =>
    if separator < key then lookup key ((separator,next)::rest) else child

/-- A page read as a leaf page and validated. -/
def IndexPage.toLeaf : IndexPage → Result LeafPage
  | .leaf page => match page.validate with
    | .ok () => .ok page
    | .error e => .error e
  | _ => fail .internalError "页面不是有效的B+树叶子页"

/-- A page read as an internal page and validated. -/
def IndexPage.toInternal : IndexPage → Result InternalPage
  | .internal page => match page.validate with
    | .ok () => .ok page
    | .error e => .error e
  | _ => fail .internalError "页面不是有效的B+树内部页"

theorem keysInOrder_of_sorted {entries : List Entry} (hs : Sorted entries) :
    keysInOrder entries = true := by
  induction entries with
  | nil => rfl
  | cons x xs ih =>
    cases xs with
    | nil => rfl
    | cons y ys =>
      obtain ⟨hx,hs⟩ := List.pairwise_cons.mp hs
      have hxy : entryLess y x = false := hx y (by simp)
      simp [keysInOrder,hxy,ih hs]

theorem separatorsInOrder_of_pairwise {entries : List (Key × PageId)}
    (hs : entries.Pairwise (·.1 ≤ ·.1)) : separatorsInOrder entries = true := by
  induction entries with
  | nil => rfl
  | cons x xs ih =>
    cases xs with
    | nil => rfl
    | cons y ys =>
      obtain ⟨hx,hs⟩ := List.pairwise_cons.mp hs
      have hxy : x.1 ≤ y.1 := hx y (by simp)
      simp [separatorsInOrder,hxy,ih hs]

end Index
end OurSql
