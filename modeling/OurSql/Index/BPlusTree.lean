import OurSql.Index.Page

/-! The B+ tree over the pages of the buffer pool. Each operation is a function on the
tree object and the pages it reaches; an operation that fails keeps the writes it has
already made. -/
namespace OurSql
namespace Index

/-- The tree object, the index pages behind its buffer pool, and the page ids that the
disk manager hands out to the coming calls of `NewPage`. -/
structure BPlusTree where
  pages : PageId → Option IndexPage
  supply : List PageId
  rootPageId : PageId
  headerPageId : PageId
  leafMaxSize : ℕ
  internalMaxSize : ℕ

abbrev TreeM := EStateM Failure BPlusTree

def ofResult {α : Type} : Result α → TreeM α
  | .ok a => pure a
  | .error e => throw e

/-- No loop over different pages takes more turns: page ids are 32 bits wide. -/
def pageTurns : ℕ := invalidPageId + 1

/-! ### The buffer pool -/

def missing (id : PageId) : Failure :=
  if id = 0 || id = invalidPageId then
    ⟨.invalidArgument,"缓冲池不能操作该页面编号: " ++ toString id⟩
  else ⟨.notFound,"页面不存在: " ++ toString id⟩

def fetchPage (id : PageId) : TreeM IndexPage := do
  match (← get).pages id with
  | some page => return page
  | none => throw (missing id)

/-- `FinalizeWrite` of the guard that holds the page. -/
def writePage (id : PageId) (page : IndexPage) : TreeM Unit :=
  modify fun s => { s with pages := Function.update s.pages id (some page) }

def noPage : Failure := ⟨.ioError,"扩展数据库文件失败"⟩

/-- The disk manager gives a page that is in nobody's use, or none at all. -/
def newPage : TreeM PageId := do
  let s ← get
  match s.supply with
  | [] => throw noPage
  | id::rest =>
    if id = 0 || invalidPageId ≤ id || (s.pages id).isSome then throw noPage
    else
      set { s with supply := rest, pages := Function.update s.pages id (some .blank) }
      return id

def deletePage (id : PageId) : TreeM Unit := do
  match (← get).pages id with
  | some _ => modify fun s => { s with pages := Function.update s.pages id none }
  | none => throw (missing id)

/-- A page read as a leaf page without `Validate`. -/
def IndexPage.asLeaf : IndexPage → Result LeafPage
  | .leaf page => .ok page
  | _ => fail .internalError "页面不是有效的B+树叶子页"

/-- A page read as an internal page without `Validate`. -/
def IndexPage.asInternal : IndexPage → Result InternalPage
  | .internal page => .ok page
  | _ => fail .internalError "页面不是有效的B+树内部页"

/-- A fetched page read as a leaf page after `Validate`. -/
def readLeaf (id : PageId) : TreeM LeafPage := do ofResult (← fetchPage id).toLeaf

def readInternal (id : PageId) : TreeM InternalPage := do ofResult (← fetchPage id).toInternal

def fetchLeaf (id : PageId) : TreeM LeafPage := do ofResult (← fetchPage id).asLeaf

def fetchInternal (id : PageId) : TreeM InternalPage := do ofResult (← fetchPage id).asInternal

/-- `Assign` on a fetched leaf page, then `FinalizeWrite`. -/
def assignLeaf (id : PageId) (entries : List Entry) : TreeM Unit := do
  let page ← fetchLeaf id
  let page ← ofResult (page.assign entries)
  writePage id (.leaf page)

/-- `Assign` and `SetNextPageId` on a fetched leaf page. -/
def assignLeafNext (id : PageId) (entries : List Entry) (nextPageId : PageId) : TreeM Unit := do
  let page ← fetchLeaf id
  let page ← ofResult (page.assign entries)
  writePage id (.leaf { page with nextPageId := nextPageId })

def assignInternal (id : PageId) (entries : List (Key × PageId)) : TreeM Unit := do
  let page ← fetchInternal id
  let page ← ofResult (page.assign entries)
  writePage id (.internal page)

/-! ### Entries of internal pages -/

def firstKey {α : Type} : List (Key × α) → Key
  | [] => 0
  | (key,_)::_ => key

def setFirstKey {α : Type} (key : Key) : List (Key × α) → List (Key × α)
  | [] => []
  | (_,child)::rest => (key,child)::rest

/-- Insert an entry right behind the one of a child. -/
def insertAfter (child : PageId) (entry : Key × PageId) :
    List (Key × PageId) → Option (List (Key × PageId))
  | [] => none
  | x::rest =>
    if x.2 = child then some (x::entry::rest) else (insertAfter child entry rest).map (x :: ·)

def childIndex (child : PageId) (entries : List (Key × PageId)) : Option ℕ :=
  entries.findIdx? (·.2 = child)

def childAt (entries : List (Key × PageId)) (index : ℕ) : PageId :=
  ((entries[index]?).map Prod.snd).getD invalidPageId

def leftSibling (entries : List (Key × PageId)) (index : ℕ) : PageId :=
  if index = 0 then invalidPageId else childAt entries (index-1)

def rightSibling (entries : List (Key × PageId)) (index : ℕ) : PageId :=
  if entries.length ≤ index + 1 then invalidPageId else childAt entries (index+1)

def keyAt (entries : List (Key × PageId)) (index : ℕ) : Key :=
  ((entries[index]?).map Prod.fst).getD 0

def setKeyAt (entries : List (Key × PageId)) (index : ℕ) (key : Key) : List (Key × PageId) :=
  entries.modify index fun entry => (key,entry.2)

/-! ### Search -/

/-- `FindLeaf`; `path` has the internal pages passed so far, the last one first. -/
def findLeaf (key : Key) : ℕ → PageId → List PageId → TreeM (PageId × List PageId)
  | 0, _, _ => throw ⟨.internalError,"B+树内部页包含无效子指针"⟩
  | fuel+1, current, path => do
    let page ← fetchPage current
    match page.toLeaf with
    | .ok _ => return (current,path)
    | .error _ =>
      let internal ← ofResult page.toInternal
      let child := lookup key internal.entries
      if child = invalidPageId then throw ⟨.internalError,"B+树内部页包含无效子指针"⟩
      else findLeaf key fuel child (current::path)

/-- The pairs of a page that lie in the range, and whether the scan ends in it. -/
def collect (lower upper : Key) : List Entry → List Entry → List Entry × Bool
  | [], result => (result,false)
  | entry::rest, result =>
    if entry.1 < lower then collect lower upper rest result
    else if upper < entry.1 then (result,true)
    else collect lower upper rest (result ++ [entry])

def scanLeaves (lower upper : Key) : ℕ → PageId → List Entry → TreeM (List Entry)
  | 0, _, _ => throw ⟨.internalError,"B+树内部页包含无效子指针"⟩
  | fuel+1, current, result => do
    if current = invalidPageId then return sortEntries result
    else
      let leaf ← readLeaf current
      match collect lower upper leaf.entries result with
      | (result,true) => return sortEntries result
      | (result,false) => scanLeaves lower upper fuel leaf.nextPageId result

def rangeScan (lower upper : Key) : TreeM (List Entry) := do
  if upper < lower then throw ⟨.invalidArgument,"B+树范围查询下界不能大于上界"⟩
  else
    let s ← get
    if s.rootPageId = invalidPageId then return []
    else
      let (leaf,_) ← findLeaf lower pageTurns s.rootPageId []
      scanLeaves lower upper pageTurns leaf []

def getValue (key : Key) : TreeM (List RID) := do
  let range ← rangeScan key key
  return range.map Prod.snd

/-! ### Insertion -/

structure SplitResult where
  separator : Key
  rightPageId : PageId
  deriving DecidableEq, Repr

/-- `SplitResult{}`: the page did not split. -/
def SplitResult.none : SplitResult := ⟨0,invalidPageId⟩

def persistRootPageId : TreeM Unit := do
  let s ← get
  if s.headerPageId = invalidPageId then return ()
  else match ← fetchPage s.headerPageId with
    | .header page => writePage s.headerPageId (.header { page with root := s.rootPageId })
    | _ => throw ⟨.internalError,"B+树元数据页损坏，无法更新根页面编号"⟩

def setRoot (id : PageId) : TreeM Unit := modify fun s => { s with rootPageId := id }

def setParent (child parent : PageId) : TreeM Unit := do
  let page ← fetchPage child
  match page.toLeaf with
  | .ok leaf => writePage child (.leaf { leaf with parentPageId := parent })
  | .error _ =>
    let internal ← ofResult page.toInternal
    writePage child (.internal { internal with parentPageId := parent })

def setParents (parent : PageId) : List PageId → TreeM Unit
  | [] => return ()
  | child::rest => do
    setParent child parent
    setParents parent rest

def insertIntoLeaf (leafPageId : PageId) (key : Key) (rid : RID) : TreeM SplitResult := do
  let oldLeaf ← readLeaf leafPageId
  if (fromBound oldLeaf.entries (key,rid)).head? = some (key,rid) then
    throw ⟨.alreadyExists,"B+树中已存在相同的Key/RID"⟩
  else if oldLeaf.entries.length < oldLeaf.maxSize then
    let leaf ← ofResult (oldLeaf.insert key rid)
    writePage leafPageId (.leaf leaf)
    return .none
  else
    let entries := insertEntry oldLeaf.entries (key,rid)
    let newPageId ← newPage
    let newLeaf ← ofResult
      (LeafPage.initializePage oldLeaf.maxSize oldLeaf.parentPageId oldLeaf.nextPageId)
    let splitAt := entries.length / 2
    let left ← ofResult (oldLeaf.assign (entries.take splitAt))
    let right ← ofResult (newLeaf.assign (entries.drop splitAt))
    writePage leafPageId (.leaf { left with nextPageId := newPageId })
    writePage newPageId (.leaf right)
    return ⟨firstKey (entries.drop splitAt),newPageId⟩

def insertIntoInternal (pageId leftChild : PageId) (separator : Key) (rightChild : PageId) :
    TreeM (Option SplitResult) := do
  let oldPage ← readInternal pageId
  match insertAfter leftChild (separator,rightChild) oldPage.entries with
  | none => throw ⟨.internalError,"B+树父页未包含待分裂的子页"⟩
  | some entries =>
    if entries.length ≤ oldPage.maxSize then
      let page ← ofResult (oldPage.assign entries)
      writePage pageId (.internal page)
      setParent rightChild pageId
      return none
    else
      let newPageId ← newPage
      let page ← ofResult (InternalPage.initializePage oldPage.maxSize oldPage.parentPageId)
      let splitAt := entries.length / 2
      let promoted := firstKey (entries.drop splitAt)
      let rightEntries := setFirstKey 0 (entries.drop splitAt)
      let left ← ofResult (oldPage.assign (entries.take splitAt))
      let right ← ofResult (page.assign rightEntries)
      writePage pageId (.internal left)
      writePage newPageId (.internal right)
      setParents newPageId (rightEntries.map Prod.snd)
      return some ⟨promoted,newPageId⟩

def createNewRoot (leftChild : PageId) (separator : Key) (rightChild : PageId) : TreeM Unit := do
  let newRootId ← newPage
  let root ← ofResult (InternalPage.initializePage (← get).internalMaxSize invalidPageId)
  let root ← ofResult (root.assign [(0,leftChild),(separator,rightChild)])
  writePage newRootId (.internal root)
  setParent leftChild newRootId
  setParent rightChild newRootId
  setRoot newRootId
  persistRootPageId

/-- The loop of `Insert` up the path while pages split. -/
def insertUp : List PageId → PageId → SplitResult → TreeM Unit
  | [], leftPageId, split => createNewRoot leftPageId split.separator split.rightPageId
  | parentPageId::path, leftPageId, split => do
    match ← insertIntoInternal parentPageId leftPageId split.separator split.rightPageId with
    | none => return ()
    | some split => insertUp path parentPageId split

def insertFrom (leafPageId : PageId) (path : List PageId) (key : Key) (rid : RID) :
    TreeM Unit := do
  let split ← insertIntoLeaf leafPageId key rid
  if split.rightPageId = invalidPageId then return ()
  else insertUp path leafPageId split

/-- The first entry of an empty tree goes to a new root leaf. -/
def startTree (key : Key) (rid : RID) : TreeM Unit := do
  let id ← newPage
  let leaf ← ofResult (LeafPage.initializePage (← get).leafMaxSize invalidPageId invalidPageId)
  let leaf ← ofResult (leaf.insert key rid)
  setRoot id
  writePage id (.leaf leaf)
  persistRootPageId

def insert (key : Key) (rid : RID) : TreeM Unit := do
  let s ← get
  if s.leafMaxSize < 2 || kPhysicalMaxSize < s.leafMaxSize || s.internalMaxSize < 3 ||
      kPhysicalMaxSize < s.internalMaxSize then
    throw ⟨.invalidArgument,"B+树节点容量配置非法"⟩
  else if s.rootPageId = invalidPageId then startTree key rid
  else
    let (leaf,path) ← findLeaf key pageTurns s.rootPageId []
    insertFrom leaf path key rid

/-! ### Removal -/

def IndexPage.parent (page : IndexPage) : Result PageId :=
  match page.toLeaf with
  | .ok found => .ok found.parentPageId
  | .error _ => match page.toInternal with
    | .ok found => .ok found.parentPageId
    | .error e => .error e

def propagateMinimumChange (newMinimum : Key) : ℕ → PageId → TreeM Unit
  | 0, _ => throw ⟨.internalError,"B+树父页缺少子页面"⟩
  | fuel+1, current => do
    let parentId ← ofResult (← fetchPage current).parent
    if parentId = invalidPageId then return ()
    else
      let parent ← fetchInternal parentId
      match childIndex current parent.entries with
      | none => throw ⟨.internalError,"B+树父页缺少子页面"⟩
      | some index =>
        if index ≠ 0 then assignInternal parentId (setKeyAt parent.entries index newMinimum)
        else propagateMinimumChange newMinimum fuel parentId

def subtreeMinimum : ℕ → PageId → TreeM Key
  | 0, _ => throw ⟨.internalError,"B+树子树包含无效页面"⟩
  | fuel+1, current => do
    if current = invalidPageId then throw ⟨.internalError,"B+树子树包含无效页面"⟩
    else
      let page ← fetchPage current
      match page.toLeaf with
      | .ok leaf =>
        if leaf.entries = [] then throw ⟨.internalError,"B+树非根叶子页为空"⟩
        else return firstKey leaf.entries
      | .error _ =>
        let internal ← ofResult page.toInternal
        subtreeMinimum fuel (childAt internal.entries 0)

/-- Whether a sibling is there and holds more than the minimum. -/
def internalCanLend (id : PageId) (minimum : ℕ) : TreeM Bool := do
  if id = invalidPageId then return false
  else return minimum < (← fetchInternal id).entries.length

def leafCanLend (id : PageId) (minimum : ℕ) : TreeM Bool := do
  if id = invalidPageId then return false
  else return minimum < (← fetchLeaf id).entries.length

/-- What `RebalanceInternal` knows when it turns to the siblings. -/
structure Place where
  pageId : PageId
  parentId : PageId
  parentEntries : List (Key × PageId)
  index : ℕ

def Place.leftId (place : Place) : PageId := leftSibling place.parentEntries place.index

def Place.rightId (place : Place) : PageId := rightSibling place.parentEntries place.index

/-- The ways in which a page and its siblings can be brought back to size. -/
structure Remedies where
  canLend : PageId → TreeM Bool
  borrowLeft : TreeM Unit
  borrowRight : TreeM Unit
  mergeRight : TreeM Unit
  mergeLeft : TreeM Unit
  noSibling : Failure

/-- The order in which both rebalancing functions try them; after a merge, `up` goes on
with the parent. -/
def withSiblings (place : Place) (remedies : Remedies) (up : TreeM Unit) : TreeM Unit := do
  if ← remedies.canLend place.leftId then remedies.borrowLeft
  else if ← remedies.canLend place.rightId then remedies.borrowRight
  else if place.leftId = invalidPageId then
    if place.rightId = invalidPageId then throw remedies.noSibling
    else
      remedies.mergeRight
      up
  else
    remedies.mergeLeft
    up

def borrowInternalLeft (place : Place) (entries : List (Key × PageId)) : TreeM Unit := do
  let left ← fetchInternal place.leftId
  match left.entries.getLast? with
  | none => throw ⟨.internalError,"B+树内部页没有可合并的兄弟"⟩
  | some borrowed =>
    let entries := (0,borrowed.2) :: setFirstKey (keyAt place.parentEntries place.index) entries
    let minimum ← subtreeMinimum pageTurns borrowed.2
    assignInternal place.leftId left.entries.dropLast
    assignInternal place.pageId entries
    assignInternal place.parentId (setKeyAt place.parentEntries place.index minimum)
    setParent borrowed.2 place.pageId

def borrowInternalRight (place : Place) (entries : List (Key × PageId)) : TreeM Unit := do
  let right ← fetchInternal place.rightId
  match right.entries with
  | [] => throw ⟨.internalError,"B+树内部页没有可合并的兄弟"⟩
  | borrowed::rest =>
    let entries := entries ++ [(keyAt place.parentEntries (place.index+1),borrowed.2)]
    let newMinimum ← subtreeMinimum pageTurns (childAt rest 0)
    assignInternal place.pageId entries
    assignInternal place.rightId (setFirstKey 0 rest)
    assignInternal place.parentId (setKeyAt place.parentEntries (place.index+1) newMinimum)
    setParent borrowed.2 place.pageId

def mergeInternalRight (place : Place) (entries : List (Key × PageId)) : TreeM Unit := do
  let right ← fetchInternal place.rightId
  let rightEntries := setFirstKey (keyAt place.parentEntries (place.index+1)) right.entries
  assignInternal place.pageId (entries ++ rightEntries)
  assignInternal place.parentId (place.parentEntries.eraseIdx (place.index+1))
  deletePage place.rightId
  setParents place.pageId (rightEntries.map Prod.snd)

def mergeInternalLeft (place : Place) (entries : List (Key × PageId)) : TreeM Unit := do
  let left ← fetchInternal place.leftId
  let entries := setFirstKey (keyAt place.parentEntries place.index) entries
  assignInternal place.leftId (left.entries ++ entries)
  assignInternal place.parentId (place.parentEntries.eraseIdx place.index)
  deletePage place.pageId
  setParents place.leftId (entries.map Prod.snd)

/-- The only child of an internal root becomes the root. -/
def collapseRoot (pageId : PageId) (entries : List (Key × PageId)) : TreeM Unit := do
  match entries with
  | [] => throw ⟨.internalError,"B+树根内部页没有子页面"⟩
  | (_,newRoot)::_ =>
    setParent newRoot invalidPageId
    setRoot newRoot
    persistRootPageId
    deletePage pageId

def rebalanceInternal : ℕ → PageId → TreeM Unit
  | 0, _ => throw ⟨.internalError,"B+树父页缺少内部页面"⟩
  | fuel+1, pageId => do
    let page ← readInternal pageId
    let minimumSize := (page.maxSize + 1) / 2
    if pageId = (← get).rootPageId then
      if 2 ≤ page.entries.length then return () else collapseRoot pageId page.entries
    else if minimumSize ≤ page.entries.length then return ()
    else
      let parent ← fetchInternal page.parentPageId
      match childIndex pageId parent.entries with
      | none => throw ⟨.internalError,"B+树父页缺少内部页面"⟩
      | some index =>
        let place : Place := ⟨pageId,page.parentPageId,parent.entries,index⟩
        withSiblings place
          { canLend := (internalCanLend · minimumSize)
            borrowLeft := borrowInternalLeft place page.entries
            borrowRight := borrowInternalRight place page.entries
            mergeRight := mergeInternalRight place page.entries
            mergeLeft := mergeInternalLeft place page.entries
            noSibling := ⟨.internalError,"B+树内部页没有可合并的兄弟"⟩ }
          (rebalanceInternal fuel page.parentPageId)

def borrowLeafLeft (place : Place) (entries : List Entry) : TreeM Unit := do
  let left ← fetchLeaf place.leftId
  match left.entries.getLast? with
  | none => throw ⟨.internalError,"B+树叶子页没有可合并的兄弟"⟩
  | some borrowed =>
    let entries := sortEntries (borrowed::entries)
    assignLeaf place.leftId left.entries.dropLast
    assignLeaf place.pageId entries
    assignInternal place.parentId (setKeyAt place.parentEntries place.index (firstKey entries))

def borrowLeafRight (place : Place) (entries : List Entry) : TreeM Unit := do
  let right ← fetchLeaf place.rightId
  match right.entries with
  | [] => throw ⟨.internalError,"B+树叶子页没有可合并的兄弟"⟩
  | borrowed::rest =>
    assignLeaf place.pageId (sortEntries (entries ++ [borrowed]))
    assignLeaf place.rightId rest
    assignInternal place.parentId (setKeyAt place.parentEntries (place.index+1) (firstKey rest))

def mergeLeafRight (place : Place) (entries : List Entry) : TreeM Unit := do
  let right ← fetchLeaf place.rightId
  assignLeafNext place.pageId (sortEntries (entries ++ right.entries)) right.nextPageId
  assignInternal place.parentId (place.parentEntries.eraseIdx (place.index+1))
  deletePage place.rightId

def mergeLeafLeft (place : Place) (entries : List Entry) (nextPageId : PageId) : TreeM Unit := do
  let left ← fetchLeaf place.leftId
  assignLeafNext place.leftId (sortEntries (left.entries ++ entries)) nextPageId
  assignInternal place.parentId (place.parentEntries.eraseIdx place.index)
  deletePage place.pageId

def rebalanceLeaf (fuel : ℕ) (leafPageId : PageId) : TreeM Unit := do
  let leaf ← readLeaf leafPageId
  let minimumSize := (leaf.maxSize + 1) / 2
  let parent ← fetchInternal leaf.parentPageId
  match childIndex leafPageId parent.entries with
  | none => throw ⟨.internalError,"B+树父页缺少叶子页面"⟩
  | some index =>
    let place : Place := ⟨leafPageId,leaf.parentPageId,parent.entries,index⟩
    withSiblings place
      { canLend := (leafCanLend · minimumSize)
        borrowLeft := borrowLeafLeft place leaf.entries
        borrowRight := borrowLeafRight place leaf.entries
        mergeRight := mergeLeafRight place leaf.entries
        mergeLeft := mergeLeafLeft place leaf.entries leaf.nextPageId
        noSibling := ⟨.internalError,"B+树叶子页没有可合并的兄弟"⟩ }
      (rebalanceInternal fuel leaf.parentPageId)

/-- The walk of `Remove` along the leaves to the one that has the pair. -/
def findPair (key : Key) (rid : RID) : ℕ → PageId → TreeM (Option PageId)
  | 0, _ => throw ⟨.internalError,"B+树内部页包含无效子指针"⟩
  | fuel+1, current => do
    if current = invalidPageId then return none
    else
      let leaf ← readLeaf current
      if (key,rid) ∈ leaf.entries then return some current
      else if leaf.entries.getLast?.any (key < ·.1) then return none
      else findPair key rid fuel leaf.nextPageId

/-- What `Remove` does about the size of the leaf it has taken the entry from. -/
def settleLeaf (target : PageId) (entries : List Entry) (maxSize : ℕ) (minimumChanged : Bool) :
    TreeM Unit := do
  if target = (← get).rootPageId then
    if entries ≠ [] then return ()
    else
      setRoot invalidPageId
      persistRootPageId
      deletePage target
  else if (maxSize + 1) / 2 ≤ entries.length then
    if minimumChanged then propagateMinimumChange (firstKey entries) pageTurns target
    else return ()
  else rebalanceLeaf pageTurns target

def removeFrom (target : PageId) (key : Key) (rid : RID) : TreeM Unit := do
  let leaf ← fetchLeaf target
  if (key,rid) ∉ leaf.entries then throw ⟨.notFound,"B+树未找到指定的Key/RID"⟩
  else
    let entries := leaf.entries.erase (key,rid)
    let page ← ofResult (leaf.assign entries)
    writePage target (.leaf page)
    settleLeaf target entries leaf.maxSize (leaf.entries.head? = some (key,rid))

def remove (key : Key) (rid : RID) : TreeM Unit := do
  let s ← get
  if s.rootPageId = invalidPageId then throw ⟨.notFound,"B+树为空"⟩
  else
    let (leaf,_) ← findLeaf key pageTurns s.rootPageId []
    match ← findPair key rid pageTurns leaf with
    | none => throw ⟨.notFound,"B+树未找到指定的Key/RID"⟩
    | some target => removeFrom target key rid

end Index
end OurSql
