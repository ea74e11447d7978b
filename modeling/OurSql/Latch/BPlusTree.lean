import OurSql.Index.BPlusTree
import OurSql.Latch.Guards

/-! The operations of a B+ tree that belongs to a transaction, block by block with the
guards each block holds. What the blocks compute is what they compute in the tree itself. -/
namespace OurSql
namespace Latch
open Index (Key Entry IndexPage LeafPage InternalPage HeaderPage SplitResult Place firstKey
  setFirstKey insertAfter childIndex childAt leftSibling rightSibling keyAt setKeyAt fromBound
  insertEntry sortEntries lookup collect pageTurns kPhysicalMaxSize)

structure Tree where
  rootPageId : PageId
  headerPageId : PageId
  leafMaxSize : ℕ
  internalMaxSize : ℕ

abbrev TreeOp := Op IndexPage Tree

/-! ### Blocks of one page -/

/-- A block that reads one page, with no transaction lock. -/
def readPage {α : Type} (id : PageId) (f : IndexPage → Result α) : TreeOp α :=
  block (fetchPage false id >>= fun page => ofResult (f page))

/-- A block that changes one page; on a failure the guard goes with the block. -/
def writePage {α : Type} (id : PageId) (f : IndexPage → Result α) : TreeOp α :=
  block (fetchPageWrite true id >>= fun page => do
    let a ← ofResult (f page)
    release id
    return a)

def readLeaf (id : PageId) : TreeOp LeafPage := readPage id IndexPage.toLeaf

def readInternal (id : PageId) : TreeOp InternalPage := readPage id IndexPage.toInternal

def fetchLeaf (id : PageId) : TreeOp LeafPage := readPage id IndexPage.asLeaf

def fetchInternal (id : PageId) : TreeOp InternalPage := readPage id IndexPage.asInternal

def assignLeaf (id : PageId) (entries : List Entry) : TreeOp LeafPage :=
  writePage id fun page => do (← page.asLeaf).assign entries

def assignLeafNext (id : PageId) (entries : List Entry) (nextPageId : PageId) : TreeOp LeafPage :=
  writePage id fun page => do
    let leaf ← (← page.asLeaf).assign entries
    return { leaf with nextPageId := nextPageId }

def assignInternal (id : PageId) (entries : List (Key × PageId)) : TreeOp InternalPage :=
  writePage id fun page => do (← page.asInternal).assign entries

/-- The header page with another root. -/
def withRoot (root : PageId) : IndexPage → Result IndexPage
  | .header page => .ok (.header { page with root := root })
  | _ => fail .internalError "B+树元数据页损坏，无法更新根页面编号"

def persistRootPageId : TreeOp Unit := do
  let tree ← getObject
  if tree.headerPageId = invalidPageId then return ()
  else
    let _ ← writePage tree.headerPageId (withRoot tree.rootPageId)
    return ()

def setRoot (id : PageId) : TreeOp Unit := modifyObject fun tree => { tree with rootPageId := id }

def withParent (parent : PageId) (page : IndexPage) : Result IndexPage :=
  match page.toLeaf with
  | .ok leaf => .ok (.leaf { leaf with parentPageId := parent })
  | .error _ => match page.toInternal with
    | .ok internal => .ok (.internal { internal with parentPageId := parent })
    | .error e => .error e

def setParent (child parent : PageId) : TreeOp Unit := do
  let _ ← writePage child (withParent parent)
  return ()

def setParents (parent : PageId) : List PageId → TreeOp Unit
  | [] => return ()
  | child::rest => do
    setParent child parent
    setParents parent rest

/-! ### Search -/

/-- The loop of `FindLeaf` from a page whose guard is held; `coupling` is
`latch_coupling`. -/
def findLeafFrom (txn coupling : Bool) (key : Key) :
    ℕ → PageId → IndexPage → List PageId → TreeOp (PageId × List PageId)
  | 0, _, _, _ => failWith .internalError "B+树内部页包含无效子指针"
  | fuel+1, current, page, path =>
    match page.toLeaf with
    | .ok _ => return (current,path)
    | .error _ => do
      let internal ← ofResult page.toInternal
      let child := lookup key internal.entries
      if child = invalidPageId then failWith .internalError "B+树内部页包含无效子指针"
      else if !txn && coupling then
        let childPage ← fetchPage false child
        let _ ← attempt (release current)
        findLeafFrom txn coupling key fuel child childPage (current::path)
      else
        let _ ← attempt (release current)
        fetchPage txn child >>= fun childPage =>
          findLeafFrom txn coupling key fuel child childPage (current::path)

def findLeaf (txn coupling : Bool) (key : Key) : TreeOp (PageId × List PageId) := do
  let tree ← getObject
  if tree.rootPageId = invalidPageId then failWith .notFound "B+树为空"
  else block (fetchPage txn tree.rootPageId >>= fun page =>
    findLeafFrom txn coupling key pageTurns tree.rootPageId page [])

/-- The loop of `RangeScan` from a leaf whose guard is held. -/
def scanFrom (txn : Bool) (lower upper : Key) :
    ℕ → PageId → IndexPage → List Entry → TreeOp (List Entry)
  | 0, _, _, _ => failWith .internalError "B+树内部页包含无效子指针"
  | fuel+1, current, page, result => do
    let leaf ← ofResult page.toLeaf
    match collect lower upper leaf.entries result with
    | (result,true) => return sortEntries result
    | (result,false) =>
      if leaf.nextPageId = invalidPageId then return sortEntries result
      else if !txn then
        let nextPage ← fetchPage false leaf.nextPageId
        let _ ← attempt (release current)
        scanFrom txn lower upper fuel leaf.nextPageId nextPage result
      else
        let _ ← attempt (release current)
        fetchPage txn leaf.nextPageId >>= fun nextPage =>
          scanFrom txn lower upper fuel leaf.nextPageId nextPage result

def rangeScan (txn : Bool) (lower upper : Key) : TreeOp (List Entry) := do
  if upper < lower then failWith .invalidArgument "B+树范围查询下界不能大于上界"
  else
    let tree ← getObject
    if tree.rootPageId = invalidPageId then return []
    else
      let (leaf,_) ← findLeaf txn true lower
      block (fetchPage txn leaf >>= fun page => scanFrom txn lower upper pageTurns leaf page [])

def getValue (txn : Bool) (key : Key) : TreeOp (List RID) := do
  let range ← rangeScan txn key key
  return range.map Prod.snd

/-! ### Insertion -/

/-- The part of `InsertIntoLeaf` for a full leaf, whose guard stays held. -/
def splitLeaf (leafPageId : PageId) (oldLeaf : LeafPage) (key : Key) (rid : RID) :
    TreeOp SplitResult := do
  let entries := insertEntry oldLeaf.entries (key,rid)
  let newPageId ← newPage true
  let newLeaf ← ofResult
    (LeafPage.initializePage oldLeaf.maxSize oldLeaf.parentPageId oldLeaf.nextPageId)
  let splitAt := entries.length / 2
  let _ ← ofResult (oldLeaf.assign (entries.take splitAt))
  let _ ← ofResult (newLeaf.assign (entries.drop splitAt))
  let first ← attempt (release leafPageId)
  let second ← attempt (release newPageId)
  ofResult first
  ofResult second
  return ⟨firstKey (entries.drop splitAt),newPageId⟩

def insertIntoLeaf (leafPageId : PageId) (key : Key) (rid : RID) : TreeOp SplitResult :=
  block (fetchPageWrite true leafPageId >>= fun page => do
    let oldLeaf ← ofResult page.toLeaf
    if (fromBound oldLeaf.entries (key,rid)).head? = some (key,rid) then
      failWith .alreadyExists "B+树中已存在相同的Key/RID"
    else if oldLeaf.entries.length < oldLeaf.maxSize then
      let _ ← ofResult (oldLeaf.insert key rid)
      release leafPageId
      return .none
    else splitLeaf leafPageId oldLeaf key rid)

/-- The part of `InsertIntoInternal` for a full page, whose guard stays held: the promoted
key, the new page and the children that have moved. -/
def splitInternal (pageId : PageId) (oldPage : InternalPage) (entries : List (Key × PageId)) :
    TreeOp (Key × PageId × List PageId) := do
  let newPageId ← newPage true
  let page ← ofResult (InternalPage.initializePage oldPage.maxSize oldPage.parentPageId)
  let splitAt := entries.length / 2
  let rightEntries := setFirstKey 0 (entries.drop splitAt)
  let _ ← ofResult (oldPage.assign (entries.take splitAt))
  let _ ← ofResult (page.assign rightEntries)
  let first ← attempt (release pageId)
  let second ← attempt (release newPageId)
  ofResult first
  ofResult second
  return (firstKey (entries.drop splitAt),newPageId,rightEntries.map Prod.snd)

def insertIntoInternal (pageId leftChild : PageId) (separator : Key) (rightChild : PageId) :
    TreeOp (Option SplitResult) := do
  let split ← block (fetchPageWrite true pageId >>= fun page => do
    let oldPage ← ofResult page.toInternal
    match insertAfter leftChild (separator,rightChild) oldPage.entries with
    | none => failWith .internalError "B+树父页未包含待分裂的子页"
    | some entries =>
      if entries.length ≤ oldPage.maxSize then
        let _ ← ofResult (oldPage.assign entries)
        release pageId
        return none
      else
        let split ← splitInternal pageId oldPage entries
        return some split)
  match split with
  | none =>
    setParent rightChild pageId
    return none
  | some (promoted,newPageId,moved) =>
    setParents newPageId moved
    return some ⟨promoted,newPageId⟩

def createNewRoot (leftChild : PageId) (separator : Key) (rightChild : PageId) : TreeOp Unit := do
  let tree ← getObject
  let newRootId ← block (newPage true >>= fun id => do
    let root ← ofResult (InternalPage.initializePage tree.internalMaxSize invalidPageId)
    let _ ← ofResult (root.assign [(0,leftChild),(separator,rightChild)])
    release id
    return id)
  setParent leftChild newRootId
  setParent rightChild newRootId
  setRoot newRootId
  persistRootPageId

/-- The loop of `Insert` up the path while pages split. -/
def insertUp : List PageId → PageId → SplitResult → TreeOp Unit
  | [], leftPageId, split => createNewRoot leftPageId split.separator split.rightPageId
  | parentPageId::path, leftPageId, split => do
    match ← insertIntoInternal parentPageId leftPageId split.separator split.rightPageId with
    | none => return ()
    | some split => insertUp path parentPageId split

def insertAt (leafPageId : PageId) (path : List PageId) (key : Key) (rid : RID) : TreeOp Unit := do
  let split ← insertIntoLeaf leafPageId key rid
  if split.rightPageId = invalidPageId then return ()
  else insertUp path leafPageId split

/-- The first entry of an empty tree goes to a new root leaf. -/
def startTree (key : Key) (rid : RID) : TreeOp Unit := do
  let tree ← getObject
  block (newPage true >>= fun id => do
    let leaf ← ofResult (LeafPage.initializePage tree.leafMaxSize invalidPageId invalidPageId)
    let _ ← ofResult (leaf.insert key rid)
    setRoot id
    release id)
  persistRootPageId

def Tree.badSizes (tree : Tree) : Bool :=
  tree.leafMaxSize < 2 || kPhysicalMaxSize < tree.leafMaxSize || tree.internalMaxSize < 3 ||
    kPhysicalMaxSize < tree.internalMaxSize

def insert (key : Key) (rid : RID) : TreeOp Unit := do
  let tree ← getObject
  if tree.badSizes then failWith .invalidArgument "B+树节点容量配置非法"
  else if tree.rootPageId = invalidPageId then startTree key rid
  else
    let (leaf,path) ← findLeaf false false key
    insertAt leaf path key rid

/-! ### Removal -/

/-- One turn of the loop of `PropagateMinimumChange` at the parent: whether it ends there. -/
def changeMinimum (newMinimum : Key) (current parentId : PageId) : TreeOp Bool :=
  block (fetchPageWrite true parentId >>= fun page => do
    let parent ← ofResult page.asInternal
    match childIndex current parent.entries with
    | none => failWith .internalError "B+树父页缺少子页面"
    | some index =>
      if index ≠ 0 then
        let _ ← ofResult (parent.assign (setKeyAt parent.entries index newMinimum))
        release parentId
        return true
      else return false)

def propagateMinimumChange (newMinimum : Key) : ℕ → PageId → TreeOp Unit
  | 0, _ => failWith .internalError "B+树父页缺少子页面"
  | fuel+1, current => do
    let parentId ← readPage current IndexPage.parent
    if parentId = invalidPageId then return ()
    else if ← changeMinimum newMinimum current parentId then return ()
    else propagateMinimumChange newMinimum fuel parentId

/-- What `SubtreeMinimum` finds in a page: the least key, or the child to go on with. -/
def minimumOrChild (page : IndexPage) : Result (Key ⊕ PageId) :=
  match page.toLeaf with
  | .ok leaf =>
    if leaf.entries = [] then fail .internalError "B+树非根叶子页为空"
    else .ok (.inl (firstKey leaf.entries))
  | .error _ => match page.toInternal with
    | .ok internal => .ok (.inr (childAt internal.entries 0))
    | .error e => .error e

def subtreeMinimum : ℕ → PageId → TreeOp Key
  | 0, _ => failWith .internalError "B+树子树包含无效页面"
  | fuel+1, current => do
    if current = invalidPageId then failWith .internalError "B+树子树包含无效页面"
    else
      match ← readPage current minimumOrChild with
      | .inl key => return key
      | .inr child => subtreeMinimum fuel child

/-- Whether a sibling is there and holds more than the minimum. -/
def internalCanLend (id : PageId) (minimum : ℕ) : TreeOp Bool := do
  if id = invalidPageId then return false
  else return minimum < (← fetchInternal id).entries.length

def leafCanLend (id : PageId) (minimum : ℕ) : TreeOp Bool := do
  if id = invalidPageId then return false
  else return minimum < (← fetchLeaf id).entries.length

/-- The ways in which a page and its siblings can be brought back to size. -/
structure Remedies where
  canLend : PageId → TreeOp Bool
  borrowLeft : TreeOp Unit
  borrowRight : TreeOp Unit
  mergeRight : TreeOp Unit
  mergeLeft : TreeOp Unit
  noSibling : Failure

/-- The order in which both rebalancing functions try them; after a merge, `up` goes on
with the parent. -/
def withSiblings (place : Place) (remedies : Remedies) (up : TreeOp Unit) : TreeOp Unit := do
  if ← remedies.canLend place.leftId then remedies.borrowLeft
  else if ← remedies.canLend place.rightId then remedies.borrowRight
  else if place.leftId = invalidPageId then
    if place.rightId = invalidPageId then ofResult (.error remedies.noSibling)
    else
      remedies.mergeRight
      up
  else
    remedies.mergeLeft
    up

def borrowInternalLeft (place : Place) (entries : List (Key × PageId)) : TreeOp Unit := do
  let left ← fetchInternal place.leftId
  match left.entries.getLast? with
  | none => failWith .internalError "B+树内部页没有可合并的兄弟"
  | some borrowed =>
    let entries := (0,borrowed.2) :: setFirstKey (keyAt place.parentEntries place.index) entries
    let minimum ← subtreeMinimum pageTurns borrowed.2
    let _ ← assignInternal place.leftId left.entries.dropLast
    let _ ← assignInternal place.pageId entries
    let _ ← assignInternal place.parentId (setKeyAt place.parentEntries place.index minimum)
    setParent borrowed.2 place.pageId

def borrowInternalRight (place : Place) (entries : List (Key × PageId)) : TreeOp Unit := do
  let right ← fetchInternal place.rightId
  match right.entries with
  | [] => failWith .internalError "B+树内部页没有可合并的兄弟"
  | borrowed::rest =>
    let entries := entries ++ [(keyAt place.parentEntries (place.index+1),borrowed.2)]
    let newMinimum ← subtreeMinimum pageTurns (childAt rest 0)
    let _ ← assignInternal place.pageId entries
    let _ ← assignInternal place.rightId (setFirstKey 0 rest)
    let _ ← assignInternal place.parentId (setKeyAt place.parentEntries (place.index+1) newMinimum)
    setParent borrowed.2 place.pageId

def mergeInternalRight (place : Place) (entries : List (Key × PageId)) : TreeOp Unit := do
  let right ← fetchInternal place.rightId
  let rightEntries := setFirstKey (keyAt place.parentEntries (place.index+1)) right.entries
  let _ ← assignInternal place.pageId (entries ++ rightEntries)
  let _ ← assignInternal place.parentId (place.parentEntries.eraseIdx (place.index+1))
  deletePage true place.rightId
  setParents place.pageId (rightEntries.map Prod.snd)

def mergeInternalLeft (place : Place) (entries : List (Key × PageId)) : TreeOp Unit := do
  let left ← fetchInternal place.leftId
  let entries := setFirstKey (keyAt place.parentEntries place.index) entries
  let _ ← assignInternal place.leftId (left.entries ++ entries)
  let _ ← assignInternal place.parentId (place.parentEntries.eraseIdx place.index)
  deletePage true place.pageId
  setParents place.leftId (entries.map Prod.snd)

/-- The only child of an internal root becomes the root. -/
def collapseRoot (pageId : PageId) (entries : List (Key × PageId)) : TreeOp Unit := do
  match entries with
  | [] => failWith .internalError "B+树根内部页没有子页面"
  | (_,newRoot)::_ =>
    setParent newRoot invalidPageId
    setRoot newRoot
    persistRootPageId
    deletePage true pageId

def rebalanceInternal : ℕ → PageId → TreeOp Unit
  | 0, _ => failWith .internalError "B+树父页缺少内部页面"
  | fuel+1, pageId => do
    let page ← readInternal pageId
    let minimumSize := (page.maxSize + 1) / 2
    if pageId = (← getObject).rootPageId then
      if 2 ≤ page.entries.length then return () else collapseRoot pageId page.entries
    else if minimumSize ≤ page.entries.length then return ()
    else
      let parent ← fetchInternal page.parentPageId
      match childIndex pageId parent.entries with
      | none => failWith .internalError "B+树父页缺少内部页面"
      | some index =>
        let place : Place := ⟨pageId,page.parentPageId,parent.entries,index⟩
        withSiblings place
          { canLend := (internalCanLend · minimumSize)
            borrowLeft := borrowInternalLeft place page.entries
            borrowRight := borrowInternalRight place page.entries
            mergeRight := mergeInternalRight place page.entries
            mergeLeft := mergeInternalLeft place page.entries
            noSibling := ⟨.internalError,"B+树内部页没有可合并的兄弟"⟩ }
          (rebalanceInternal fuel page.parentPageId)

def borrowLeafLeft (place : Place) (entries : List Entry) : TreeOp Unit := do
  let left ← fetchLeaf place.leftId
  match left.entries.getLast? with
  | none => failWith .internalError "B+树叶子页没有可合并的兄弟"
  | some borrowed =>
    let entries := sortEntries (borrowed::entries)
    let _ ← assignLeaf place.leftId left.entries.dropLast
    let _ ← assignLeaf place.pageId entries
    let _ ← assignInternal place.parentId
      (setKeyAt place.parentEntries place.index (firstKey entries))
    return ()

def borrowLeafRight (place : Place) (entries : List Entry) : TreeOp Unit := do
  let right ← fetchLeaf place.rightId
  match right.entries with
  | [] => failWith .internalError "B+树叶子页没有可合并的兄弟"
  | borrowed::rest =>
    let _ ← assignLeaf place.pageId (sortEntries (entries ++ [borrowed]))
    let _ ← assignLeaf place.rightId rest
    let _ ← assignInternal place.parentId
      (setKeyAt place.parentEntries (place.index+1) (firstKey rest))
    return ()

def mergeLeafRight (place : Place) (entries : List Entry) : TreeOp Unit := do
  let right ← fetchLeaf place.rightId
  let _ ← assignLeafNext place.pageId (sortEntries (entries ++ right.entries)) right.nextPageId
  let _ ← assignInternal place.parentId (place.parentEntries.eraseIdx (place.index+1))
  deletePage true place.rightId

def mergeLeafLeft (place : Place) (entries : List Entry) (nextPageId : PageId) : TreeOp Unit := do
  let left ← fetchLeaf place.leftId
  let _ ← assignLeafNext place.leftId (sortEntries (left.entries ++ entries)) nextPageId
  let _ ← assignInternal place.parentId (place.parentEntries.eraseIdx place.index)
  deletePage true place.pageId

def rebalanceLeaf (fuel : ℕ) (leafPageId : PageId) : TreeOp Unit := do
  let leaf ← readLeaf leafPageId
  let minimumSize := (leaf.maxSize + 1) / 2
  let parent ← fetchInternal leaf.parentPageId
  match childIndex leafPageId parent.entries with
  | none => failWith .internalError "B+树父页缺少叶子页面"
  | some index =>
    let place : Place := ⟨leafPageId,leaf.parentPageId,parent.entries,index⟩
    withSiblings place
      { canLend := (leafCanLend · minimumSize)
        borrowLeft := borrowLeafLeft place leaf.entries
        borrowRight := borrowLeafRight place leaf.entries
        mergeRight := mergeLeafRight place leaf.entries
        mergeLeft := mergeLeafLeft place leaf.entries leaf.nextPageId
        noSibling := ⟨.internalError,"B+树叶子页没有可合并的兄弟"⟩ }
      (rebalanceInternal fuel leaf.parentPageId)

/-- The walk of `Remove` along the leaves to the one that has the pair. -/
def findPair (key : Key) (rid : RID) : ℕ → PageId → TreeOp (Option PageId)
  | 0, _ => failWith .internalError "B+树内部页包含无效子指针"
  | fuel+1, current => do
    if current = invalidPageId then return none
    else
      let leaf ← readLeaf current
      if (key,rid) ∈ leaf.entries then return some current
      else if leaf.entries.getLast?.any (key < ·.1) then return none
      else findPair key rid fuel leaf.nextPageId

/-- What `Remove` does about the size of the leaf it has taken the entry from. -/
def settleLeaf (target : PageId) (entries : List Entry) (maxSize : ℕ) (minimumChanged : Bool) :
    TreeOp Unit := do
  if target = (← getObject).rootPageId then
    if entries ≠ [] then return ()
    else
      setRoot invalidPageId
      persistRootPageId
      deletePage true target
  else if (maxSize + 1) / 2 ≤ entries.length then
    if minimumChanged then propagateMinimumChange (firstKey entries) pageTurns target
    else return ()
  else rebalanceLeaf pageTurns target

/-- The leaf without the pair, as `Remove` writes it. -/
def withoutPair (key : Key) (rid : RID) (page : IndexPage) : Result (LeafPage × LeafPage) := do
  let leaf ← page.asLeaf
  if (key,rid) ∉ leaf.entries then fail .notFound "B+树未找到指定的Key/RID"
  else return (leaf,← leaf.assign (leaf.entries.erase (key,rid)))

def removeFrom (target : PageId) (key : Key) (rid : RID) : TreeOp Unit := do
  let (old,leaf) ← writePage target (withoutPair key rid)
  settleLeaf target leaf.entries leaf.maxSize (old.entries.head? = some (key,rid))

def remove (key : Key) (rid : RID) : TreeOp Unit := do
  let tree ← getObject
  if tree.rootPageId = invalidPageId then failWith .notFound "B+树为空"
  else
    let (leaf,_) ← findLeaf false false key
    match ← findPair key rid pageTurns leaf with
    | none => failWith .notFound "B+树未找到指定的Key/RID"
    | some target => removeFrom target key rid

/-! ### Creation and destruction -/

/-- `CreatePersistent`; the tree it makes is the object afterwards. -/
def createPersistent (leafMaxSize internalMaxSize : ℕ) : TreeOp Unit :=
  if (Tree.mk invalidPageId invalidPageId leafMaxSize internalMaxSize).badSizes then
    failWith .invalidArgument "B+树节点容量配置非法"
  else do
    let header ← block (newPage true >>= fun id => do
      release id
      return id)
    modifyObject fun _ => ⟨invalidPageId,header,leafMaxSize,internalMaxSize⟩

def opened (header : PageId) : IndexPage → Result Tree
  | .header page =>
    if (Tree.mk page.root header page.leafMax page.internalMax).badSizes then
      fail .internalError "B+树元数据页中的节点容量无效"
    else .ok ⟨page.root,header,page.leafMax,page.internalMax⟩
  | _ => fail .internalError "B+树元数据页类型或版本无效"

def openPersistent (header : PageId) : TreeOp Unit :=
  if header = invalidPageId then
    failWith .invalidArgument "打开持久化B+树需要有效的缓冲池和元数据页编号"
  else do
    let tree ← readPage header (opened header)
    modifyObject fun _ => tree

def childrenOf (page : IndexPage) : Result (List PageId) :=
  match page.toLeaf with
  | .ok _ => .ok []
  | .error _ => match page.toInternal with
    | .ok internal => .ok (internal.entries.map Prod.snd)
    | .error e => .error e

/-- The first loop of `Destroy`; the stack has its top in front. -/
def collectPages : ℕ → List PageId → List PageId → TreeOp (List PageId)
  | _, [], pages => return pages
  | 0, _::_, _ => failWith .internalError "B+树子树包含无效页面"
  | fuel+1, id::pending, pages => do
    let children ← readPage id childrenOf
    collectPages fuel (children.reverse ++ pending) (id::pages)

def deletePages : List PageId → TreeOp Unit
  | [] => return ()
  | id::pages => do
    deletePage true id
    deletePages pages

/-- `Destroy`, where the first loop makes no more than `fuel` turns. -/
def destroy (fuel : ℕ) : TreeOp Unit := do
  let tree ← getObject
  let pending := if tree.rootPageId = invalidPageId then [] else [tree.rootPageId]
  let pages ← collectPages fuel pending []
  setRoot invalidPageId
  deletePages pages
  if tree.headerPageId = invalidPageId then return ()
  else
    modifyObject fun tree => { tree with headerPageId := invalidPageId }
    deletePage true tree.headerPageId

/-! ### Lock requests of the operations -/

section requests

variable {α : Type} {w : World IndexPage} {key lower upper : Key} {rid : RID} {fuel : ℕ}
  {id current parent : PageId} {page : IndexPage} {place : Place}

abbrev Calm (w : World IndexPage) (m : TreeOp α) : Prop := Quiet w (fun _ => True) m

theorem calm_pure {a : α} : Calm w (pure a : TreeOp α) := Quiet.pure trivial

theorem calm_fail {code : ErrorCode} {message : String} :
    Calm w (failWith code message : TreeOp α) := Quiet.fail

theorem calm_bind {β : Type} {m : TreeOp α} {f : α → TreeOp β} (hm : Calm w m)
    (hf : ∀ a, Calm w (f a)) : Calm w (m >>= f) := Quiet.bind hm fun a _ => hf a

theorem still_ofResult {r : Result α} : Still w (fun _ => True) (ofResult r : TreeOp α) :=
  Still.ofResult fun _ _ => trivial

theorem still_bind {β : Type} {m : TreeOp α} {f : α → TreeOp β} (hm : Still w (fun _ => True) m)
    (hf : ∀ a, Still w (fun _ => True) (f a)) : Still w (fun _ => True) (m >>= f) :=
  Still.bind hm fun a _ => hf a

theorem calm_readPage {f : IndexPage → Result α} : Calm w (readPage id f) :=
  Quiet.read fun _ _ _ => still_ofResult

theorem calm_writePage {f : IndexPage → Result α} : Calm w (writePage id f) := by
  refine Quiet.write fun page _ _ => still_bind still_ofResult fun a => ?_
  exact still_bind Still.release fun _ => Still.pure trivial

theorem calm_persistRootPageId : Calm w persistRootPageId := by
  refine calm_bind Quiet.getObject fun tree => ?_
  split
  · exact calm_pure
  · exact calm_bind calm_writePage fun _ => calm_pure

theorem calm_setParent : Calm w (setParent id parent) :=
  calm_bind calm_writePage fun _ => calm_pure

theorem calm_setParents (children : List PageId) : Calm w (setParents parent children) := by
  induction children with
  | nil => exact calm_pure
  | cons child rest ih => exact calm_bind calm_setParent fun _ => ih

theorem still_findLeafFrom {coupling : Bool} {path : List PageId} :
    Still w (fun _ => True) (findLeafFrom false coupling key fuel current page path) := by
  induction fuel generalizing current page path with
  | zero => exact Still.fail
  | succ fuel ih =>
    unfold findLeafFrom
    split
    · exact Still.pure trivial
    refine still_bind still_ofResult fun internal => ?_
    dsimp only
    split
    · exact Still.fail
    split
    · refine Still.bind Still.fetchPage fun childPage _ => ?_
      exact still_bind Still.release.attempt fun _ => ih
    · refine still_bind Still.release.attempt fun _ => ?_
      exact Still.bind Still.fetchPage fun childPage _ => ih

/-- In a transaction the parent's guard is given back before the child's lock is asked
for. -/
theorem under_findLeafFrom {coupling : Bool} {path : List PageId} :
    Under w current (fun _ => True) (findLeafFrom true coupling key fuel current page path) := by
  induction fuel generalizing current page path with
  | zero => exact Still.fail.under
  | succ fuel ih =>
    unfold findLeafFrom
    split
    · exact (Still.pure trivial).under
    refine Under.ofResult_bind fun internal _ => ?_
    dsimp only
    split
    · exact Still.fail.under
    rw [if_neg (by simp)]
    exact (Under.fetchAs fun childPage _ _ => ih).handover

theorem calm_findLeaf {txn coupling : Bool} : Calm w (findLeaf txn coupling key) := by
  refine calm_bind Quiet.getObject fun tree => ?_
  split
  · exact calm_fail
  · cases txn with
    | false => exact Quiet.read fun _ _ _ => still_findLeafFrom
    | true => exact (Under.fetchAs fun page _ _ => under_findLeafFrom).block

theorem still_scanFrom {result : List Entry} :
    Still w (fun _ => True) (scanFrom false lower upper fuel current page result) := by
  induction fuel generalizing current page result with
  | zero => exact Still.fail
  | succ fuel ih =>
    unfold scanFrom
    refine still_bind still_ofResult fun leaf => ?_
    split
    · exact Still.pure trivial
    split
    · exact Still.pure trivial
    rw [if_pos (by simp)]
    refine Still.bind Still.fetchPage fun nextPage _ => ?_
    exact still_bind Still.release.attempt fun _ => ih

theorem under_scanFrom {result : List Entry} :
    Under w current (fun _ => True) (scanFrom true lower upper fuel current page result) := by
  induction fuel generalizing current page result with
  | zero => exact Still.fail.under
  | succ fuel ih =>
    unfold scanFrom
    refine Under.ofResult_bind fun leaf _ => ?_
    split
    · exact (Still.pure trivial).under
    split
    · exact (Still.pure trivial).under
    rw [if_neg (by simp)]
    exact (Under.fetchAs fun nextPage _ _ => ih).handover

theorem calm_rangeScan {txn : Bool} : Calm w (rangeScan txn lower upper) := by
  unfold rangeScan
  split
  · exact calm_fail
  refine calm_bind Quiet.getObject fun tree => ?_
  split
  · exact calm_pure
  refine calm_bind calm_findLeaf fun found => ?_
  cases txn with
  | false => exact Quiet.read fun _ _ _ => still_scanFrom
  | true => exact (Under.fetchAs fun page _ _ => under_scanFrom).block

theorem calm_getValue {txn : Bool} : Calm w (getValue txn key) :=
  calm_bind calm_rangeScan fun _ => calm_pure

/-! An insertion asks for the lock of a new page under the guard of a full leaf. Nothing
else does. -/

/-- The page that call `n` reads is no full leaf without the pair. -/
def LeafTakes (w : World IndexPage) (n : ℕ) (id : PageId) (key : Key) (rid : RID) : Prop :=
  ∀ page leaf, w.page n id = .ok page → page.toLeaf = .ok leaf →
    (fromBound leaf.entries (key,rid)).head? = some (key,rid) ∨ leaf.entries.length < leaf.maxSize

theorem insertIntoLeaf_idle {s : Thread Tree} (hs : s.Idle)
    (h : LeafTakes w (s.calls + 1) id key rid) : (insertIntoLeaf id key rid w s).2.Idle ∧
      ∀ split, (insertIntoLeaf id key rid w s).1 = .ok split →
        split.rightPageId = invalidPageId := by
  refine hs.write fun page hn => ?_
  refine Still.bind (Still.ofResult fun leaf hleaf => hleaf) fun leaf hleaf => ?_
  split
  · exact Still.fail
  rename_i hnew
  rw [if_pos ((h page leaf hn hleaf).resolve_left hnew)]
  refine Still.bind still_ofResult fun _ _ => ?_
  exact Still.bind Still.release fun _ _ => Still.pure rfl

theorem insertAt_idle {path : List PageId} {s : Thread Tree} (hs : s.Idle)
    (h : LeafTakes w (s.calls + 1) id key rid) : (insertAt id path key rid w s).2.Idle := by
  obtain ⟨hidle,hsplit⟩ := insertIntoLeaf_idle hs h
  unfold insertAt
  cases hx : insertIntoLeaf id key rid w s with
  | mk r t =>
    rw [hx] at hidle hsplit
    cases r with
    | error e =>
      rw [bind_error hx]
      exact hidle
    | ok split =>
      rw [bind_ok hx,if_pos (hsplit split rfl)]
      exact hidle

theorem calm_startTree : Calm w (startTree key rid) := by
  refine calm_bind Quiet.getObject fun tree => ?_
  refine calm_bind (Quiet.create fun id => ?_) fun _ => calm_persistRootPageId
  refine still_bind still_ofResult fun leaf => ?_
  refine still_bind still_ofResult fun _ => ?_
  exact still_bind (fun s => ⟨rfl,fun _ _ => trivial⟩) fun _ => Still.release

/-- The leaf that `FindLeaf` comes to takes the pair or has it. -/
def InsertFits (w : World IndexPage) (s : Thread Tree) (key : Key) (rid : RID) : Prop :=
  ∀ leaf path t, findLeaf false false key w s = (.ok (leaf,path),t) →
    LeafTakes w (t.calls + 1) leaf key rid

theorem insert_idle {s : Thread Tree} (hs : s.Idle) (h : InsertFits w s key rid) :
    (insert key rid w s).2.Idle := by
  have hget : (getObject : TreeOp Tree) w s = (.ok s.object,s) := rfl
  unfold insert
  rw [bind_ok hget]
  split
  · exact hs
  split
  · exact (calm_startTree s hs).1
  have hfind := (@calm_findLeaf w key false false s hs).1
  cases hx : findLeaf false false key w s with
  | mk r t =>
    rw [hx] at hfind
    cases r with
    | error e =>
      rw [bind_error hx]
      exact hfind
    | ok found =>
      rw [bind_ok hx]
      exact insertAt_idle hfind (h _ _ _ hx)

/-! Removal keeps to blocks of one page. -/

theorem calm_changeMinimum : Calm w (changeMinimum key current parent) := by
  refine Quiet.write fun page _ _ => still_bind still_ofResult fun internal => ?_
  split
  · exact Still.fail
  split
  · refine still_bind still_ofResult fun _ => ?_
    exact still_bind Still.release fun _ => Still.pure trivial
  · exact Still.pure trivial

theorem calm_propagateMinimumChange : Calm w (propagateMinimumChange key fuel current) := by
  induction fuel generalizing current with
  | zero => exact calm_fail
  | succ fuel ih =>
    refine calm_bind calm_readPage fun parentId => ?_
    split
    · exact calm_pure
    refine calm_bind calm_changeMinimum fun done => ?_
    split
    · exact calm_pure
    · exact ih

theorem calm_subtreeMinimum : Calm w (subtreeMinimum fuel current) := by
  induction fuel generalizing current with
  | zero => exact calm_fail
  | succ fuel ih =>
    unfold subtreeMinimum
    split
    · exact calm_fail
    refine calm_bind calm_readPage fun found => ?_
    split
    · exact calm_pure
    · exact ih

structure Remedies.Calm (w : World IndexPage) (remedies : Remedies) : Prop where
  canLend : ∀ id, Latch.Calm w (remedies.canLend id)
  borrowLeft : Latch.Calm w remedies.borrowLeft
  borrowRight : Latch.Calm w remedies.borrowRight
  mergeRight : Latch.Calm w remedies.mergeRight
  mergeLeft : Latch.Calm w remedies.mergeLeft

theorem calm_withSiblings {remedies : Remedies} {up : TreeOp Unit} (h : remedies.Calm w)
    (hup : Calm w up) : Calm w (withSiblings place remedies up) := by
  refine calm_bind (h.canLend _) fun left => ?_
  split
  · exact h.borrowLeft
  refine calm_bind (h.canLend _) fun right => ?_
  split
  · exact h.borrowRight
  split
  · split
    · exact Quiet.ofResult fun _ _ => trivial
    · exact calm_bind h.mergeRight fun _ => hup
  · exact calm_bind h.mergeLeft fun _ => hup

section internal

variable {entries : List (Key × PageId)} {minimum : ℕ}

theorem calm_internalCanLend : Calm w (internalCanLend id minimum) := by
  unfold internalCanLend
  split
  · exact calm_pure
  · exact calm_bind calm_readPage fun _ => calm_pure

theorem calm_borrowInternalLeft : Calm w (borrowInternalLeft place entries) := by
  refine calm_bind calm_readPage fun left => ?_
  split
  · exact calm_fail
  refine calm_bind calm_subtreeMinimum fun _ => ?_
  refine calm_bind calm_writePage fun _ => calm_bind calm_writePage fun _ => ?_
  exact calm_bind calm_writePage fun _ => calm_setParent

theorem calm_borrowInternalRight : Calm w (borrowInternalRight place entries) := by
  refine calm_bind calm_readPage fun right => ?_
  split
  · exact calm_fail
  refine calm_bind calm_subtreeMinimum fun _ => ?_
  refine calm_bind calm_writePage fun _ => calm_bind calm_writePage fun _ => ?_
  exact calm_bind calm_writePage fun _ => calm_setParent

theorem calm_mergeInternalRight : Calm w (mergeInternalRight place entries) := by
  refine calm_bind calm_readPage fun right => ?_
  refine calm_bind calm_writePage fun _ => calm_bind calm_writePage fun _ => ?_
  exact calm_bind Quiet.deletePage fun _ => calm_setParents _

theorem calm_mergeInternalLeft : Calm w (mergeInternalLeft place entries) := by
  refine calm_bind calm_readPage fun left => ?_
  refine calm_bind calm_writePage fun _ => calm_bind calm_writePage fun _ => ?_
  exact calm_bind Quiet.deletePage fun _ => calm_setParents _

theorem calm_collapseRoot : Calm w (collapseRoot id entries) := by
  unfold collapseRoot
  split
  · exact calm_fail
  refine calm_bind calm_setParent fun _ => calm_bind Quiet.modifyObject fun _ => ?_
  exact calm_bind calm_persistRootPageId fun _ => Quiet.deletePage

theorem calm_rebalanceInternal : Calm w (rebalanceInternal fuel id) := by
  induction fuel generalizing id with
  | zero => exact calm_fail
  | succ fuel ih =>
    refine calm_bind calm_readPage fun page => calm_bind Quiet.getObject fun tree => ?_
    split
    · split
      · exact calm_pure
      · exact calm_collapseRoot
    split
    · exact calm_pure
    refine calm_bind calm_readPage fun parent => ?_
    split
    · exact calm_fail
    · exact calm_withSiblings ⟨fun _ => calm_internalCanLend,calm_borrowInternalLeft,
        calm_borrowInternalRight,calm_mergeInternalRight,calm_mergeInternalLeft⟩ ih

end internal

section leaf

variable {entries : List Entry} {minimum : ℕ}

theorem calm_leafCanLend : Calm w (leafCanLend id minimum) := by
  unfold leafCanLend
  split
  · exact calm_pure
  · exact calm_bind calm_readPage fun _ => calm_pure

theorem calm_borrowLeafLeft : Calm w (borrowLeafLeft place entries) := by
  refine calm_bind calm_readPage fun left => ?_
  split
  · exact calm_fail
  refine calm_bind calm_writePage fun _ => calm_bind calm_writePage fun _ => ?_
  exact calm_bind calm_writePage fun _ => calm_pure

theorem calm_borrowLeafRight : Calm w (borrowLeafRight place entries) := by
  refine calm_bind calm_readPage fun right => ?_
  split
  · exact calm_fail
  refine calm_bind calm_writePage fun _ => calm_bind calm_writePage fun _ => ?_
  exact calm_bind calm_writePage fun _ => calm_pure

theorem calm_mergeLeafRight : Calm w (mergeLeafRight place entries) := by
  refine calm_bind calm_readPage fun right => ?_
  refine calm_bind calm_writePage fun _ => calm_bind calm_writePage fun _ => ?_
  exact Quiet.deletePage

theorem calm_mergeLeafLeft : Calm w (mergeLeafLeft place entries id) := by
  refine calm_bind calm_readPage fun left => ?_
  refine calm_bind calm_writePage fun _ => calm_bind calm_writePage fun _ => ?_
  exact Quiet.deletePage

theorem calm_rebalanceLeaf : Calm w (rebalanceLeaf fuel id) := by
  refine calm_bind calm_readPage fun leaf => calm_bind calm_readPage fun parent => ?_
  split
  · exact calm_fail
  · exact calm_withSiblings ⟨fun _ => calm_leafCanLend,calm_borrowLeafLeft,
      calm_borrowLeafRight,calm_mergeLeafRight,calm_mergeLeafLeft⟩ calm_rebalanceInternal

theorem calm_settleLeaf {maxSize : ℕ} {minimumChanged : Bool} :
    Calm w (settleLeaf id entries maxSize minimumChanged) := by
  refine calm_bind Quiet.getObject fun tree => ?_
  split
  · split
    · exact calm_pure
    refine calm_bind Quiet.modifyObject fun _ => ?_
    exact calm_bind calm_persistRootPageId fun _ => Quiet.deletePage
  split
  · split
    · exact calm_propagateMinimumChange
    · exact calm_pure
  · exact calm_rebalanceLeaf

end leaf

theorem calm_findPair : Calm w (findPair key rid fuel current) := by
  induction fuel generalizing current with
  | zero => exact calm_fail
  | succ fuel ih =>
    unfold findPair
    split
    · exact calm_pure
    refine calm_bind calm_readPage fun leaf => ?_
    split
    · exact calm_pure
    split
    · exact calm_pure
    · exact ih

theorem calm_remove : Calm w (remove key rid) := by
  refine calm_bind Quiet.getObject fun tree => ?_
  split
  · exact calm_fail
  refine calm_bind calm_findLeaf fun found => calm_bind calm_findPair fun target => ?_
  split
  · exact calm_fail
  · exact calm_bind calm_writePage fun _ => calm_settleLeaf

theorem calm_createPersistent {leafMaxSize internalMaxSize : ℕ} :
    Calm w (createPersistent leafMaxSize internalMaxSize) := by
  unfold createPersistent
  split
  · exact calm_fail
  refine calm_bind (Quiet.create fun id => ?_) fun _ => Quiet.modifyObject
  exact still_bind Still.release fun _ => Still.pure trivial

theorem calm_openPersistent : Calm w (openPersistent id) := by
  unfold openPersistent
  split
  · exact calm_fail
  · exact calm_bind calm_readPage fun _ => Quiet.modifyObject

theorem calm_collectPages {pending pages : List PageId} :
    Calm w (collectPages fuel pending pages) := by
  induction fuel generalizing pending pages with
  | zero => cases pending with
    | nil => exact calm_pure
    | cons => exact calm_fail
  | succ fuel ih => cases pending with
    | nil => exact calm_pure
    | cons => exact calm_bind calm_readPage fun _ => ih

theorem calm_deletePages (pages : List PageId) : Calm w (deletePages pages) := by
  induction pages with
  | nil => exact calm_pure
  | cons id pages ih => exact calm_bind Quiet.deletePage fun _ => ih

theorem calm_destroy : Calm w (destroy fuel) := by
  refine calm_bind Quiet.getObject fun tree => calm_bind calm_collectPages fun pages => ?_
  refine calm_bind Quiet.modifyObject fun _ => calm_bind (calm_deletePages pages) fun _ => ?_
  split
  · exact calm_pure
  · exact calm_bind Quiet.modifyObject fun _ => Quiet.deletePage

end requests

end Latch
end OurSql
