import Ybtc.Evm.HexPrefix
import Ybtc.Evm.OverlayDB

/-!
# The Merkle-Patricia trie

`GenericTrieDB`: a map from keys to values that is stored as a tree of RLP nodes and known by the
hash of its root.  A node is a pair, which is a leaf or shortens a run of nodes with one child, or a
branch with sixteen children and a value.  A child of less than thirty-two bytes is part of its
parent; a longer one is replaced by its hash.

The recursions follow the key; nodes that shorten nothing would let them run on for ever, and the
number of turns stands for that.
-/

namespace Ybtc

open RLP

/-- Code that works on the node store. -/
abbrev TrieM := EStateM Fault OverlayDB

/-! ## Nodes -/

/-- `keyOf` of a pair. -/
def keyOfNode (d : Bytes) : Except Fault (List Nibble) := do
  let i ← item d 0
  let p ← payload i
  .ok (keyOf p)

/-- `isLeaf` of a pair. -/
def isLeafNode (d : Bytes) : Except Fault Bool := do
  let i ← item d 0
  let p ← payload i
  match isLeafKey p with
  | some leaf => .ok leaf
  | none => .error (.undefined .outOfBounds)

/-- The first `n` items of a node. -/
def nodeItems (d : Bytes) (n : ℕ) : Except Fault (List Bytes) := (List.range n).mapM (item d)

/-- A child, from the item that stands for it: `n.isList() ? n : RLP(node(n.toHash()))`. -/
def OverlayDB.child (db : OverlayDB) (n : Bytes) : Except Fault Bytes :=
  if isList n then .ok n
  else do
    let h ← toHash n
    ofBytes (db.lookup h)

/-! ## Look-up -/

/-- `atAux` at a branch, with the recursive call as an argument. -/
def atBranch (db : OverlayDB) (atAux : Bytes → List Nibble → Except Fault Bytes) (here : Bytes) :
    List Nibble → Except Fault Bytes
  | [] => do
    let value ← item here 16
    toString value
  | i :: rest => do
    let n ← item here i.val
    if isEmpty n then .ok []
    else do
      let child ← db.child n
      atAux child rest

/-- `atAux`. -/
def atAux (db : OverlayDB) : ℕ → Bytes → List Nibble → Except Fault Bytes
  | 0, _, _ => .error .diverged
  | turns + 1, here, key =>
    if isEmpty here ∨ here = [] then .ok []
    else do
      let itemCount ← itemCount here
      if itemCount = 2 then do
        let k ← keyOfNode here
        let leaf ← isLeafNode here
        let n ← item here 1
        if key = k ∧ leaf then toString n
        else if k <+: key ∧ ¬ leaf then do
          let child ← db.child n
          atAux db turns child (key.drop k.length)
        else .ok []
      else if itemCount = 17 then atBranch db (atAux db turns) here key
      else .error .assertion

/-- `at(key)`. -/
def trieAt (db : OverlayDB) (root : Uint256) (key : Bytes) : Except Fault Bytes := do
  let here ← ofBytes (db.lookup root)
  atAux db ((nibbleSlice key).length + 1) here (nibbleSlice key)

/-! ## The store -/

section Store

variable (sha3 : Bytes → Uint256)

def forceInsertNode (v : Bytes) : TrieM Uint256 := fun db => .ok (sha3 v) (db.insert (sha3 v) v)

def forceKillNode (h : Uint256) : TrieM Unit := fun db => .ok () (db.kill h)

/-- `killNode(d, h)`: a node of less than thirty-two bytes is not in the store. -/
def killNodeAt (d : Bytes) (h : Uint256) : TrieM Unit :=
  if 32 ≤ d.length then forceKillNode h else pure ()

/-- `killNode(d)`. -/
def killNode (d : Bytes) : TrieM Unit := killNodeAt d (sha3 d)

/-- `if (!inLine) killNode(orig, origHash);` -/
def killUnless (inLine : Bool) (orig : Bytes) (origHash : Uint256) : TrieM Unit :=
  if inLine then pure () else killNodeAt orig origHash

/-- `streamNode`: the item that stands for a node in its parent. -/
def streamNode (b : Bytes) : TrieM Bytes :=
  if b.length < 32 then pure b
  else do
    let h ← forceInsertNode sha3 b
    pure (rlpBytes (hashBytes h))

/-- `assert(c);` -/
def trieAssert (c : Prop) [Decidable c] : TrieM Unit := if c then pure () else throw .assertion

/-- The child behind an item, with the look-up in the store of the moment. -/
def childNode (n : Bytes) : TrieM Bytes := fun db => Stateful.liftExcept (db.child n) db

/-! ## Insertion -/

/-- `place`: the value at the end of its key. -/
def place (orig : Bytes) (k : List Nibble) (s : Bytes) : TrieM Bytes := do
  killNode sha3 orig
  if isEmpty orig then pure (rlpList [rlpBytes (hexPrefixEncode k true), rlpBytes s])
  else do
    let itemCount ← Stateful.liftExcept (itemCount orig)
    if itemCount = 2 then do
      let i ← Stateful.liftExcept (item orig 0)
      pure (rlpList [i, rlpBytes s])
    else do
      trieAssert (itemCount = 17)
      let is ← Stateful.liftExcept (nodeItems orig 16)
      pure (rlpList (is ++ [rlpBytes s]))

/-- `cleve`: a pair is cut in two, after `s` half bytes of its key. -/
def cleve (orig : Bytes) (s : ℕ) : TrieM Bytes := do
  killNode sha3 orig
  let k ← Stateful.liftExcept (keyOfNode orig)
  trieAssert (0 < s ∧ s ≤ k.length)
  let leaf ← Stateful.liftExcept (isLeafNode orig)
  let i ← Stateful.liftExcept (item orig 1)
  let bottom ← streamNode sha3 (rlpList [rlpBytes (hexPrefixEncode (k.drop s) leaf), i])
  pure (rlpList [rlpBytes (hexPrefixEncode (k.take s) false), bottom])

/-- The item of the one child that a pair has once it is made a branch. -/
def branchChild (leaf : Bool) (rest : List Nibble) (i : Bytes) : TrieM Bytes :=
  if leaf ∨ rest ≠ [] then streamNode sha3 (rlpList [rlpBytes (hexPrefixEncode rest leaf), i])
  else pure i

/-- The branch that a pair is made, by the first half byte of its key. -/
def branchFor (leaf : Bool) (i : Bytes) : List Nibble → TrieM Bytes
  | [] => do
    trieAssert (leaf = true)
    pure (rlpList (List.replicate 16 rlpNull ++ [i]))
  | b :: rest => do
    let child ← branchChild sha3 leaf rest i
    pure (rlpList ((List.replicate 17 rlpNull).set b.val child))

/-- `branch`: a pair is made a branch. -/
def branch (orig : Bytes) : TrieM Bytes := do
  killNode sha3 orig
  let k ← Stateful.liftExcept (keyOfNode orig)
  let leaf ← Stateful.liftExcept (isLeafNode orig)
  let i ← Stateful.liftExcept (item orig 1)
  branchFor sha3 leaf i k

/-- `mergeAtAux`, with the recursive call as an argument: the item of the child that was merged. -/
def mergeAtAux (mergeAt : Bytes → Bool → TrieM Bytes) (orig : Bytes) : TrieM Bytes :=
  if isList orig = false ∧ isEmpty orig = false then do
    let r ← childNode orig
    trieAssert (r ≠ [])
    let b ← mergeAt r false
    streamNode sha3 b
  else do
    let b ← mergeAt orig true
    streamNode sha3 b

/-- `mergeAt` at a branch, with the recursive call as an argument. -/
def mergeAtBranch (mergeAt : Bytes → List Nibble → Bool → TrieM Bytes) (orig : Bytes)
    (origHash : Uint256) (v : Bytes) (inLine : Bool) : List Nibble → TrieM Bytes
  | [] => place sha3 orig [] v
  | n :: rest => do
    killUnless inLine orig origHash
    let is ← Stateful.liftExcept (nodeItems orig 17)
    let child ← mergeAtAux sha3 (fun r inl => mergeAt r rest inl) (is.getD n.val [])
    pure (rlpList (is.set n.val child))

/-- `mergeAt`: the node with the value merged in; the caller stores it. -/
def mergeAt : ℕ → Bytes → Uint256 → List Nibble → Bytes → Bool → TrieM Bytes
  | 0, _, _, _, _, _ => throw .diverged
  | turns + 1, orig, origHash, k, v, inLine =>
    if isEmpty orig then place sha3 orig k v
    else do
      let itemCount ← Stateful.liftExcept (itemCount orig)
      if itemCount = 2 then do
        let ok ← Stateful.liftExcept (keyOfNode orig)
        let leaf ← Stateful.liftExcept (isLeafNode orig)
        if ok = k ∧ leaf then place sha3 orig k v
        else if ok <+: k ∧ ¬ leaf then do
          killUnless inLine orig origHash
          let i0 ← Stateful.liftExcept (item orig 0)
          let i1 ← Stateful.liftExcept (item orig 1)
          let child ← mergeAtAux sha3
            (fun r inl => mergeAt turns r (sha3 r) (k.drop ok.length) v inl) i1
          pure (rlpList [i0, child])
        else if 0 < sharedNibbles k ok then do
          let cleved ← cleve sha3 orig (sharedNibbles k ok)
          let r ← Stateful.liftExcept (ofBytes cleved)
          mergeAt turns r (sha3 r) k v true
        else do
          let branched ← branch sha3 orig
          let r ← Stateful.liftExcept (ofBytes branched)
          mergeAt turns r (sha3 r) k v true
      else do
        trieAssert (itemCount = 17)
        mergeAtBranch sha3 (fun r rest inl => mergeAt turns r (sha3 r) rest v inl) orig origHash v
          inLine k

/-- `if (rootValue.size() < 32) forceKillNode(m_root);` -/
def killShortRoot (rootValue : Bytes) (root : Uint256) : TrieM Unit :=
  if rootValue.length < 32 then forceKillNode root else pure ()

/-- The record under a hash. -/
def storedNode (h : Uint256) : TrieM Bytes := fun db => .ok (db.lookup h) db

/-- `insert(key, value)`; the new root. -/
def trieInsert (root : Uint256) (key value : Bytes) : TrieM Uint256 := do
  let rootValue ← storedNode root
  trieAssert (rootValue ≠ [])
  let r ← Stateful.liftExcept (ofBytes rootValue)
  let b ← mergeAt sha3 (2 * (nibbleSlice key).length + 2) r root (nibbleSlice key) value false
  killShortRoot rootValue root
  forceInsertNode sha3 b

/-! ## Removal -/

/-- `uniqueInUse`: the only position in use, if there is exactly one. -/
def uniqueInUse (items : List Bytes) (except : Option ℕ) : Option ℕ :=
  match (List.range 17).filter fun i =>
      some i != except && !isEmpty (items.getD i []) with
  | [i] => some i
  | _ => none

/-- `isTwoItemNode`. -/
def isTwoItemNode (n : Bytes) : TrieM Bool := fun db => Stateful.liftExcept (do
  if isData n then do
    let h ← toHash n
    let r ← ofBytes (db.lookup h)
    let c ← itemCount r
    .ok (c == 2)
  else do
    let c ← itemCount n
    .ok (isList n && c == 2)) db

/-- The pair below a pair, taken out of the store if it is there. -/
def graftChild (i : Bytes) : TrieM Bytes :=
  if isList i then pure i
  else do
    let lh ← Stateful.liftExcept (toHash i)
    let s ← storedNode lh
    forceKillNode lh
    Stateful.liftExcept (ofBytes s)

/-- `graft`: a pair above a pair is made one. -/
def graft (orig : Bytes) : TrieM Bytes := do
  let i ← Stateful.liftExcept (item orig 1)
  let n ← graftChild i
  let itemCount ← Stateful.liftExcept (itemCount n)
  trieAssert (itemCount = 2)
  let k ← Stateful.liftExcept (keyOfNode orig)
  let kn ← Stateful.liftExcept (keyOfNode n)
  let leaf ← Stateful.liftExcept (isLeafNode n)
  let value ← Stateful.liftExcept (item n 1)
  pure (rlpList [rlpBytes (hexPrefixEncode (k ++ kn) leaf), value])

/-- `merge`: a branch with one position in use is made a pair. -/
def merge (items : List Bytes) (i : ℕ) : TrieM Bytes :=
  if i ≠ 16 then do
    trieAssert (isEmpty (items.getD i []) = false)
    pure (rlpList [rlpBytes (hexPrefixEncode [Fin.ofNat 16 i] false), items.getD i []])
  else pure (rlpList [rlpBytes (hexPrefixEncode [] true), items.getD 16 []])

/-- The branch with one position in use, as a pair, and as one pair with what is below it. -/
def mergeUsed (items : List Bytes) (used : ℕ) : TrieM Bytes := do
  let two ← isTwoItemNode (items.getD used [])
  let merged ← merge items used
  if two then graft merged else pure merged

/-- A branch whose items have changed, brought back into shape. -/
def rejig (items : List Bytes) (except : Option ℕ) : TrieM Bytes :=
  match uniqueInUse items except with
  | some used => mergeUsed items used
  | none => pure (rlpList items)

/-- `deleteAtAux`, with the recursive call as an argument; `none` is its `return false`. -/
def deleteAtAux (deleteAt : Bytes → TrieM Bytes) (orig : Bytes) : TrieM (Option Bytes) :=
  if isEmpty orig then pure none
  else do
    let r ← childNode orig
    let b ← deleteAt r
    if b = [] then pure none
    else do
      let i ← streamNode sha3 b
      pure (some i)

/-- The end of `deleteAt` for a pair, once its child has changed. -/
def replaceChild (orig i0 : Bytes) : Option Bytes → TrieM Bytes
  | none => pure []
  | some child => do
    killNode sha3 orig
    let two ← isTwoItemNode child
    if two then graft (rlpList [i0, child]) else pure (rlpList [i0, child])

/-- The end of `deleteAt` for a branch, once a child has changed. -/
def replaceItem (orig : Bytes) (items : List Bytes) (n : ℕ) : Option Bytes → TrieM Bytes
  | none => pure []
  | some child => do
    killNode sha3 orig
    rejig (items.set n child) none

/-- `deleteAt` at a branch, with the recursive call as an argument. -/
def deleteAtBranch (deleteAt : Bytes → List Nibble → TrieM Bytes) (orig : Bytes)
    (items : List Bytes) : List Nibble → TrieM Bytes
  | [] =>
    -- With nothing left of the key its next half byte is read past the end.
    if isEmpty (items.getD 16 []) then throw (.undefined .outOfBounds)
    else do
      killNode sha3 orig
      rejig (items.set 16 rlpNull) (some 16)
  | n :: rest => do
    let child ← deleteAtAux sha3 (fun r => deleteAt r rest) (items.getD n.val [])
    replaceItem sha3 orig items n.val child

/-- `deleteAt`: the node without the key, or nothing if the key is not there. -/
def deleteAt : ℕ → Bytes → List Nibble → TrieM Bytes
  | 0, _, _ => throw .diverged
  | turns + 1, orig, k =>
    if isEmpty orig then pure []
    else do
      let itemCount ← Stateful.liftExcept (itemCount orig)
      if itemCount = 2 then do
        let ok ← Stateful.liftExcept (keyOfNode orig)
        let leaf ← Stateful.liftExcept (isLeafNode orig)
        if ok = k ∧ leaf then do
          killNode sha3 orig
          pure rlpNull
        else if ok <+: k then do
          let i0 ← Stateful.liftExcept (item orig 0)
          let i1 ← Stateful.liftExcept (item orig 1)
          let child ← deleteAtAux sha3 (fun r => deleteAt turns r (k.drop ok.length)) i1
          replaceChild sha3 orig i0 child
        else pure []
      else do
        trieAssert (itemCount = 17)
        let is ← Stateful.liftExcept (nodeItems orig 17)
        deleteAtBranch sha3 (deleteAt turns) orig is k

/-- `remove(key)`; the new root. -/
def trieRemove (root : Uint256) (key : Bytes) : TrieM Uint256 := do
  let rv ← storedNode root
  let r ← Stateful.liftExcept (ofBytes rv)
  let b ← deleteAt sha3 ((nibbleSlice key).length + 1) r (nibbleSlice key)
  if b = [] then pure root
  else do
    killShortRoot rv root
    forceInsertNode sha3 b

/-! ## Roots -/

/-- `c_shaNull` and `EmptyTrie`, the root of the empty trie. -/
def emptyTrie : Uint256 := sha3 rlpNull

/-- `root()`. -/
def trieRoot (db : OverlayDB) (root : Uint256) : Except Fault Uint256 :=
  if db.lookup root = [] then .error (rangeError "Bad Root ") else .ok root

/-- `if (m_root == c_shaNull && !m_db->exists(m_root)) init();` -/
def initIfEmpty (root : Uint256) : TrieM Unit := fun db =>
  if root = emptyTrie sha3 ∧ db.contains root = false then
    .ok () (db.insert (emptyTrie sha3) rlpNull)
  else .ok () db

/-- The checks of `setRoot`, which `open` makes too. -/
def openRoot (root : Uint256) : TrieM Unit := do
  initIfEmpty sha3 root
  let b ← storedNode root
  if b = [] then throw (rangeError "Root Not Found") else pure ()

end Store

end Ybtc
