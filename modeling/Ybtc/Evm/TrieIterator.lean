import Ybtc.Evm.TrieRuns

/-!
# Iteration over a trie

An iterator keeps a trail of nodes from the root to the node it stands at, each with the child it
went down to.  A step goes up the trail to the next child that is there and down to the first leaf
below it; `lower_bound` goes down along a given key first.
-/

namespace Ybtc

open RadixTrie Fallible RLP List

/-! ## The functions of the source -/

/-- `iterator::Node`. -/
structure IterNode where
  rlp : Bytes
  key : Bytes
  child : ℕ
deriving DecidableEq

/-- `m_trail`, with its back first. -/
abbrev Trail := List IterNode

/-- The `child` of a node that is entered. -/
def entering : ℕ := 255

/-- `incrementChild`, and with it all positions from one on: the value, then the children. -/
def incrementChild (child : ℕ) : ℕ := if child = 16 then 0 else if child = 15 then 17 else child + 1

def positionsFrom (child : ℕ) : List ℕ :=
  if child = 16 then 16 :: range 16 else (range 16).drop child

/-- What a turn of the loops ends with: another turn, or the return of the function. -/
inductive IterTurn (α : Type)
  | again (a : α)
  | stop (trail : Trail)

open IterTurn

/-- The state of the next turn, changed. -/
def IterTurn.map {α β : Type} (f : α → β) : IterTurn α → IterTurn β
  | .again a => .again (f a)
  | .stop trail => .stop trail

/-- `deref`. -/
def OverlayDB.deref (db : OverlayDB) (n : Bytes) : Except Fault Bytes :=
  if isList n then .ok n
  else do
    let h ← toHash n
    .ok (db.lookup h)

/-- The first position that is not empty. -/
def firstUsed (rlp : Bytes) : List ℕ → Except Fault (Option ℕ)
  | [] => .ok none
  | i :: is => do
    let item ← item rlp i
    if RLP.isEmpty item then firstUsed rlp is else .ok (some i)

/-- A pair as a branch: the key grows by that of the pair. -/
def extendKey (key : Bytes) (k : List Nibble) : Bytes := hexPrefixEncode (keyOf key ++ k) false

/-- `isEarlierThan`. -/
def isEarlierThan : List Nibble → List Nibble → Bool
  | a :: as, b :: bs => if a < b then true else if b < a then false else isEarlierThan as bs
  | _, [] => false
  | [], _ :: _ => true

section

variable (db : OverlayDB)

variable (b : IterNode)

/-- The end of a turn at a branch, from the position that is in use: up, here, or down. -/
def enterChild (rest : Trail) (rlp : Bytes) : Option ℕ → Except Fault (IterTurn Trail)
  | none => .ok (.again rest)
  | some i =>
    if i = 16 then .ok (.stop ({ b with child := 16 } :: rest))
    else do
      let item ← item rlp i
      let below ← db.deref item
      .ok (.again
        (⟨below, extendKey b.key [Fin.ofNat 16 i], entering⟩ :: { b with child := i } :: rest))

/-- The loop over the positions of a branch, from one on. -/
def scanChildren (rest : Trail) (rlp : Bytes) (child : ℕ) :
    Except Fault (IterTurn Trail) := do
  let used ← firstUsed rlp (positionsFrom child)
  enterChild db b rest rlp used

/-- A turn of `next()` at a pair that is entered. -/
def nextPair (rest : Trail) (rlp : Bytes) : Except Fault (IterTurn Trail) := do
  let k ← keyOfNode rlp
  let leaf ← isLeafNode rlp
  if leaf then .ok (.stop ({ b with key := extendKey b.key k, child := 0 } :: rest))
  else do
    let item ← item rlp 1
    let below ← db.deref item
    .ok (.again ({ b with rlp := below, key := extendKey b.key k } :: rest))

/-- A turn of `next()`. -/
def nextTurn : Trail → Except Fault (IterTurn Trail)
  | [] => .ok (.stop [])
  | b :: rest => do
    let rlp ← ofBytes b.rlp
    if b.child = entering then
      if RLP.isEmpty rlp then .ok (.again rest)
      else do
        let itemCount ← itemCount rlp
        if isList rlp = false ∨ (itemCount ≠ 2 ∧ itemCount ≠ 17) then .ok (.stop (b :: rest))
        else if itemCount = 2 then nextPair db b rest rlp
        else scanChildren db b rest rlp 16
    else do
      let itemCount ← itemCount rlp
      if isList rlp = false ∨ itemCount ≠ 17 then .ok (.again rest)
      else scanChildren db b rest rlp (incrementChild b.child)

/-- What is left of the key after the loop over the positions: it is dropped when the first one is
    empty. -/
def keyAfterScan (child : ℕ) (k : List Nibble) (used : Option ℕ) : List Nibble :=
  if used = some child then k else []

/-- The loop over given positions, with the key that is left for the one in use. -/
def scanPositions (rest : Trail) (rlp : Bytes) (positions : List ℕ)
    (key : Option ℕ → List Nibble) : Except Fault (IterTurn (Trail × List Nibble)) := do
  let used ← firstUsed rlp positions
  let turn ← enterChild db b rest rlp used
  .ok (turn.map fun trail => (trail, key used))

/-- The loop over the positions of a branch, with a key. -/
def scanChildrenFrom (rest : Trail) (rlp : Bytes) (child : ℕ) (k : List Nibble) :
    Except Fault (IterTurn (Trail × List Nibble)) :=
  scanPositions db b rest rlp (positionsFrom child) (keyAfterScan child k)

/-- A turn of `next(key)` at a pair that is not skipped; `k` is what is left of the key. -/
def nextPairFrom (rest : Trail) (rlp : Bytes) (keyOfRLP k : List Nibble) :
    Except Fault (IterTurn (Trail × List Nibble)) := do
  let leaf ← isLeafNode rlp
  if leaf then
    if k = [] then .ok (.stop ({ b with key := extendKey b.key keyOfRLP, child := 0 } :: rest))
    else .ok (.again (rest, []))
  else do
    let item ← item rlp 1
    let below ← db.deref item
    .ok (.again ({ b with rlp := below, key := extendKey b.key keyOfRLP } :: rest, k))

/-- A turn of `next(key)` at a pair that is entered. -/
def seekPair (rest : Trail) (rlp : Bytes) (k : List Nibble) :
    Except Fault (IterTurn (Trail × List Nibble)) := do
  let keyOfRLP ← keyOfNode rlp
  if keyOfRLP <+: k then nextPairFrom db b rest rlp keyOfRLP (k.drop keyOfRLP.length)
  else if isEarlierThan k keyOfRLP then nextPairFrom db b rest rlp keyOfRLP []
  else .ok (.again (rest, []))

/-- A turn of `next(key)` at a branch that is entered. -/
def seekBranch (rest : Trail) (rlp : Bytes) :
    List Nibble → Except Fault (IterTurn (Trail × List Nibble))
  | [] => scanChildrenFrom db b rest rlp 16 []
  | d :: k => scanChildrenFrom db b rest rlp d.val k

/-- A turn of `next(key)`. -/
def nextFromTurn : Trail × List Nibble → Except Fault (IterTurn (Trail × List Nibble))
  | ([], _) => .ok (.stop [])
  | (b :: rest, k) => do
    let rlp ← ofBytes b.rlp
    if b.child = entering then
      if RLP.isEmpty rlp then .ok (.again (rest, []))
      else do
        let itemCount ← itemCount rlp
        if isList rlp = false ∨ (itemCount ≠ 2 ∧ itemCount ≠ 17) then .ok (.stop (b :: rest))
        else if itemCount = 2 then seekPair db b rest rlp k
        else seekBranch db b rest rlp k
    else do
      let itemCount ← itemCount rlp
      if isList rlp = false ∨ itemCount ≠ 17 then .ok (.again (rest, []))
      else scanChildrenFrom db b rest rlp (incrementChild b.child) k

/-- After a turn. -/
def IterTurn.go {α : Type} (again : α → Except Fault Trail) : IterTurn α → Except Fault Trail
  | .again a => again a
  | .stop trail => .ok trail

/-- `while (true)`. -/
def turns {α : Type} (turn : α → Except Fault (IterTurn α)) : ℕ → α → Except Fault Trail
  | 0, _ => .error .diverged
  | n + 1, a => do
    let t ← turn a
    t.go (turns turn n)

/-- `next()`. -/
def next (n : ℕ) (trail : Trail) : Except Fault Trail := turns (nextTurn db) n trail

/-- `next(key)`. -/
def nextFrom (n : ℕ) (trail : Trail) (key : List Nibble) : Except Fault Trail :=
  turns (nextFromTurn db) n (trail, key)

/-- The trail of a new iterator; one null byte is the encoding of the empty key. -/
def rootTrail (root : Uint256) : Trail := [⟨db.lookup root, [0], entering⟩]

/-- `begin()`. -/
def trieBegin (n : ℕ) (root : Uint256) : Except Fault Trail := next db n (rootTrail db root)

/-- `lower_bound(key)`. -/
def lowerBound (n : ℕ) (root : Uint256) (key : Bytes) : Except Fault Trail :=
  nextFrom db n (rootTrail db root) (nibbleSlice key)

end

/-- `iterator::at`. -/
def iteratorAt : Trail → Except Fault (Bytes × Bytes)
  | [] => .error .assertion
  | b :: _ =>
    match b.key with
    | [] => .error .assertion
    | flags :: key =>
      if flags.toNat / 16 % 2 = 1 then .error .assertion
      else do
        let rlp ← ofBytes b.rlp
        let itemCount ← itemCount rlp
        let item ← item rlp (if itemCount = 2 then 1 else 16)
        let value ← payload item
        .ok (key, value)

/-- `for (; it != end(); ++it)`: the entries an iterator goes through. -/
def iterate (db : OverlayDB) (n : ℕ) : ℕ → Trail → Except Fault (List (Bytes × Bytes))
  | _, [] => .ok []
  | 0, _ :: _ => .error .diverged
  | steps + 1, b :: rest => do
    let e ← iteratorAt (b :: rest)
    let trail ← next db n (b :: rest)
    let es ← iterate db n steps trail
    .ok (e :: es)

/-! ## Both steps in one -/

section Steps

variable {db : OverlayDB}

/-- A turn of `next()` as one of `next(key)`, with nothing left of the key. -/
def IterTurn.withKey (turn : IterTurn Trail) : IterTurn (Trail × List Nibble) :=
  turn.map fun trail => (trail, [])

lemma keyAfterScan_nil (child : ℕ) : keyAfterScan child [] = fun _ => [] := by
  funext used
  simp [keyAfterScan]

variable (b : IterNode) (rest : Trail) (rlp : Bytes)

lemma scanChildrenFrom_nil (child : ℕ) :
    scanChildrenFrom db b rest rlp child [] = withKey <$> scanChildren db b rest rlp child := by
  rw [scanChildrenFrom, scanChildren, scanPositions, keyAfterScan_nil, map_bind]
  refine bind_congr fun used => ?_
  rw [map_eq_pure_bind]
  rfl

lemma nextPairFrom_nil (k : List Nibble) (hk : keyOfNode rlp = .ok k) :
    nextPairFrom db b rest rlp k [] = withKey <$> nextPair db b rest rlp := by
  rw [nextPairFrom, nextPair, hk, ok_bind, map_bind]
  refine bind_congr fun leaf => ?_
  cases leaf with
  | true => rfl
  | false =>
    simp only [Bool.false_eq_true, if_false, map_bind]
    rfl

lemma seekPair_nil : seekPair db b rest rlp [] = withKey <$> nextPair db b rest rlp := by
  rw [seekPair]
  cases hk : keyOfNode rlp with
  | error e =>
    rw [nextPair, hk]
    rfl
  | ok k => cases k <;> simp [isEarlierThan, nextPairFrom_nil b rest rlp _ hk]

/-- **Without a key both steps are the same.** -/
lemma nextFromTurn_nil (trail : Trail) :
    nextFromTurn db (trail, []) = withKey <$> nextTurn db trail := by
  cases trail with
  | nil => rfl
  | cons b rest =>
    rw [nextFromTurn, nextTurn, map_bind]
    refine bind_congr fun rlp => ?_
    rw [seekBranch, seekPair_nil, scanChildrenFrom_nil, scanChildrenFrom_nil, apply_ite (_ <$> ·),
      apply_ite (_ <$> ·), map_bind, map_bind]
    simp only [apply_ite (withKey <$> ·)]
    rfl

lemma nextFrom_nil : ∀ (n : ℕ) (trail : Trail), nextFrom db n trail [] = next db n trail
  | 0, _ => rfl
  | n + 1, trail => by
    have ih := nextFrom_nil n
    unfold nextFrom next at ih ⊢
    rw [turns, turns, nextFromTurn_nil]
    cases nextTurn db trail with
    | error e => rfl
    | ok turn =>
      cases turn with
      | again t => exact ih t
      | stop t => rfl

end Steps

/-! ## Where the steps lead -/

section Reach

variable (db : OverlayDB)

/-- The step leads to the trail, with enough turns. -/
def Reaches (s : Trail × List Nibble) (trail : Trail) : Prop :=
  ∃ n, ∀ m, nextFrom db (n + m) s.1 s.2 = .ok trail

/-- **The entries that an iterator goes through.** -/
inductive Visits : Trail → List (Bytes × Bytes) → Prop
  | done : Visits [] []
  | step {b : IterNode} {rest trail : Trail} {e : Bytes × Bytes} {es : List (Bytes × Bytes)} :
      iteratorAt (b :: rest) = .ok e → Reaches db (b :: rest, []) trail → Visits trail es →
        Visits (b :: rest) (e :: es)

/-- The step leads to a trail from where the iterator goes through the entries. -/
def Comes (s : Trail × List Nibble) (es : List (Bytes × Bytes)) : Prop :=
  ∃ trail, Reaches db s trail ∧ Visits db trail es

variable {db}

variable {s : Trail × List Nibble} {es : List (Bytes × Bytes)}

lemma Comes.again {s' : Trail × List Nibble} (h : nextFromTurn db s = .ok (.again s'))
    (hc : Comes db s' es) : Comes db s es := by
  obtain ⟨trail, ⟨n, hn⟩, hv⟩ := hc
  refine ⟨trail, ⟨n + 1, fun m => ?_⟩, hv⟩
  rw [nextFrom, show n + 1 + m = n + m + 1 by omega, turns, h, ok_bind]
  exact hn m

lemma Comes.stop {trail : Trail} (h : nextFromTurn db s = .ok (.stop trail))
    (hv : Visits db trail es) : Comes db s es := by
  refine ⟨trail, ⟨1, fun m => ?_⟩, hv⟩
  rw [nextFrom, Nat.add_comm, turns, h, ok_bind]
  rfl

/-- What a turn ends with leads to the entries. -/
def TurnEnds (db : OverlayDB) (x : Except Fault (IterTurn (Trail × List Nibble)))
    (es : List (Bytes × Bytes)) : Prop :=
  (∃ s, x = .ok (.again s) ∧ Comes db s es) ∨ ∃ trail, x = .ok (.stop trail) ∧ Visits db trail es

lemma Comes.of_turn (h : TurnEnds db (nextFromTurn db s) es) : Comes db s es := by
  rcases h with ⟨s', hs, hc⟩ | ⟨trail, ht, hv⟩
  · exact Comes.again hs hc
  · exact Comes.stop ht hv

lemma comes_nil : Comes db ([], []) [] := Comes.stop rfl Visits.done

/-- **An iteration, with enough turns for each step.** -/
lemma Visits.iterate {trail : Trail} (h : Visits db trail es) :
    ∃ n, ∀ m steps, es.length ≤ steps → iterate db (n + m) steps trail = .ok es := by
  induction h with
  | done => exact ⟨0, fun m steps _ => by cases steps <;> rfl⟩
  | @step b rest trail e es hat hr hv ih =>
    obtain ⟨n1, h1⟩ := hr
    obtain ⟨n2, h2⟩ := ih
    refine ⟨n1 + n2, fun m steps hs => ?_⟩
    obtain ⟨steps, rfl⟩ : ∃ j, steps = j + 1 := ⟨steps - 1, by rw [length_cons] at hs; omega⟩
    rw [Ybtc.iterate, hat, ok_bind, ← nextFrom_nil,
      show n1 + n2 + m = n1 + (n2 + m) by omega, h1, ok_bind,
      show n1 + (n2 + m) = n2 + (n1 + m) by omega, h2 _ _ (by rw [length_cons] at hs; omega),
      ok_bind]

end Reach

/-! ## Below a node -/

section Tree

variable {sha3 : Bytes → Uint256} {ok : Bytes → Prop} {db : OverlayDB}

/-- An entry as the iterator shows it, behind the half bytes `p`. -/
def packed (p : List Nibble) (e : List Nibble × Bytes) : Bytes × Bytes :=
  (packNibbles (p ++ e.1), e.2)

/-- The entries that are not before a key. -/
def notBefore (k : List Nibble) (l : List (List Nibble × Bytes)) : List (List Nibble × Bytes) :=
  l.filter fun e => k ≤ e.1

lemma packed_behind (p q : List Nibble) : packed p ∘ behind q = packed (p ++ q) := by
  funext e
  simp [packed, behind]

variable (sha3) in
/-- The node of a tree, behind the half bytes `p`. -/
def iterNode (t : NodeTrie) (p : List Nibble) (child : ℕ) : IterNode :=
  ⟨encodeTrie sha3 t, hexPrefixEncode p false, child⟩

variable (sha3 db) in
/-- **Below the node the iterator goes through the entries that are not before the key**, and then
    up. -/
def Explores (t : NodeTrie) (p k : List Nibble) : Prop :=
  ∀ rest es, Comes db (rest, []) es → Comes db (iterNode sha3 t p entering :: rest, k)
    ((notBefore k (entries t)).map (packed p) ++ es)

variable {k q : List Nibble} {v : Bytes} {cs : Nibble → NodeTrie}

lemma extendKey_hexPrefixEncode (p k : List Nibble) :
    extendKey (hexPrefixEncode p false) k = hexPrefixEncode (p ++ k) false := by
  rw [extendKey, keyOf_hexPrefixEncode]

lemma notBefore_nil (l : List (List Nibble × Bytes)) : notBefore [] l = l :=
  filter_eq_self.mpr fun e _ => by simpa using RadixTrie.nil_le e.1

lemma isEarlierThan_eq : ∀ k k' : List Nibble, isEarlierThan k k' = decide (k < k')
  | [], [] | [], b :: k' | a :: k, [] => by simp [isEarlierThan]
  | a :: k, b :: k' => by
    rw [isEarlierThan, isEarlierThan_eq k k']
    simp only [cons_lt_cons_iff]
    rcases lt_trichotomy a b with hlt | rfl | hgt
    · simp [hlt]
    · simp
    · simp [hgt, hgt.asymm, hgt.ne']

variable {t : NodeTrie}

lemma deref_refItem (hf : Fits t) (hne : t ≠ .empty) (h : Holds sha3 db (encodeTrie sha3 t)) :
    db.deref (refItem sha3 (encodeTrie sha3 t)) = .ok (encodeTrie sha3 t) := by
  unfold refItem
  split_ifs with hl
  · rw [OverlayDB.deref, isList_encodeTrie sha3 hf hne, if_pos rfl]
  · have hlim := hashBytes_short (sha3 (encodeTrie sha3 t))
    rw [OverlayDB.deref, isList_rlpBytes hlim, if_neg Bool.false_ne_true, toHash_hashBytes,
      ok_bind, h (by omega)]

/-! ### Leaves -/

/-- The iterator at a leaf. -/
lemma iteratorAt_leaf (hf : Fits (.leaf k v)) (hq : q.length % 2 = 0) (child : ℕ) (rest : Trail) :
    iteratorAt (iterNode sha3 (.leaf k v) q child :: rest) = .ok (packNibbles q, v) := by
  have hv := view_leaf sha3 hf
  have hkey : hexPrefixEncode q false = 0 :: packNibbles q := by
    rw [hexPrefixEncode, if_neg (by omega)]
    rfl
  rw [iteratorAt, iterNode]
  dsimp only
  rw [hkey]
  dsimp only
  rw [if_neg (by decide), hv.isItem.ofBytes, ok_bind, hv.itemCount, ok_bind,
    if_pos rfl, hv.item_one, ok_bind,
    payload_rlpBytes (lt_trans hf.2 (by decide)), ok_bind]

/-- The step from a leaf goes up. -/
lemma nextFromTurn_leaf (hf : Fits (.leaf k v)) (rest : Trail) :
    nextFromTurn db (iterNode sha3 (.leaf k v) q 0 :: rest, []) = .ok (.again (rest, [])) := by
  have hv := view_leaf sha3 hf
  have hne : (0 : ℕ) ≠ entering := by decide
  rw [nextFromTurn, iterNode, hv.isItem.ofBytes, ok_bind, if_neg hne, hv.itemCount,
    ok_bind, if_pos (by simp)]

variable {es : List (Bytes × Bytes)} {rest : Trail}

/-- The iterator stops at a leaf and goes up from there. -/
lemma visits_leaf (hf : Fits (.leaf k v)) (hq : q.length % 2 = 0) (hc : Comes db (rest, []) es) :
    Visits db (iterNode sha3 (.leaf k v) q 0 :: rest) ((packNibbles q, v) :: es) := by
  obtain ⟨trail, hr, hv⟩ := Comes.again (nextFromTurn_leaf hf rest) hc
  exact Visits.step (iteratorAt_leaf hf hq 0 rest) hr hv

/-! ### Pairs -/

/-- A pair that is entered is looked at with the key. -/
lemma nextFromTurn_pair {d i : Bytes} {leaf : Bool} (hv : PairView d q leaf i) (key : Bytes)
    (rest : Trail) (k : List Nibble) :
    nextFromTurn db (⟨d, key, entering⟩ :: rest, k) =
      if q <+: k then nextPairFrom db ⟨d, key, entering⟩ rest d q (k.drop q.length)
      else if k < q then nextPairFrom db ⟨d, key, entering⟩ rest d q []
      else .ok (.again (rest, [])) := by
  rw [nextFromTurn, hv.isItem.ofBytes, ok_bind, if_pos rfl, hv.isEmpty,
    if_neg Bool.false_ne_true, hv.itemCount, ok_bind, hv.isList, if_neg (by simp),
    if_pos rfl, seekPair, hv.keyOf, ok_bind, isEarlierThan_eq]
  simp only [decide_eq_true_eq]

/-- Of the entries behind the half bytes `q` those are left that the rest of the key leaves. -/
lemma notBefore_map_behind (q k : List Nibble) (l : List (List Nibble × Bytes)) :
    notBefore k (l.map (behind q)) =
      if q <+: k then (notBefore (k.drop q.length) l).map (behind q)
      else if k < q then l.map (behind q) else [] := by
  unfold notBefore
  split_ifs with hp hlt
  · obtain ⟨r, rfl⟩ := hp
    rw [drop_left, filter_map]
    simp only [Function.comp_def, behind, append_le_append_iff]
  · refine filter_eq_self.mpr fun e he => ?_
    obtain ⟨e, -, rfl⟩ := mem_map.mp he
    exact decide_eq_true (lt_append_of_lt hlt e.1).le
  · refine filter_eq_nil_iff.mpr fun e he => ?_
    obtain ⟨e, -, rfl⟩ := mem_map.mp he
    have hqk : q < k := lt_of_le_of_ne (not_lt.mp hlt) fun h => hp (h ▸ prefix_rfl)
    rw [decide_eq_true_eq, not_le]
    exact append_lt_of_lt hqk hp e.1

/-! ### Branches -/

/-- The entries of the children from one on. -/
def entriesFrom (cs : Nibble → NodeTrie) (j : ℕ) : List (List Nibble × Bytes) :=
  ((finRange 16).drop j).flatMap fun d => (entries (cs d)).map (behind [d])

lemma entriesFrom_step (cs : Nibble → NodeTrie) (d : Nibble) :
    entriesFrom cs d.val = (entries (cs d)).map (behind [d]) ++ entriesFrom cs (d.val + 1) := by
  have hdrop : (finRange 16).drop d.val = d :: (finRange 16).drop (d.val + 1) := by
    rw [drop_eq_getElem_cons (by simp)]
    simp
  rw [entriesFrom, hdrop, flatMap_cons, entriesFrom]

/-- What is not before a key below a branch: some of one child, and all after it. -/
lemma notBefore_branch (cs : Nibble → NodeTrie) (d : Nibble) (k : List Nibble) :
    notBefore (d :: k) (entries (.branch cs)) =
      (notBefore k (entries (cs d))).map (behind [d]) ++ entriesFrom cs (d.val + 1) := by
  have hsplit : entries (.branch cs) = (((finRange 16).take d.val).flatMap fun d =>
      (entries (cs d)).map (behind [d])) ++ entriesFrom cs d.val := by
    rw [entriesFrom, ← flatMap_append, take_append_drop, entries]
  have hlt : ∀ e ∈ ((finRange 16).take d.val).flatMap fun d =>
      (entries (cs d)).map (behind [d]), ¬ d :: k ≤ e.1 := by
    intro e he
    obtain ⟨d', hd', he⟩ := mem_flatMap.mp he
    obtain ⟨e, -, rfl⟩ := mem_map.mp he
    obtain ⟨i, hi, rfl⟩ := mem_take_iff_getElem.mp hd'
    simp only [behind, singleton_append, cons_le_cons_iff, getElem_finRange, Fin.lt_def,
      Fin.ext_iff, Fin.cast_mk]
    omega
  have hgt : ∀ e ∈ entriesFrom cs (d.val + 1), d :: k ≤ e.1 := by
    intro e he
    obtain ⟨d', hd', he⟩ := mem_flatMap.mp he
    obtain ⟨e, -, rfl⟩ := mem_map.mp he
    obtain ⟨i, hi, rfl⟩ := mem_drop_iff_getElem.mp hd'
    rw [behind, singleton_append, cons_le_cons_iff, getElem_finRange]
    exact Or.inl (Fin.lt_def.mpr (by simp only [Fin.cast_mk]; omega))
  have hnone := filter_eq_nil_iff.mpr fun e he => mt of_decide_eq_true (hlt e he)
  have hall := filter_eq_self.mpr fun e he => decide_eq_true (hgt e he)
  have hsome := notBefore_map_behind [d] (d :: k) (entries (cs d))
  rw [if_pos (by simp), length_singleton, drop_succ_cons, drop_zero] at hsome
  rw [hsplit, entriesFrom_step, notBefore, filter_append, filter_append, hnone, hall, nil_append]
  exact congrArg (· ++ _) hsome

/-- The node of a branch is looked at from its children on, for it has no value. -/
lemma firstUsed_value (hf : Fits (.branch cs)) (ps : List ℕ) :
    firstUsed (encodeTrie sha3 (.branch cs)) (16 :: ps) =
      firstUsed (encodeTrie sha3 (.branch cs)) ps := by
  have hvalue : (branchItems sha3 cs).getD 16 [] = rlpNull := by simp [branchItems]
  rw [firstUsed, (view_branch sha3 hf).item, hvalue, ok_bind, if_pos (by decide)]

variable {d : Nibble}

/-- A child that is not there is passed over. -/
lemma firstUsed_empty (hf : Fits (.branch cs)) (hd : cs d = .empty) (ps : List ℕ) :
    firstUsed (encodeTrie sha3 (.branch cs)) (d.val :: ps) =
      firstUsed (encodeTrie sha3 (.branch cs)) ps := by
  rw [firstUsed, (view_branch sha3 hf).item, branchItems_getD, hd, refItem_empty, ok_bind,
    if_pos (by decide)]

/-- A child that is there is entered. -/
lemma scanPositions_used (hf : Fits (.branch cs)) (hst : TrieStored sha3 db (.branch cs))
    (hd : cs d ≠ .empty) (p : List Nibble) (child : ℕ) (rest : Trail) (ps : List ℕ)
    (key : Option ℕ → List Nibble) :
    scanPositions db (iterNode sha3 (.branch cs) p child) rest (encodeTrie sha3 (.branch cs))
      (d.val :: ps) key = .ok (.again (iterNode sha3 (cs d) (p ++ [d]) entering ::
        iterNode sha3 (.branch cs) p d.val :: rest, key (some d.val))) := by
  have hv := view_branch sha3 hf
  have hitem : item (encodeTrie sha3 (.branch cs)) d.val =
      .ok (refItem sha3 (encodeTrie sha3 (cs d))) := by rw [hv.item, branchItems_getD]
  have hfirst : firstUsed (encodeTrie sha3 (.branch cs)) (d.val :: ps) = .ok (some d.val) := by
    rw [firstUsed, hitem, ok_bind, isEmpty_refItem (hf d) hd, if_neg Bool.false_ne_true]
  have hnibble : (Fin.ofNat 16 d.val : Nibble) = d := Fin.ext (Nat.mod_eq_of_lt d.isLt)
  have henter : enterChild db (iterNode sha3 (.branch cs) p child) rest
      (encodeTrie sha3 (.branch cs)) (some d.val) =
        .ok (.again (iterNode sha3 (cs d) (p ++ [d]) entering ::
          iterNode sha3 (.branch cs) p d.val :: rest)) := by
    rw [enterChild, if_neg (by omega), hitem, ok_bind, deref_refItem (hf d) hd (hst d).1,
      ok_bind, hnibble, iterNode, extendKey_hexPrefixEncode]
    rfl
  rw [scanPositions, hfirst, ok_bind, henter, ok_bind]
  rfl

lemma range_drop {j : ℕ} (hj : j < 16) : (range 16).drop j = j :: (range 16).drop (j + 1) := by
  rw [drop_eq_getElem_cons (by simpa using hj), getElem_range]

/-- The step from inside a branch looks at the children behind the last one. -/
lemma nextFromTurn_inside (hf : Fits (.branch cs)) (p : List Nibble) (d : Nibble) (rest : Trail) :
    nextFromTurn db (iterNode sha3 (.branch cs) p d.val :: rest, []) =
      scanPositions db (iterNode sha3 (.branch cs) p d.val) rest (encodeTrie sha3 (.branch cs))
        ((range 16).drop (d.val + 1)) fun _ => [] := by
  have hv := view_branch sha3 hf
  have hlt := d.isLt
  have hne : d.val ≠ entering := by rw [entering]; omega
  have hpos : positionsFrom (incrementChild d.val) = (range 16).drop (d.val + 1) := by
    unfold positionsFrom incrementChild
    rw [if_neg (by omega : d.val ≠ 16)]
    by_cases h15 : d.val = 15
    · rw [if_pos h15, h15]
      rfl
    · rw [if_neg h15, if_neg (by omega)]
  rw [nextFromTurn, iterNode, hv.isItem.ofBytes, ok_bind, if_neg hne, hv.itemCount,
    ok_bind, hv.isList, if_neg (by simp), scanChildrenFrom, hpos, keyAfterScan_nil]

variable {p : List Nibble}

/-- A child that is there, and then the children behind it. -/
lemma scanPositions_used_ends (hf : Fits (.branch cs)) (hst : TrieStored sha3 db (.branch cs))
    (hd : cs d ≠ .empty)
    (hafter : TurnEnds db (scanPositions db (iterNode sha3 (.branch cs) p d.val) rest
      (encodeTrie sha3 (.branch cs)) ((range 16).drop (d.val + 1)) fun _ => [])
        ((entriesFrom cs (d.val + 1)).map (packed p) ++ es))
    (key : Option ℕ → List Nibble) (hk : key (some d.val) = k)
    (ih : Explores sha3 db (cs d) (p ++ [d]) k) (child : ℕ) (ps : List ℕ) :
    TurnEnds db (scanPositions db (iterNode sha3 (.branch cs) p child) rest
      (encodeTrie sha3 (.branch cs)) (d.val :: ps) key) (((notBefore k (entries (cs d))).map
        (behind [d]) ++ entriesFrom cs (d.val + 1)).map (packed p) ++ es) := by
  subst hk
  refine Or.inl ⟨_, scanPositions_used hf hst hd p child rest ps key, ?_⟩
  rw [map_append, append_assoc, map_map, packed_behind]
  exact ih _ _ (Comes.of_turn (by rw [nextFromTurn_inside hf]; exact hafter))

/-- **The children of a branch, from one on.**  The induction goes from the last child to the first;
    below each child the step is known. -/
lemma scanPositions_ends (hf : Fits (.branch cs)) (hst : TrieStored sha3 db (.branch cs))
    (hc : Comes db (rest, []) es) (ih : ∀ d, Explores sha3 db (cs d) (p ++ [d]) []) :
    ∀ (m j : ℕ), j + m = 16 → ∀ child,
      TurnEnds db (scanPositions db (iterNode sha3 (.branch cs) p child) rest
        (encodeTrie sha3 (.branch cs)) ((range 16).drop j) fun _ => [])
        ((entriesFrom cs j).map (packed p) ++ es)
  | 0, j, hj, child => by
    obtain rfl : j = 16 := by omega
    exact Or.inl ⟨(rest, []), rfl, hc⟩
  | m + 1, j, hj, child => by
    have hlt : j < 16 := by omega
    obtain ⟨d, rfl⟩ : ∃ d : Nibble, d.val = j := ⟨⟨j, hlt⟩, rfl⟩
    have hnext := scanPositions_ends hf hst hc ih m (d.val + 1) (by omega)
    rw [range_drop hlt, entriesFrom_step, ← notBefore_nil (entries (cs d))]
    by_cases hd : cs d = .empty
    · rw [scanPositions, firstUsed_empty hf hd, hd]
      exact hnext child
    · exact scanPositions_used_ends hf hst hd (hnext d.val) _ rfl (ih d) child _

lemma firstUsed_mem {rlp : Bytes} {i : ℕ} :
    ∀ {ps : List ℕ}, firstUsed rlp ps = .ok (some i) → i ∈ ps
  | [], h => by cases h
  | j :: ps, h => by
    rw [firstUsed] at h
    obtain ⟨item, -, h⟩ := bind_ok.mp h
    split_ifs at h
    · exact mem_cons_of_mem _ (firstUsed_mem h)
    · cases Except.ok.inj h
      exact mem_cons_self

/-- Once a child is passed over nothing is left of the key. -/
lemma scanPositions_drop (db : OverlayDB) (b : IterNode) (rest : Trail) (rlp : Bytes) (d : ℕ)
    (k : List Nibble) :
    scanPositions db b rest rlp ((range 16).drop (d + 1)) (keyAfterScan d k) =
      scanPositions db b rest rlp ((range 16).drop (d + 1)) fun _ => [] := by
  unfold scanPositions
  cases hu : firstUsed rlp ((range 16).drop (d + 1)) with
  | error e => rfl
  | ok used =>
    have hkey : keyAfterScan d k used = [] := by
      rw [keyAfterScan, if_neg]
      rintro rfl
      obtain ⟨i, hi, h⟩ := mem_drop_iff_getElem.mp (firstUsed_mem hu)
      rw [getElem_range] at h
      omega
    rw [ok_bind, ok_bind, hkey]

/-! ### Trees -/

section Cases

variable {p k q : List Nibble} {rest : Trail} {es : List (Bytes × Bytes)}

/-- A pair is passed with what is left of the key, unless all its entries are before the key. -/
lemma comes_pair {i : Bytes} {leaf : Bool} {l : List (List Nibble × Bytes)}
    (hv : PairView (encodeTrie sha3 t) q leaf i) (hc : Comes db (rest, []) es)
    (hnext : ∀ k',
      TurnEnds db (nextPairFrom db (iterNode sha3 t p entering) rest (encodeTrie sha3 t)
      q k') ((notBefore k' l).map (packed (p ++ q)) ++ es)) :
    Comes db (iterNode sha3 t p entering :: rest, k)
      ((notBefore k (l.map (behind q))).map (packed p) ++ es) := by
  refine Comes.of_turn ?_
  rw [iterNode, nextFromTurn_pair hv, notBefore_map_behind, ← iterNode]
  split_ifs with hp hlt
  · rw [map_map, packed_behind]
    exact hnext _
  · have hall := hnext []
    rw [notBefore_nil] at hall
    rw [map_map, packed_behind]
    exact hall
  · exact Or.inl ⟨_, rfl, hc⟩

/-- A leaf is visited unless it is before the key. -/
lemma explores_leaf {v : Bytes} (hf : Fits (.leaf q v)) (hn : (p.length + q.length) % 2 = 0) :
    Explores sha3 db (.leaf q v) p k := by
  intro rest es hc
  have hv := view_leaf sha3 hf
  have hentries : entries (.leaf q v) = [([], v)].map (behind q) := by
    simp [entries, behind]
  rw [hentries]
  refine comes_pair hv hc fun k' => ?_
  rw [nextPairFrom, hv.isLeaf, ok_bind, if_pos rfl, iterNode, extendKey_hexPrefixEncode]
  cases k' with
  | nil =>
    have hvisits : Visits db (iterNode sha3 (.leaf q v) (p ++ q) 0 :: rest) _ :=
      visits_leaf hf (by rw [length_append]; exact hn) hc
    rw [notBefore_nil, map_singleton, packed, append_nil]
    exact Or.inr ⟨_, rfl, hvisits⟩
  | cons d k' => exact Or.inl ⟨_, rfl, by simpa [notBefore] using hc⟩

/-- A run of half bytes is passed with what is left of the key. -/
lemma explores_ext (hf : Fits (.ext q t)) (hst : TrieStored sha3 db (.ext q t)) (ht : t.IsBranch)
    (ih : ∀ k', Explores sha3 db t (p ++ q) k') : Explores sha3 db (.ext q t) p k := by
  intro rest es hc
  have hv := view_ext sha3 hf
  have hne : t ≠ .empty := by
    rintro rfl
    exact ht
  refine comes_pair hv hc fun k' => Or.inl ⟨_, ?_, ih k' rest es hc⟩
  rw [nextPairFrom, hv.isLeaf, ok_bind, if_neg Bool.false_ne_true, hv.item_one, ok_bind,
    deref_refItem hf.2 hne hst.1, ok_bind, iterNode, extendKey_hexPrefixEncode]
  rfl

/-- A branch is entered at the child of the key. -/
lemma explores_branch {cs : Nibble → NodeTrie} (hf : Fits (.branch cs))
    (hst : TrieStored sha3 db (.branch cs)) (ih : ∀ d k', Explores sha3 db (cs d) (p ++ [d]) k') :
    Explores sha3 db (.branch cs) p k := by
  intro rest es hc
  have hv := view_branch sha3 hf
  have hends := scanPositions_ends hf hst hc fun d => ih d []
  have hturn : nextFromTurn db (iterNode sha3 (.branch cs) p entering :: rest, k) =
      seekBranch db (iterNode sha3 (.branch cs) p entering) rest
        (encodeTrie sha3 (.branch cs)) k := by
    rw [nextFromTurn, iterNode, hv.isItem.ofBytes, ok_bind, if_pos rfl, hv.isEmpty,
      if_neg Bool.false_ne_true, hv.itemCount, ok_bind, hv.isList, if_neg (by simp),
      if_neg (by decide)]
  refine Comes.of_turn ?_
  rw [hturn]
  cases k with
  | nil =>
    rw [notBefore_nil, seekBranch, scanChildrenFrom, keyAfterScan_nil, scanPositions,
      show positionsFrom 16 = 16 :: range 16 from rfl, firstUsed_value hf]
    exact hends 16 0 rfl entering
  | cons d k =>
    have hlt := d.isLt
    have hafter := hends (16 - (d.val + 1)) (d.val + 1) (by omega)
    have hpos : positionsFrom d.val = d.val :: (range 16).drop (d.val + 1) := by
      rw [positionsFrom, if_neg (by omega), range_drop hlt]
    rw [notBefore_branch, seekBranch, scanChildrenFrom, hpos]
    by_cases hd : cs d = .empty
    · have hscan := scanPositions_drop db (iterNode sha3 (.branch cs) p entering) rest
        (encodeTrie sha3 (.branch cs)) d.val k
      rw [scanPositions, firstUsed_empty hf hd, ← scanPositions, hscan, hd]
      exact hafter entering
    · exact scanPositions_used_ends hf hst hd (hafter d.val) _ (if_pos rfl) (ih d k) entering _

end Cases

/-- **Below a node an iterator goes through the entries that are not before the key.**  The
    induction is on the tree. -/
lemma explores_tree : ∀ {t : NodeTrie} {n : ℕ} {p k : List Nibble}, Shape ok t n → Fits t →
    TrieStored sha3 db t → (p.length + n) % 2 = 0 → Explores sha3 db t p k
  | .empty, _, p, k, _, _, _, _ => by
    refine fun rest es hc => Comes.again ?_ hc
    rw [nextFromTurn, iterNode, encodeTrie, isItem_rlpNull.ofBytes, ok_bind, if_pos rfl,
      if_pos (by decide)]
  | .leaf q v, n, p, k, hs, hf, _, hn => explores_leaf hf (by rw [hs.1]; exact hn)
  | .ext q t, n, p, k, hs, hf, hst, hn => by
    obtain ⟨-, ht, m, rfl, hsh⟩ := hs
    exact explores_ext hf hst ht fun k' =>
      explores_tree hsh hf.2 hst.2 (by rw [length_append]; omega)
  | .branch cs, n, p, k, hs, hf, hst, hn => by
    obtain ⟨-, m, rfl, hcs⟩ := hs
    exact explores_branch hf hst fun d k' =>
      explores_tree (hcs d) (hf d) (hst d).2 (by rw [length_append, length_singleton]; omega)

end Tree

/-! ## Runs -/

/-- The half bytes are in the order of the bytes. -/
lemma nibblesOf_lt : ∀ {k k' : Bytes}, nibblesOf k < nibblesOf k' ↔ k < k'
  | [], [] | [], b :: k' | b :: k, [] => by simp [nibblesOf]
  | b :: k, c :: k' => by
    have hb := b.toNat_lt
    have hc := c.toNat_lt
    rw [nibblesOf, nibblesOf, cons_lt_cons_iff, cons_lt_cons_iff, cons_lt_cons_iff,
      nibblesOf_lt, UInt8.lt_iff_toNat_lt, ← UInt8.toNat_inj]
    simp only [highNibble, lowNibble, Fin.lt_def, Fin.ext_iff, Fin.ofNat]
    by_cases hk : k < k'
    · simp only [hk, and_true]
      omega
    · simp only [hk, and_false, or_false]
      omega

section Runs

variable {sha3 : Bytes → Uint256} {len : ℕ} {db : OverlayDB} {root : Uint256} {m : BytesMap}

/-- The entries of a tree that holds the map are those of the map. -/
lemma entries_packed {ok : Bytes → Prop} {t : NodeTrie} (hs : Shape ok t (2 * len))
    (hm : ∀ k, lookup t (nibblesOf k) = m.find k) : (entries t).map (packed []) = m.entries := by
  have heven : ∀ e ∈ entries t, nibblesOf (packNibbles e.1) = e.1 := fun e he =>
    nibblesOf_packNibbles (by rw [hs.length_of_lookup (mem_entries.mp he)]; omega)
  refine OrderedMap.eq_of_sorted ?_ m.sorted fun ⟨k, v⟩ => ?_
  · refine pairwise_map.mpr ((entries_sorted t).imp_of_mem fun {e e'} he he' hlt => ?_)
    rw [packed, packed, ← nibblesOf_lt, nil_append, nil_append, heven e he, heven e' he']
    exact hlt
  · rw [← OrderedMap.find_eq_some, ← hm, ← mem_entries, mem_map]
    constructor
    · rintro ⟨e, he, heq⟩
      cases heq
      rw [nil_append, heven e he]
      exact he
    · intro he
      exact ⟨_, he, by rw [packed, nil_append, packNibbles_nibblesOf]⟩

/-- **From the root the iterator goes through the entries that are not before the key.** -/
lemma Represents.comes (h : Represents sha3 len db root m) (k : Bytes) :
    Comes db (rootTrail db root, nibblesOf k) (m.entries.filter fun e => k ≤ e.1) := by
  obtain ⟨t, ht, hm⟩ := h
  have hroot : rootTrail db root = [iterNode sha3 t [] entering] := by
    rw [rootTrail, ht.node]
    rfl
  have hfilter : (notBefore (nibblesOf k) (entries t)).map (packed []) =
      m.entries.filter fun e => k ≤ e.1 := by
    rw [← entries_packed ht.shape hm, filter_map, notBefore]
    refine congrArg _ (filter_congr fun e he => ?_)
    have heven : nibblesOf (packNibbles e.1) = e.1 :=
      nibblesOf_packNibbles (by rw [ht.shape.length_of_lookup (mem_entries.mp he)]; omega)
    simp only [Function.comp_def, packed, nil_append, ← not_lt, ← @nibblesOf_lt _ k, heven]
  have hc := explores_tree (k := nibblesOf k) (p := []) ht.shape ht.fits ht.stored
    (by rw [length_nil]; omega) _ _ comes_nil
  rw [append_nil, hfilter] at hc
  rw [hroot]
  exact hc

/-- An iterator that comes somewhere iterates from there, with enough turns. -/
lemma Comes.iterate {s : Trail × List Nibble} {es : List (Bytes × Bytes)} (h : Comes db s es) :
    ∃ n, ∀ j ≥ n, ∃ trail, nextFrom db j s.1 s.2 = .ok trail ∧ iterate db j j trail = .ok es := by
  obtain ⟨trail, ⟨n1, h1⟩, hv⟩ := h
  obtain ⟨n2, h2⟩ := hv.iterate
  refine ⟨n1 + n2 + es.length, fun j hj => ⟨trail, ?_, ?_⟩⟩
  · rw [show j = n1 + (j - n1) by omega]
    exact h1 _
  · have := h2 (j - n2) j (by omega)
    rwa [show n2 + (j - n2) = j by omega] at this

/-- **From `begin()` the iterator goes through the whole map.** -/
lemma Represents.begins (h : Represents sha3 len db root m) : ∃ n, ∀ j ≥ n, ∃ trail,
    trieBegin db j root = .ok trail ∧ iterate db j j trail = .ok m.entries := by
  obtain ⟨n, hn⟩ := (h.comes []).iterate
  refine ⟨n, fun j hj => ?_⟩
  obtain ⟨trail, ht, hi⟩ := hn j hj
  rw [filter_eq_self.mpr fun e _ => by simpa using not_lt.mp (not_lt_nil e.1)] at hi
  refine ⟨trail, ?_, hi⟩
  rw [trieBegin, ← nextFrom_nil]
  exact ht

end Runs

/-- **Iteration after a run.**  As long as no two records collide, with enough turns an iteration
    from `begin()` goes through the finite map after the run, and one from `lower_bound(k)` through
    its entries that are not before `k`. -/
theorem trieRun_iterates (sha3 : Bytes → Uint256) (len : ℕ) (hlen : len < 2 ^ 30)
    (ops : List TrieOp)
    (hl : ∀ op ∈ ops, op.Legal len) (hf : ∀ op ∈ ops, op.Fits) (db : OverlayDB) :
    Yields (trieRun sha3 ops) db fun root db' =>
      (∃ n, ∀ j ≥ n, ∃ trail, trieBegin db' j root = .ok trail ∧
        iterate db' j j trail = .ok (finalMap ops).entries) ∧
      ∀ k : Bytes, k.length < 2 ^ 30 → ∃ n, ∀ j ≥ n, ∃ trail, lowerBound db' j root k = .ok trail ∧
        iterate db' j j trail = .ok ((finalMap ops).entries.filter fun e => k ≤ e.1) := by
  refine (trieRun_represents hlen hl hf db).weaken fun root db' h _ => ⟨h.begins, fun k hk => ?_⟩
  obtain ⟨n, hn⟩ := (h.comes k).iterate
  refine ⟨n, fun j hj => ?_⟩
  obtain ⟨trail, ht, hi⟩ := hn j hj
  refine ⟨trail, ?_, hi⟩
  rw [lowerBound, nibbleSlice_eq (by omega)]
  exact ht

theorem trieRun_iterates_three : ∃ root db',
    trieRun digitsHash threeChanges emptyStore = .ok root db' ∧
      (∃ n, ∀ j ≥ n, ∃ trail, trieBegin db' j root = .ok trail ∧
        iterate db' j j trail = .ok (finalMap threeChanges).entries) ∧
      ∀ k : Bytes, k.length < 2 ^ 30 → ∃ n, ∀ j ≥ n, ∃ trail, lowerBound db' j root k = .ok trail ∧
        iterate db' j j trail = .ok ((finalMap threeChanges).entries.filter fun e => k ≤ e.1) :=
  trieRun_iterates digitsHash 2 (by decide) _ threeChanges_legal threeChanges_fits emptyStore
    threeChanges_noCollision

end Ybtc
