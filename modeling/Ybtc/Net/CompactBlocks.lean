import Ybtc.Miner.Coinbase

/-!
# Compact block relay

`blockencodings.cpp`.  The sender replaces the transactions of a block by short identifiers, except
for the coinbase.  The receiver looks for them in its mempool and in a list of extra transactions,
asks for those it did not find, and puts the block together.  The main result is
`CompactRelay.block_rebuilt_iff`.
-/

namespace Ybtc

open Fallible List Nat Bool

/-! ## Data -/

/-- `CBlockHeader::IsNull`. -/
def CBlockHeader.isNull (header : CBlockHeader) : Bool := header.nBits == 0

/-- `CTransaction::IsNull`. -/
def CTransaction.isNull (tx : CTransaction) : Bool := tx.vin.isEmpty && tx.vout.isEmpty

/-- `ReadStatus`. -/
inductive ReadStatus
  | ok
  | invalid
  | failed
  | checkBlockFailed
deriving Repr, DecidableEq

/-- `PrefilledTransaction`; the index counts from the last one on. -/
structure PrefilledTransaction where
  index : UInt16
  tx : CTransaction
deriving Repr, DecidableEq

/-- `CBlockHeaderAndShortTxIDs`. -/
structure CBlockHeaderAndShortTxIDs where
  header : CBlockHeader
  nonce : ℕ
  shorttxids : List ℕ
  prefilledtxn : List PrefilledTransaction
deriving Repr, DecidableEq

open CBlockHeaderAndShortTxIDs

/-- `BlockTxCount`. -/
def CBlockHeaderAndShortTxIDs.blockTxCount (cmpctblock : CBlockHeaderAndShortTxIDs) : ℕ :=
  cmpctblock.shorttxids.length + cmpctblock.prefilledtxn.length

/-- `PartiallyDownloadedBlock`; a pointer that is null is `none`. -/
structure PartiallyDownloadedBlock where
  txnAvailable : List (Option CTransaction)
  prefilledCount : ℕ
  mempoolCount : ℕ
  extraCount : ℕ
  header : CBlockHeader
deriving Repr, DecidableEq

/-- A new `PartiallyDownloadedBlock`. -/
def PartiallyDownloadedBlock.fresh : PartiallyDownloadedBlock :=
  ⟨[], 0, 0, 0, ⟨0, Uint256.null, Uint256.null, Uint256.null, 0, 0, 0⟩⟩

/-- What the relay takes from elsewhere: the hash functions, and the buckets of the library's hash
    map. -/
structure CompactRelay where
  H : Hashes
  /-- `GetShortID`: a keyed hash whose key is a hash of the header and the nonce. -/
  getShortID : CBlockHeader → ℕ → Uint256 → ℕ
  /-- Whether an unordered map with these keys has more than 12 of them in the bucket of a key. -/
  bucketOverfull : List ℕ → ℕ → Bool

/-- How `InitData` ends without success. -/
inductive ReadStop
  | status (s : ReadStatus)
  | fault (f : Fault)
deriving Repr, DecidableEq

abbrev Reading := Except ReadStop

/-! ## Vectors -/

/-- `v[i]`. -/
def readAt {α : Type} (v : List α) (i : ℕ) : Reading α :=
  match v[i]? with
  | some a => .ok a
  | none => .error (.fault (.undefined .outOfBounds))

/-- `v[i] = a`. -/
def writeAt {α : Type} (v : List α) (i : ℕ) (a : α) : Reading (List α) :=
  if i < v.length then .ok (v.set i a) else .error (.fault (.undefined .outOfBounds))

/-- `n--` on a `size_t`. -/
def decrement (n : ℕ) : ℕ := (n + 2 ^ 64 - 1) % 2 ^ 64

/-! ## `InitData` -/

/-- `MIN_SERIALIZABLE_TRANSACTION_WEIGHT`. -/
def minSerializableTransactionWeight : ℕ := witnessScaleFactor * 10

/-- The loop over the prefilled transactions, the `i`-th of which comes next; `next` is
    `lastprefilledindex + 1`. -/
def placePrefilled (nShort : ℕ) : List PrefilledTransaction → ℕ → ℕ → List (Option CTransaction) →
      Reading (List (Option CTransaction))
  | [], _, _, txnAvailable => .ok txnAvailable
  | prefilled :: rest, i, next, txnAvailable => do
    let last := next + prefilled.index.toNat
    failIf (prefilled.tx.isNull = true ∨ 2 ^ 16 - 1 < last ∨ nShort + i < last) (.status .invalid)
    let txnAvailable ← writeAt txnAvailable last (some prefilled.tx)
    placePrefilled nShort rest (i + 1) (last + 1) txnAvailable

/-- The inner loop, for a number of turns; the offset has 16 bits. -/
def skipTaken (txnAvailable : List (Option CTransaction)) (i : ℕ) : ℕ → ℕ → Reading ℕ
  | 0, _ => .error (.fault .diverged)
  | turns + 1, indexOffset => do
    let taken ← readAt txnAvailable (i + indexOffset)
    if taken.isSome then skipTaken txnAvailable i turns ((indexOffset + 1) % 2 ^ 16)
    else .ok indexOffset

/-- `shorttxids[id] = position`. -/
def assignShortId (map : List (ℕ × ℕ)) (id position : ℕ) : List (ℕ × ℕ) :=
  (id, position) :: map.filter fun entry => entry.1 != id

/-- What the loops over the known transactions change. -/
structure Matching where
  txnAvailable : List (Option CTransaction)
  haveTxn : List Bool
  mempoolCount : ℕ
  extraCount : ℕ

/-- The first transaction for a position goes there. -/
def Matching.place (m : Matching) (position : ℕ) (tx : Option CTransaction) : Reading Matching := do
  let txnAvailable ← writeAt m.txnAvailable position tx
  let haveTxn ← writeAt m.haveTxn position true
  .ok { m with txnAvailable, haveTxn, mempoolCount := m.mempoolCount + 1 }

/-- The position is requested. -/
def Matching.reset (m : Matching) (position : ℕ) : Reading Matching := do
  let txnAvailable ← writeAt m.txnAvailable position none
  .ok { m with txnAvailable, mempoolCount := decrement m.mempoolCount }

namespace CompactRelay

variable (net : CompactRelay)

/-- The loop over the short identifiers.  All `2 ^ 16` offsets taken is a loop without end. -/
def placeShortIds (txnAvailable : List (Option CTransaction)) :
    List ℕ → ℕ → ℕ → List (ℕ × ℕ) → Reading (List (ℕ × ℕ))
  | [], _, _, map => .ok map
  | id :: ids, i, indexOffset, map => do
    let indexOffset ← skipTaken txnAvailable i (2 ^ 16) indexOffset
    let map := assignShortId map id ((i + indexOffset) % 2 ^ 16)
    failIf (net.bucketOverfull (map.map Prod.fst) id = true) (.status .failed)
    placeShortIds txnAvailable ids (i + 1) indexOffset map

/-- A transaction of the mempool. -/
def matchMempoolTx (shorttxids : List (ℕ × ℕ)) (shortid : ℕ) (tx : CTransaction) (m : Matching) :
    Reading Matching :=
  match shorttxids.lookup shortid with
  | none => .ok m
  | some position => do
    let taken ← readAt m.haveTxn position
    if taken then do
      let current ← readAt m.txnAvailable position
      if current.isSome then m.reset position else .ok m
    else m.place position (some tx)

/-- An extra transaction, which may be the one that is there already. -/
def matchExtraTx (shorttxids : List (ℕ × ℕ)) (shortid : ℕ) (tx : Option CTransaction)
    (m : Matching) : Reading Matching :=
  match shorttxids.lookup shortid with
  | none => .ok m
  | some position => do
    let taken ← readAt m.haveTxn position
    if taken then do
      let current ← readAt m.txnAvailable position
      match current, tx with
      | none, _ => .ok m
      | some _, none => .error (.fault (.undefined .nullPointer))
      | some current, some tx =>
        if net.H.getWitnessHash current ≠ net.H.getWitnessHash tx then do
          let m ← m.reset position
          .ok { m with extraCount := decrement m.extraCount }
        else .ok m
    else do
      let m ← m.place position tx
      .ok { m with extraCount := m.extraCount + 1 }

/-- The loop over `vTxHashes`, which has every transaction of the mempool with its witness hash. -/
def matchMempool (header : CBlockHeader) (nonce : ℕ) (shorttxids : List (ℕ × ℕ)) :
    List CTransaction → Matching → Reading Matching
  | [], m => .ok m
  | tx :: rest, m => do
    let m ← matchMempoolTx shorttxids (net.getShortID header nonce (net.H.getWitnessHash tx)) tx m
    if m.mempoolCount = shorttxids.length then .ok m
    else matchMempool header nonce shorttxids rest m

/-- The loop over `extra_txn`. -/
def matchExtra (header : CBlockHeader) (nonce : ℕ) (shorttxids : List (ℕ × ℕ)) :
    List (Uint256 × Option CTransaction) → Matching → Reading Matching
  | [], m => .ok m
  | (hash, tx) :: rest, m => do
    let m ← net.matchExtraTx shorttxids (net.getShortID header nonce hash) tx m
    if m.mempoolCount = shorttxids.length then .ok m
    else matchExtra header nonce shorttxids rest m

variable (partialBlock : PartiallyDownloadedBlock)

/-- **`InitData`.**  What it returns besides `READ_STATUS_OK` is the error. -/
def initData (cmpctblock : CBlockHeaderAndShortTxIDs)
    (vTxHashes : List CTransaction) (extraTxn : List (Uint256 × Option CTransaction)) :
    Reading PartiallyDownloadedBlock := do
  failIf (cmpctblock.header.isNull = true ∨
    (cmpctblock.shorttxids = [] ∧ cmpctblock.prefilledtxn = [])) (.status .invalid)
  failIf (maxBlockWeight / minSerializableTransactionWeight < cmpctblock.blockTxCount)
    (.status .invalid)
  failIf (¬ (partialBlock.header.isNull = true ∧ partialBlock.txnAvailable = []))
    (.fault .assertion)
  let txnAvailable ← placePrefilled cmpctblock.shorttxids.length cmpctblock.prefilledtxn 0 0
    (replicate cmpctblock.blockTxCount none)
  let shorttxids ← net.placeShortIds txnAvailable cmpctblock.shorttxids 0 0 []
  failIf (shorttxids.length ≠ cmpctblock.shorttxids.length) (.status .failed)
  let m ← net.matchMempool cmpctblock.header cmpctblock.nonce shorttxids vTxHashes
    ⟨txnAvailable, replicate txnAvailable.length false, partialBlock.mempoolCount,
      partialBlock.extraCount⟩
  let m ← net.matchExtra cmpctblock.header cmpctblock.nonce shorttxids extraTxn m
  .ok ⟨m.txnAvailable, cmpctblock.prefilledtxn.length, m.mempoolCount, m.extraCount,
    cmpctblock.header⟩

/-! ## `FillBlock` -/

/-- `IsTxAvailable`. -/
def isTxAvailable (index : ℕ) : Except Fault Bool :=
  if partialBlock.header.isNull then .error .assertion
  else
    match partialBlock.txnAvailable[index]? with
    | none => .error .assertion
    | some tx => .ok tx.isSome

/-- The loop of `FillBlock`: the transactions, and those of `vtx_missing` that are left over. -/
def fillTransactions :
    List (Option CTransaction) → List CTransaction → Option (List CTransaction × List CTransaction)
  | [], missing => some ([], missing)
  | some tx :: rest, missing => do
    let (vtx, left) ← fillTransactions rest missing
    some (tx :: vtx, left)
  | none :: _, [] => none
  | none :: rest, tx :: missing => do
    let (vtx, left) ← fillTransactions rest missing
    some (tx :: vtx, left)

/-- **`FillBlock`**, with the block it leaves; there is none when a transaction is missing. -/
def fillBlock (vtxMissing : List CTransaction) : Except Fault (ReadStatus × Option CBlock) :=
  if partialBlock.header.isNull then .error .assertion
  else
    match fillTransactions partialBlock.txnAvailable vtxMissing with
    | none => .ok (.invalid, none)
    | some (vtx, left) =>
      let block : CBlock := ⟨partialBlock.header, vtx, false⟩
      if left ≠ [] then .ok (.invalid, some block)
      else
        match checkBlock net.H block true true with
        | .ok block' => .ok (.ok, some block')
        | .error (.reject r) =>
          .ok (if r.corruptionPossible then .failed else .checkBlockFailed, some block)
        | .error (.fault f) => .error f

/-! ## The sender -/

/-- The hash the sender identifies a transaction by. -/
def senderHash (fUseWTXID : Bool) (tx : CTransaction) : Uint256 :=
  if fUseWTXID then net.H.getWitnessHash tx else net.H.txid tx

/-- The short identifier of a transaction of a block. -/
def senderID (block : CBlock) (nonce : ℕ) (fUseWTXID : Bool) (tx : CTransaction) : ℕ :=
  net.getShortID block.getBlockHeader nonce (net.senderHash fUseWTXID tx)

/-- The constructor of `CBlockHeaderAndShortTxIDs`; without a coinbase `size() - 1` wraps. -/
def compact (block : CBlock) (nonce : ℕ) (fUseWTXID : Bool) :
    Except Fault CBlockHeaderAndShortTxIDs :=
  match block.vtx with
  | [] => .error (.thrown (.logicError "cannot create std::vector larger than max_size()"))
  | coinbase :: rest => .ok
      ⟨block.getBlockHeader, nonce, rest.map (net.senderID block nonce fUseWTXID), [⟨0, coinbase⟩]⟩

end CompactRelay

/-! ## No message reaches outside the list -/

/-- An access out of bounds. -/
def OutOfBounds (e : ReadStop) : Prop := e = .fault (.undefined .outOfBounds)

section Bounds

variable {α : Type} {bad : ReadStop → Prop} {v : List α} {i : ℕ}

/-- A read inside the list. -/
lemma readAt_avoids (h : i < v.length) : Avoids bad (readAt v i) fun a => v[i]? = some a := by
  unfold readAt
  rw [getElem?_eq_getElem h]
  exact .ok rfl

/-- A write inside the list. -/
lemma writeAt_avoids (h : i < v.length) (a : α) :
    Avoids bad (writeAt v i a) fun v' => v' = v.set i a := by
  unfold writeAt
  rw [if_pos h]
  exact .ok rfl

end Bounds

/-- The number of places that are free. -/
def freeCount (v : List (Option CTransaction)) : ℕ := v.countP Option.isNone

variable (v : List (Option CTransaction))

lemma freeCount_le_set (i : ℕ) (tx : Option CTransaction) :
    freeCount v ≤ freeCount (v.set i tx) + 1 := by
  induction v generalizing i with
  | nil => exact zero_le _
  | cons a v ih =>
    cases i with
    | zero =>
      rw [set_cons_zero, freeCount, freeCount, countP_cons, countP_cons]
      split_ifs <;> omega
    | succ i =>
      have := ih i
      rw [freeCount, freeCount] at this
      rw [set_cons_succ, freeCount, freeCount, countP_cons, countP_cons]
      omega

/-- The prefilled transactions take at most a place each. -/
lemma placePrefilled_avoids {nShort total : ℕ} :
    ∀ {prefilled : List PrefilledTransaction} {i next : ℕ} {v : List (Option CTransaction)},
      v.length = nShort + total → i + prefilled.length ≤ total →
      Avoids OutOfBounds (placePrefilled nShort prefilled i next v) fun v' =>
        v'.length = nShort + total ∧ freeCount v ≤ freeCount v' + prefilled.length
  | [], i, next, v, hv, _ => .ok ⟨hv, le_add_right _ _⟩
  | p :: prefilled, i, next, v, hv, hi => by
    rw [length_cons] at hi
    refine .bind (.failIf nofun) fun _ hvalid => ?_
    refine .bind (writeAt_avoids (by omega) _) ?_
    rintro _ rfl
    refine (placePrefilled_avoids (by rw [length_set, hv]) (by omega)).mono ?_
    rintro v' ⟨hlength, hfree⟩
    have := freeCount_le_set v (next + p.index.toNat) (some p.tx)
    rw [length_cons]
    exact ⟨hlength, by omega⟩

lemma freeCount_drop_le {i j : ℕ} (h : i ≤ j) : freeCount (v.drop j) ≤ freeCount (v.drop i) := by
  have hdrop : v.drop j = (v.drop i).drop (j - i) := by
    rw [drop_drop]
    congr 1
    omega
  rw [hdrop]
  exact (drop_sublist _ _).countP_le

variable {v : List (Option CTransaction)} {tx : Option CTransaction}

lemma freeCount_drop_succ {i : ℕ} (h : v[i]? = some tx) :
    freeCount (v.drop i) = freeCount (v.drop (i + 1)) + if tx.isNone then 1 else 0 := by
  obtain ⟨hi, rfl⟩ := List.getElem?_eq_some_iff.mp h
  rw [drop_eq_getElem_cons hi, freeCount, countP_cons]
  rfl

/-- **The inner loop.**  As long as a place behind the current one is free it stays inside the list,
    even where the offset wraps. -/
lemma skipTaken_avoids {i n : ℕ} (hn : 0 < n) :
    ∀ {turns offset : ℕ}, n ≤ freeCount (v.drop (i + offset)) →
      Avoids OutOfBounds (skipTaken v i turns offset) fun offset' =>
        i + offset' < v.length ∧ n ≤ freeCount (v.drop (i + offset' + 1)) + 1
  | 0, offset, _ => .of_error nofun
  | turns + 1, offset, hfree => by
    have hlt : i + offset < v.length := by
      by_contra hge
      rw [drop_eq_nil_of_le (Nat.le_of_not_lt hge)] at hfree
      exact absurd hfree (Nat.not_le.mpr hn)
    refine .bind (readAt_avoids hlt) fun tx htx => ?_
    have hsucc := freeCount_drop_succ htx
    split_ifs with htaken
    · -- The place is taken; the offset grows or starts again from zero.
      have hle : i + (offset + 1) % 2 ^ 16 ≤ i + offset + 1 := by omega
      have hmono := freeCount_drop_le v hle
      rw [Option.isNone_eq_false_iff.mpr htaken, if_neg Bool.false_ne_true] at hsucc
      exact skipTaken_avoids hn (by omega)
    · refine .ok ⟨hlt, ?_⟩
      split_ifs at hsucc <;> omega

variable {map : List (ℕ × ℕ)} {position id : ℕ}

lemma mem_of_lookup (h : map.lookup id = some position) : (id, position) ∈ map := by
  obtain ⟨front, back, hmap, -⟩ := lookup_eq_some_iff.mp h
  rw [hmap]
  exact mem_append_right _ mem_cons_self

/-- The positions of a map of identifiers. -/
def PositionsBelow (n : ℕ) (map : List (ℕ × ℕ)) : Prop := ∀ entry ∈ map, entry.2 < n

lemma PositionsBelow.assign {n : ℕ} (h : PositionsBelow n map) (hposition : position < n) :
    PositionsBelow n (assignShortId map id position) := by
  intro entry hentry
  rcases mem_cons.mp hentry with rfl | hentry
  · exact hposition
  · exact h entry (mem_of_mem_filter hentry)

/-- What the loops over the known transactions keep: the lengths, and what is in each place. -/
structure Matching.Holds (n : ℕ) (R : ℕ → Option CTransaction → Prop) (m : Matching) : Prop where
  available : m.txnAvailable.length = n
  have_ : m.haveTxn.length = n
  slots : ∀ i slot, m.txnAvailable[i]? = some slot → R i slot

namespace Matching.Holds

variable {n position : ℕ} {R : ℕ → Option CTransaction → Prop} {m : Matching}
  {tx : Option CTransaction} {bad : ReadStop → Prop}

/-- The places after one of them was written. -/
lemma set (h : m.Holds n R) (htx : R position tx) (i : ℕ) (slot : Option CTransaction)
    (hslot : (m.txnAvailable.set position tx)[i]? = some slot) : R i slot := by
  rw [getElem?_set] at hslot
  split_ifs at hslot with heq hlt
  · subst heq
    cases hslot
    exact htx
  · exact h.slots i slot hslot

lemma place (h : m.Holds n R) (hposition : position < n) (htx : R position tx) :
    Avoids bad (m.place position tx) (Matching.Holds n R) := by
  refine .bind (writeAt_avoids (h.available ▸ hposition) _) ?_
  rintro _ rfl
  refine .bind (writeAt_avoids (h.have_ ▸ hposition) _) ?_
  rintro _ rfl
  exact .ok ⟨by rw [length_set, h.available], by rw [length_set, h.have_], h.set htx⟩

lemma reset (h : m.Holds n R) (hposition : position < n) (hfree : R position none) :
    Avoids bad (m.reset position) (Matching.Holds n R) := by
  refine .bind (writeAt_avoids (h.available ▸ hposition) _) ?_
  rintro _ rfl
  exact .ok ⟨by rw [length_set, h.available], h.have_, h.set hfree⟩

end Matching.Holds

namespace CompactRelay

variable {net : CompactRelay} {n : ℕ} {map : List (ℕ × ℕ)}

/-- The short identifiers find free places in the list. -/
lemma placeShortIds_avoids :
    ∀ {ids : List ℕ} {i offset : ℕ} {map : List (ℕ × ℕ)},
      ids.length ≤ freeCount (v.drop (i + offset)) → PositionsBelow v.length map →
      Avoids OutOfBounds (net.placeShortIds v ids i offset map) (PositionsBelow v.length)
  | [], i, offset, map, _, hmap => .ok hmap
  | id :: ids, i, offset, map, hfree, hmap => by
    refine .bind (skipTaken_avoids (succ_pos _) hfree) ?_
    rintro offset' ⟨hlt, hfree'⟩
    refine .bind (.failIf nofun) fun _ _ => ?_
    have hposition : (i + offset') % 2 ^ 16 < v.length := (mod_le _ _).trans_lt hlt
    refine placeShortIds_avoids ?_ (hmap.assign hposition)
    rw [add_right_comm i 1 offset']
    exact le_of_succ_le_succ hfree'

section Matching

variable {R : ℕ → Option CTransaction → Prop} {bad : ReadStop → Prop} {m : Matching} {shortid : ℕ}

/-- A transaction of the mempool may stand in the place that its identifier has. -/
lemma matchMempoolTx_avoids {tx : CTransaction} (hfree : ∀ i, R i none)
    (hmap : ∀ position, (shortid, position) ∈ map → position < n ∧ R position (some tx))
    (h : m.Holds n R) : Avoids bad (matchMempoolTx map shortid tx m) (Matching.Holds n R) := by
  unfold matchMempoolTx
  cases hfind : map.lookup shortid with
  | none => exact .ok h
  | some position =>
    obtain ⟨hposition, htx⟩ := hmap position (mem_of_lookup hfind)
    refine .bind (readAt_avoids (h.have_ ▸ hposition)) fun taken _ => ?_
    split_ifs
    · refine .bind (readAt_avoids (h.available ▸ hposition)) fun current _ => ?_
      split_ifs
      · exact h.reset hposition (hfree position)
      · exact .ok h
    · exact h.place hposition htx

/-- So may an extra transaction. -/
lemma matchExtraTx_avoids (hfree : ∀ i, R i none)
    (hmap : ∀ position, (shortid, position) ∈ map → position < n ∧ R position tx ∧
      (tx = none → ¬ bad (.fault (.undefined .nullPointer))))
    (h : m.Holds n R) : Avoids bad (net.matchExtraTx map shortid tx m) (Matching.Holds n R) := by
  unfold matchExtraTx
  cases hfind : map.lookup shortid with
  | none => exact .ok h
  | some position =>
    obtain ⟨hposition, htx, hnull⟩ := hmap position (mem_of_lookup hfind)
    refine .bind (readAt_avoids (h.have_ ▸ hposition)) fun taken _ => ?_
    split_ifs
    · refine .bind (readAt_avoids (h.available ▸ hposition)) fun current _ => ?_
      cases current with
      | none => exact .ok h
      | some current =>
        cases tx with
        | none => exact .of_error (hnull rfl)
        | some tx =>
          dsimp only
          split_ifs
          · exact .bind (h.reset hposition (hfree position))
              fun m' hm' => .ok ⟨hm'.available, hm'.have_, hm'.slots⟩
          · exact .ok h
    · exact .bind (h.place hposition htx) fun m' hm' => .ok ⟨hm'.available, hm'.have_, hm'.slots⟩

end Matching

variable {bad : ReadStop → Prop} {P : Matching → Prop} {header : CBlockHeader} {nonce : ℕ}

/-- The loop over the mempool keeps what its body keeps. -/
lemma matchMempool_rule : ∀ {pool : List CTransaction},
      (∀ tx ∈ pool, ∀ m, P m → Avoids bad
        (matchMempoolTx map (net.getShortID header nonce (net.H.getWitnessHash tx)) tx m) P) →
      ∀ {m : Matching}, P m → Avoids bad (net.matchMempool header nonce map pool m) P
  | [], _, m, hm => .ok hm
  | tx :: pool, hstep, m, hm => by
    refine .bind (hstep tx mem_cons_self m hm) fun m' hm' => ?_
    split_ifs
    · exact .ok hm'
    · exact matchMempool_rule (fun tx' htx' => hstep tx' (mem_cons_of_mem _ htx')) hm'

/-- The loop over the extra transactions keeps what its body keeps. -/
lemma matchExtra_rule : ∀ {extra : List (Uint256 × Option CTransaction)},
      (∀ entry ∈ extra, ∀ m, P m → Avoids bad
        (net.matchExtraTx map (net.getShortID header nonce entry.1) entry.2 m) P) →
      ∀ {m : Matching}, P m → Avoids bad (net.matchExtra header nonce map extra m) P
  | [], _, m, hm => .ok hm
  | entry :: extra, hstep, m, hm => by
    refine .bind (hstep entry mem_cons_self m hm) fun m' hm' => ?_
    split_ifs
    · exact .ok hm'
    · exact matchExtra_rule (fun e he => hstep e (mem_cons_of_mem _ he)) hm'

/-- **No message makes `InitData` read or write outside its lists.** -/
lemma initData_inBounds (partialBlock : PartiallyDownloadedBlock)
    (cmpctblock : CBlockHeaderAndShortTxIDs) (vTxHashes : List CTransaction)
    (extraTxn : List (Uint256 × Option CTransaction)) :
    Avoids OutOfBounds (net.initData partialBlock cmpctblock vTxHashes extraTxn) fun _ => True := by
  refine .bind (.failIf nofun) fun _ _ => .bind (.failIf nofun) fun _ _ => ?_
  refine .bind (.failIf nofun) fun _ _ => ?_
  refine .bind (placePrefilled_avoids length_replicate (by rw [zero_add])) ?_
  rintro v ⟨-, hfree⟩
  have hcount : freeCount (replicate cmpctblock.blockTxCount none)
      = cmpctblock.blockTxCount := by
    rw [freeCount, countP_replicate]
    rfl
  rw [hcount, blockTxCount] at hfree
  refine .bind (placeShortIds_avoids (le_of_add_le_add_right hfree) nofun) fun map hmap => ?_
  refine .bind (.failIf nofun) fun _ _ => ?_
  have hfree : ∀ i : ℕ, (fun (_ : ℕ) (_ : Option CTransaction) => True) i none := fun _ => trivial
  refine .bind (matchMempool_rule (fun tx _ m hm => matchMempoolTx_avoids hfree
    (fun _ hmem => ⟨hmap _ hmem, trivial⟩) hm)
    ⟨rfl, length_replicate, fun _ _ _ => trivial⟩) fun m hm => ?_
  exact .bind (matchExtra_rule (fun entry _ m hm => matchExtraTx_avoids hfree
    (fun _ hmem => ⟨hmap _ hmem, trivial, nofun⟩) hm) hm) fun _ _ => .ok trivial

/-! ## A transfer -/

/-- A block on its way to a receiver.  It has passed the checks the miner runs on a new block; no
    two transactions share a short identifier, and no bucket is overfull. -/
structure Transfer (net : CompactRelay) where
  block : CBlock
  nonce : ℕ
  fUseWTXID : Bool
  vTxHashes : List CTransaction
  extraTxn : List (Uint256 × Option CTransaction)
  unmarked : block.fChecked = false
  checked : ∃ block', checkBlock net.H block false false = .ok block'
  distinct : (block.vtx.tail.map (net.senderID block nonce fUseWTXID)).Nodup
  mempool_distinct : ∀ tx ∈ block.vtx.tail, ∀ tx' ∈ vTxHashes,
    net.getShortID block.getBlockHeader nonce (net.H.getWitnessHash tx')
        = net.senderID block nonce fUseWTXID tx → tx' = tx
  extra_distinct : ∀ tx ∈ block.vtx.tail, ∀ entry ∈ extraTxn,
    net.getShortID block.getBlockHeader nonce entry.1 = net.senderID block nonce fUseWTXID tx →
      entry.2 = some tx
  buckets : ∀ keys id, keys ⊆ block.vtx.tail.map (net.senderID block nonce fUseWTXID) →
    net.bucketOverfull keys id = false

/-- The transactions of a block for which `IsTxAvailable` is false. -/
def missing (partialBlock : PartiallyDownloadedBlock) (vtx : List CTransaction) :
    List CTransaction :=
  (range vtx.length).filterMap fun i =>
    match isTxAvailable partialBlock i with
    | .ok false => vtx[i]?
    | _ => none

/-- `FillBlock` with the missing transactions has the block again; its status is that of
    `CheckBlock`. -/
def Transfer.Fills (t : net.Transfer) (partialBlock : PartiallyDownloadedBlock) : Prop :=
  ∃ status block', net.fillBlock partialBlock (missing partialBlock t.block.vtx)
      = .ok (status, some block') ∧
    block'.getBlockHeader = t.block.getBlockHeader ∧ block'.vtx = t.block.vtx ∧
    (status = .ok ↔ ∃ block'', checkBlock net.H t.block true true = .ok block'')

/-- `InitData` succeeds, no assertion fails, and `FillBlock` completes the block. -/
def Transfer.Rebuilds (t : net.Transfer) : Prop :=
  ∃ cmpctblock partialBlock, net.compact t.block t.nonce t.fUseWTXID = .ok cmpctblock ∧
    net.initData .fresh cmpctblock t.vTxHashes t.extraTxn = .ok partialBlock ∧
    (∀ i < t.block.vtx.length, ∃ available, isTxAvailable partialBlock i = .ok available) ∧
    t.Fills partialBlock

/-! ### Positions -/

/-- Only the coinbase is there before the mempool is searched. -/
def onlyCoinbase (coinbase : CTransaction) (n : ℕ) : List (Option CTransaction) :=
  some coinbase :: replicate n none

variable {coinbase : CTransaction}

lemma skipTaken_onlyCoinbase {n i offset : ℕ} (turns : ℕ) (hi : i < n)
    (hoffset : offset = 1 ∨ i = 0 ∧ offset = 0) :
    skipTaken (onlyCoinbase coinbase n) i (turns + 2) offset = .ok 1 := by
  have hfree : readAt (onlyCoinbase coinbase n) (i + 1) = .ok none := by
    simp [readAt, onlyCoinbase, hi]
  rcases hoffset with rfl | ⟨rfl, rfl⟩
  · rw [skipTaken, hfree]
    rfl
  · have hfirst : readAt (onlyCoinbase coinbase n) (0 + 0) = .ok (some coinbase) := rfl
    rw [skipTaken, hfirst, ok_bind, if_pos Option.isSome_some]
    show skipTaken _ 0 (turns + 1) 1 = .ok 1
    rw [skipTaken, hfree]
    rfl

/-- **The identifiers get the positions behind the coinbase**, in order. -/
lemma placeShortIds_onlyCoinbase {n : ℕ} {all : List ℕ}
    (hn : n < 2 ^ 16 - 1) (hbuckets : ∀ keys id, keys ⊆ all → net.bucketOverfull keys id = false) :
    ∀ {ids : List ℕ} {i offset : ℕ} {map : List (ℕ × ℕ)}, i + ids.length ≤ n →
      offset = 1 ∨ i = 0 ∧ offset = 0 → (map.map Prod.fst ++ ids).Nodup →
      map.map Prod.fst ++ ids ⊆ all →
      Avoids (fun _ => True) (net.placeShortIds (onlyCoinbase coinbase n) ids i offset map)
        fun map' => map'.length = map.length + ids.length ∧ ∀ entry ∈ map', entry ∈ map ∨
          ∃ k, ids[k]? = some entry.1 ∧ entry.2 = i + k + 1
  | [], i, offset, map, _, _, _, _ => .ok ⟨rfl, fun entry hentry => .inl hentry⟩
  | id :: ids, i, offset, map, hi, hoffset, hnodup, hall => by
    rw [length_cons] at hi
    have hnew : ∀ entry ∈ map, entry.1 ≠ id := by
      intro entry hentry heq
      have hdisjoint := disjoint_of_nodup_append hnodup
      exact hdisjoint (mem_map_of_mem hentry) (heq ▸ mem_cons_self)
    have hassign : assignShortId map id ((i + 1) % 2 ^ 16) = (id, i + 1) :: map := by
      rw [assignShortId, mod_eq_of_lt (by omega), filter_eq_self.mpr]
      exact fun entry hentry => bne_iff_ne.mpr (hnew entry hentry)
    have hperm : ((map.map Prod.fst) ++ id :: ids).Perm
        (((id, i + 1) :: map).map Prod.fst ++ ids) := perm_middle
    have hsubset : ((id, i + 1) :: map).map Prod.fst ++ ids ⊆ all :=
      List.Subset.trans hperm.symm.subset hall
    have hskip : skipTaken (onlyCoinbase coinbase n) i (2 ^ 16) offset = .ok 1 :=
      skipTaken_onlyCoinbase (2 ^ 16 - 2) (by omega) hoffset
    rw [placeShortIds, hskip, ok_bind, hassign]
    refine .bind (.passes ?_) fun _ _ => ?_
    · rw [hbuckets _ id fun key hkey => hsubset (mem_append_left _ hkey)]
      exact false_ne_true
    · refine (placeShortIds_onlyCoinbase hn hbuckets (by omega) (.inl rfl)
        (hperm.nodup hnodup) hsubset).mono ?_
      rintro map' ⟨hlength, hentries⟩
      refine ⟨by rw [hlength, length_cons, length_cons]; omega, fun entry hentry => ?_⟩
      rcases hentries entry hentry with hold | ⟨k, hk, hposition⟩
      · rcases mem_cons.mp hold with rfl | hold
        · exact .inr ⟨0, rfl, rfl⟩
        · exact .inl hold
      · exact .inr ⟨k + 1, hk, by omega⟩

end CompactRelay

/-! ### Places -/

/-- A place is free or has its transaction. -/
def Right (vtx : List CTransaction) (i : ℕ) (slot : Option CTransaction) : Prop :=
  slot = none ∨ slot = vtx[i]?

/-- Filling the free places with the transactions that belong there. -/
lemma fillTransactions_missing : ∀ {vtx : List CTransaction} {slots : List (Option CTransaction)},
    slots.length = vtx.length → (∀ i slot, slots[i]? = some slot → Right vtx i slot) →
    CompactRelay.fillTransactions slots ((range vtx.length).filterMap fun i =>
      if slots[i]? = some none then vtx[i]? else none) = some (vtx, [])
  | [], [], _, _ => rfl
  | tx :: vtx, slot :: slots, hlength, hright => by
    have ih := fillTransactions_missing (Nat.succ.inj hlength) fun i => hright (i + 1)
    rw [length_cons, range_succ_eq_map, filterMap_cons, filterMap_map]
    rcases hright 0 slot rfl with rfl | rfl
    · simp [CompactRelay.fillTransactions, ih]
    · simp [CompactRelay.fillTransactions, ih]

namespace CompactRelay

variable {net : CompactRelay} {map : List (ℕ × ℕ)} (t : net.Transfer)

/-- The map leads to the transaction with the identifier. -/
def Transfer.Leads (t : net.Transfer) (map : List (ℕ × ℕ)) : Prop :=
  ∀ entry ∈ map, ∃ tx ∈ t.block.vtx.tail, t.block.vtx[entry.2]? = some tx ∧
    entry.1 = net.senderID t.block t.nonce t.fUseWTXID tx

variable {t} {bad : ReadStop → Prop}

variable {cmpctblock : CBlockHeaderAndShortTxIDs}

/-- The place of a transaction that has the identifier of another one. -/
lemma Transfer.Leads.place (hmap : t.Leads map) {shortid : ℕ}
    {slot : Option CTransaction} (hmem : (shortid, position) ∈ map)
    (hsame : ∀ tx ∈ t.block.vtx.tail, shortid = net.senderID t.block t.nonce t.fUseWTXID tx →
      slot = some tx) :
    position < t.block.vtx.length ∧ slot ≠ none ∧ Right t.block.vtx position slot := by
  obtain ⟨tx, htail, htx, hid⟩ := hmap _ hmem
  obtain rfl := hsame tx htail hid
  exact ⟨(List.getElem?_eq_some_iff.mp htx).1, nofun, .inr htx.symm⟩

/-! ### The whole transfer -/

variable (t : net.Transfer)

lemma Transfer.coinbase_first :
    ∃ coinbase rest, t.block.vtx = coinbase :: rest ∧ coinbase.isNull = false := by
  obtain ⟨block', hchecked⟩ := t.checked
  obtain ⟨hblock, -⟩ := checkBlock_ok t.unmarked hchecked
  obtain ⟨coinbase, rest, hvtx, -, -⟩ := hblock.coinbase
  refine ⟨coinbase, rest, hvtx, ?_⟩
  have hvin := hblock.vin coinbase (hvtx ▸ mem_cons_self)
  rw [CTransaction.isNull, isEmpty_eq_false_iff.mpr hvin, Bool.false_and]

lemma Transfer.length_lt : t.block.vtx.length < 2 ^ 16 - 1 := by
  obtain ⟨block', hchecked⟩ := t.checked
  have hbound := checkBlock_length t.unmarked hchecked
  unfold witnessScaleFactor maxBlockWeight at hbound
  omega

/-- **`InitData` succeeds**, and every place is free or has its transaction. -/
lemma Transfer.initData_right (hbits : t.block.nBits ≠ 0)
    (h : net.compact t.block t.nonce t.fUseWTXID = .ok cmpctblock) :
    Avoids (fun _ => True) (net.initData .fresh cmpctblock t.vTxHashes t.extraTxn)
      fun partialBlock => partialBlock.header = t.block.getBlockHeader ∧
        partialBlock.txnAvailable.length = t.block.vtx.length ∧
        ∀ i slot, partialBlock.txnAvailable[i]? = some slot → Right t.block.vtx i slot := by
  obtain ⟨coinbase, rest, hvtx, hnull⟩ := t.coinbase_first
  have hlength := t.length_lt
  have hdistinct := t.distinct
  have hbuckets := t.buckets
  rw [hvtx, length_cons] at hlength
  rw [hvtx, tail_cons] at hdistinct hbuckets
  rw [compact, hvtx] at h
  cases h
  have hheader : (t.block.getBlockHeader).isNull = false := beq_eq_false_iff_ne.mpr hbits
  have hcount : rest.length + 1 ≤ maxBlockWeight / minSerializableTransactionWeight := by
    unfold maxBlockWeight minSerializableTransactionWeight witnessScaleFactor
    omega
  have hprefilled : placePrefilled (rest.map (net.senderID t.block t.nonce t.fUseWTXID)).length
      [⟨0, coinbase⟩] 0 0 (replicate (rest.length + 1) none)
        = .ok (onlyCoinbase coinbase rest.length) := by
    simp [placePrefilled, hnull, failIf, writeAt, onlyCoinbase, replicate_succ]
  unfold initData
  refine .bind (.passes ?_) fun _ _ => .bind (.passes ?_) fun _ _ => ?_
  · simp [hheader]
  · simpa [blockTxCount] using hcount
  refine .bind (.passes (not_not.mpr ⟨rfl, rfl⟩)) fun _ _ => ?_
  dsimp only [blockTxCount]
  rw [length_map] at hprefilled ⊢
  rw [length_singleton, hprefilled, ok_bind]
  refine .bind (placeShortIds_onlyCoinbase (by omega) hbuckets (by simp) (.inr ⟨rfl, rfl⟩)
    (by simpa using hdistinct) (List.Subset.refl _)) ?_
  rintro map ⟨hmapLength, hentries⟩
  have hleads : t.Leads map := by
    intro entry hentry
    rcases hentries entry hentry with hnil | ⟨k, hk, hposition⟩
    · cases hnil
    · rw [getElem?_map, Option.map_eq_some_iff] at hk
      obtain ⟨tx, htx, hid⟩ := hk
      rw [hvtx, hposition, zero_add]
      exact ⟨tx, mem_of_getElem? htx, htx, hid.symm⟩
  refine .bind (.passes (not_not.mpr (by simpa using hmapLength))) fun _ _ => ?_
  have hfree : ∀ i, Right t.block.vtx i none := fun _ => .inl rfl
  have hstart : Matching.Holds t.block.vtx.length (Right t.block.vtx)
      ⟨onlyCoinbase coinbase rest.length,
        replicate (onlyCoinbase coinbase rest.length).length false, 0, 0⟩ := by
    refine ⟨by simp [hvtx, onlyCoinbase], by simp [hvtx, onlyCoinbase], fun i slot hslot => ?_⟩
    cases i with
    | zero => exact .inr (by rw [hvtx]; exact (Option.some.inj hslot).symm)
    | succ i => exact .inl (eq_of_mem_replicate (mem_of_getElem? hslot))
  refine .bind (matchMempool_rule (fun tx htx m hm => matchMempoolTx_avoids hfree
    (fun position hmem => ?_) hm) hstart) fun m hm => ?_
  · obtain ⟨hposition, -, hright⟩ := hleads.place hmem fun tx' htx' hid =>
      congrArg some (t.mempool_distinct tx' htx' tx htx hid)
    exact ⟨hposition, hright⟩
  · refine .bind (matchExtra_rule (fun entry hentry m hm => matchExtraTx_avoids hfree
      (fun position hmem => ?_) hm) hm) fun m' hm' => .ok ⟨rfl, hm'.available, hm'.slots⟩
    obtain ⟨hposition, hsome, hright⟩ := hleads.place hmem fun tx' htx' hid =>
      t.extra_distinct tx' htx' entry hentry hid
    exact ⟨hposition, hright, fun hnone => absurd hnone hsome⟩

/-- A block that passes without the check of the Merkle root is at most rejected for it. -/
lemma checkBlock_rejects {H : Hashes} {block block' : CBlock} (hmark : block.fChecked = false)
    (h : checkBlock H block false false = .ok block') (f : Fault) :
    Avoids (fun stop => stop = Stop.fault f) (checkBlock H block true true) fun _ => True := by
  have hdos : ∀ (c : Prop) [Decidable c] (level : ℕ) (code : RejectCode) (reason : String)
      (corruptionIn : Bool), Avoids (fun stop => stop = Stop.fault f)
        (dosIf c level code reason corruptionIn) fun _ => True :=
    fun _ _ _ _ _ _ => (Avoids.failIf nofun).mono fun _ _ => trivial
  rw [checkBlock, hmark, if_neg Bool.false_ne_true] at h ⊢
  simp only [bind_ok, exists_const, dosIf_ok, checkAll_ok] at h
  obtain ⟨_, _, _, _, _, _, _, htxs, _⟩ := h
  have htransactions : Avoids (fun stop => stop = Stop.fault f)
      (checkAll checkBlockTransaction block.vtx) fun _ => True := by
    have hall : checkAll checkBlockTransaction block.vtx = .ok () := checkAll_ok.mpr htxs
    rw [hall]
    exact .ok trivial
  refine .bind (hdos _ _ _ _ _) fun _ _ => .bind (hdos _ _ _ _ _) fun _ _ => ?_
  refine .bind (hdos _ _ _ _ _) fun _ _ => .bind (hdos _ _ _ _ _) fun _ _ => ?_
  refine .bind (hdos _ _ _ _ _) fun _ _ => .bind (hdos _ _ _ _ _) fun _ _ => ?_
  exact .bind htransactions fun _ _ => .bind (hdos _ _ _ _ _) fun _ _ => .ok trivial

/-- **`FillBlock`** puts the block together again. -/
lemma Transfer.fillBlock_right (hbits : t.block.nBits ≠ 0) {partialBlock : PartiallyDownloadedBlock}
    (hheader : partialBlock.header = t.block.getBlockHeader)
    (hlength : partialBlock.txnAvailable.length = t.block.vtx.length)
    (hslots : ∀ i slot, partialBlock.txnAvailable[i]? = some slot → Right t.block.vtx i slot) :
    t.Fills partialBlock := by
  have hnull : partialBlock.header.isNull = false := hheader ▸ beq_eq_false_iff_ne.mpr hbits
  have hmissing : missing partialBlock t.block.vtx = (range t.block.vtx.length).filterMap
      fun i => if partialBlock.txnAvailable[i]? = some none then t.block.vtx[i]? else none := by
    unfold missing
    congr 1
    funext i
    unfold isTxAvailable
    rw [hnull, if_neg Bool.false_ne_true]
    cases hslot : partialBlock.txnAvailable[i]? with
    | none => simp
    | some slot =>
      cases slot with
      | none => simp
      | some tx => simp
  have hblock : (⟨partialBlock.header, t.block.vtx, false⟩ : CBlock) = t.block := by
    rw [hheader, ← t.unmarked]
    rfl
  unfold Fills fillBlock
  rw [hnull, if_neg Bool.false_ne_true, hmissing, fillTransactions_missing hlength hslots]
  dsimp only
  rw [if_neg (not_not.mpr rfl), hblock]
  obtain ⟨block', hchecked⟩ := t.checked
  cases hcheck : checkBlock net.H t.block true true with
  | ok block'' =>
    obtain ⟨-, rfl⟩ := checkBlock_ok t.unmarked hcheck
    exact ⟨_, _, rfl, rfl, rfl, by simp⟩
  | error stop =>
    cases stop with
    | fault f => exact absurd rfl ((checkBlock_rejects t.unmarked hchecked f).error _ hcheck)
    | reject r =>
      refine ⟨_, _, rfl, rfl, rfl, ?_⟩
      split_ifs <;> simp

/-- The miner leaves `nBits` at zero. -/
lemma createNewBlock_nBits {ctx : MinerContext} {fuel : ℕ} {script : CScript} {w : Bool}
    {template : CBlockTemplate} {s s' : ctx.E.State}
    (h : createNewBlock ctx fuel script w s = .ok template s') : template.block.nBits = 0 := by
  obtain ⟨r, s1, root, s2, -, -, rfl, -⟩ := createNewBlock_ok h
  obtain ⟨coinbase, hblock, -⟩ := assembledBlock_eq ctx r root
  show (assembledBlock ctx r root).nBits = 0
  rw [hblock]
  rfl

/-- A header without `nBits` is refused. -/
lemma initData_null (h : cmpctblock.header.nBits = 0) (partialBlock : PartiallyDownloadedBlock)
    (vTxHashes : List CTransaction) (extraTxn : List (Uint256 × Option CTransaction)) :
    net.initData partialBlock cmpctblock vTxHashes extraTxn = .error (.status .invalid) := by
  have hnull : cmpctblock.header.isNull = true := beq_iff_eq.mpr h
  unfold initData
  rw [failIf, if_pos (.inl hnull), error_bind]

lemma compact_header {block : CBlock} {nonce : ℕ} {fUseWTXID : Bool}
    (h : net.compact block nonce fUseWTXID = .ok cmpctblock) :
    cmpctblock.header = block.getBlockHeader := by
  unfold compact at h
  split at h
  · cases h
  · cases h
    rfl

/-- **Compact block relay.**  A transfer rebuilds its block exactly when `nBits` is not zero, and
    `InitData` stays inside its lists for every message. -/
theorem block_rebuilt_iff (net : CompactRelay) :
    (∀ t : net.Transfer, t.Rebuilds ↔ t.block.nBits ≠ 0) ∧
      ∀ partialBlock cmpctblock vTxHashes extraTxn,
        net.initData partialBlock cmpctblock vTxHashes extraTxn
          ≠ .error (.fault (.undefined .outOfBounds)) := by
  refine ⟨fun t => ⟨?_, fun hbits => ?_⟩, fun partialBlock cmpctblock vTxHashes extraTxn h =>
    (initData_inBounds partialBlock cmpctblock vTxHashes extraTxn).error _ h rfl⟩
  · rintro ⟨cmpctblock, partialBlock, hcompact, hinit, -⟩ hzero
    rw [initData_null (by rw [compact_header hcompact]; exact hzero)] at hinit
    cases hinit
  · obtain ⟨coinbase, rest, hvtx, -⟩ := t.coinbase_first
    obtain ⟨cmpctblock, hcompact⟩ : ∃ cmpctblock,
        net.compact t.block t.nonce t.fUseWTXID = .ok cmpctblock := by
      rw [compact, hvtx]
      exact ⟨_, rfl⟩
    obtain ⟨partialBlock, hinit, hheader, hlength, hslots⟩ :=
      (t.initData_right hbits hcompact).exists_ok
    refine ⟨cmpctblock, partialBlock, hcompact, hinit, fun i hi => ?_,
      t.fillBlock_right hbits hheader hlength hslots⟩
    have hnull : partialBlock.header.isNull = false := hheader ▸ beq_eq_false_iff_ne.mpr hbits
    rw [← hlength] at hi
    rw [isTxAvailable, hnull, if_neg Bool.false_ne_true, getElem?_eq_getElem hi]
    exact ⟨_, rfl⟩

/-- Short identifiers that are the hashes themselves, and buckets with room. -/
def plainRelay : CompactRelay := ⟨.small, fun _ _ hash => hash.toNat, fun _ _ => false⟩

/-- A transaction, told from others by its version. -/
def relayedTx (i : ℕ) : CTransaction :=
  { smallSpend [⟨99#256, i⟩] ⟨10 * coin, [OP_1]⟩ with nVersion := i }

/-- Three transactions besides the coinbase, and a receiver that knows the second one. -/
def smallTransfer : plainRelay.Transfer where
  block := { smallBlock [relayedTx 5, relayedTx 6, relayedTx 7] with nBits := 1 }
  nonce := 0
  fUseWTXID := true
  vTxHashes := [relayedTx 8, relayedTx 6]
  extraTxn := []
  unmarked := rfl
  checked := ⟨_, show checkBlock .small _ false false = .ok _ from rfl⟩
  distinct := by decide +kernel
  mempool_distinct := by decide +kernel
  extra_distinct := nofun
  buckets := fun _ _ _ => rfl

/-- It is rebuilt, with the two transactions the receiver has asked for. -/
theorem block_rebuilt_missing : smallTransfer.Rebuilds ∧ ∃ cmpctblock partialBlock,
    plainRelay.compact smallTransfer.block 0 true = .ok cmpctblock ∧
      plainRelay.initData .fresh cmpctblock smallTransfer.vTxHashes [] = .ok partialBlock ∧
        missing partialBlock smallTransfer.block.vtx = [relayedTx 5, relayedTx 7] :=
  ⟨((block_rebuilt_iff plainRelay).1 smallTransfer).mpr (by decide), _, _, rfl, rfl,
    by decide +kernel⟩

/-- A block that was just created is refused by every receiver. -/
theorem createdBlock_refused : ∃ template s',
    createNewBlock (.small (poolWith gasTx)) 10 [OP_1] true 0#256 = .ok template s' ∧
      ∀ (net : CompactRelay) nonce fUseWTXID cmpctblock vTxHashes extraTxn,
        net.compact template.block nonce fUseWTXID = .ok cmpctblock →
          net.initData .fresh cmpctblock vTxHashes extraTxn = .error (.status .invalid) := by
  obtain ⟨template, s', h, -⟩ := gasTx_created
  refine ⟨template, s', h, fun net nonce fUseWTXID cmpctblock vTxHashes extraTxn hcompact => ?_⟩
  refine initData_null ?_ _ _ _
  rw [compact_header hcompact]
  exact createNewBlock_nBits h

end CompactRelay

end Ybtc
