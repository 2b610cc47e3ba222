import Ybtc.Core.Keyed
import Ybtc.Primitives.Serialize
import Ybtc.Chain.BlockMap
import Ybtc.Validation.CheckBlock

/-!
# The block index on disk

`CBlockTreeDB` from `txdb.cpp`: `WriteBatchSync` stores every index object as a `CDiskBlockIndex`
under its hash, and `LoadBlockIndexGuts` builds the map again from the records, in the order in
which the database hands them out.  The key of a loaded object is not read from the record but
computed from its header fields.  The main result is `loadBlockIndexGuts_persists_iff`.
-/

namespace Ybtc

open Codec List Option Finmap BlockNode Keyed

/-! ## Records -/

/-- `CDiskBlockIndex` -/
structure CDiskBlockIndex extends BlockNode where
  hashPrev : Uint256
deriving Repr, DecidableEq

namespace CDiskBlockIndex

/-- `CDiskBlockIndex::CDiskBlockIndex(const CBlockIndex* pindex)` -/
def ofNode (pindex : BlockNode) : CDiskBlockIndex := ⟨pindex, pindex.pprev.getD Uint256.null⟩

/-- `CLIENT_VERSION` of release 0.15.1. -/
def clientVersion : BitVec 32 := 150100

/-- Whether a record has a file number. -/
def hasFile (nStatus : BitVec 32) : Prop := nStatus &&& (blockHaveData ||| blockHaveUndo) ≠ 0

instance (nStatus : BitVec 32) : Decidable (hasFile nStatus) :=
  inferInstanceAs (Decidable (nStatus &&& (blockHaveData ||| blockHaveUndo) ≠ 0))

/-- `CDiskBlockIndex::SerializationOp`, writing. -/
def serialize (d : CDiskBlockIndex) : Bytes :=
  [writeInt clientVersion, writeInt d.nHeight, writeUInt d.nStatus, writeUInt d.nTx,
    if hasFile d.nStatus then writeInt d.nFile else [],
    if d.nStatus &&& blockHaveData ≠ 0 then writeUInt d.nDataPos else [],
    if d.nStatus &&& blockHaveUndo ≠ 0 then writeUInt d.nUndoPos else [],
    write32 d.nVersion, writeUint256 d.hashPrev, writeUint256 d.hashMerkleRoot,
    writeUint256 d.hashStateRoot, write32 d.nTime, write32 d.nBits].flatten

/-- `CDiskBlockIndex::SerializationOp`, reading into a fresh object. -/
def deserialize : Reader CDiskBlockIndex := do
  let _ ← readInt
  let nHeight ← readInt
  let nStatus ← readUInt
  let nTx ← readUInt
  let nFile ← readIf (hasFile nStatus) 0 readInt
  let nDataPos ← readIf (nStatus &&& blockHaveData ≠ 0) 0 readUInt
  let nUndoPos ← readIf (nStatus &&& blockHaveUndo ≠ 0) 0 readUInt
  let nVersion ← read32
  let hashPrev ← readUint256
  let hashMerkleRoot ← readUint256
  let hashStateRoot ← readUint256
  let nTime ← read32
  let nBits ← read32
  pure ⟨{ null with
    nHeight, nStatus, nTx, nFile, nDataPos, nUndoPos, nVersion, hashMerkleRoot, hashStateRoot,
    nTime, nBits }, hashPrev⟩

/-- The header of a record. -/
def getBlockHeader (d : CDiskBlockIndex) : CBlockHeader where
  nVersion := d.nVersion.toInt
  hashPrevBlock := d.hashPrev
  hashMerkleRoot := d.hashMerkleRoot
  hashStateRoot := d.hashStateRoot
  nTime := d.nTime.toNat
  nBits := d.nBits.toNat
  nHeight := d.nHeight.toNat

/-- `CDiskBlockIndex::GetBlockHash` -/
def getBlockHash (H : Hashes) (d : CDiskBlockIndex) : Uint256 := H.blockHash d.getBlockHeader

end CDiskBlockIndex

open CDiskBlockIndex

/-! ## The database -/

/-- The records of `CBlockTreeDB` under `DB_BLOCK_INDEX`. -/
abbrev BlockRecords := Finmap fun _ : Uint256 => Bytes

/-- `CBlockTreeDB::WriteBatchSync`, the index objects of the batch. -/
def writeBatchSync (blockinfo : List (Σ _ : Uint256, BlockNode)) (db : BlockRecords) :
    BlockRecords :=
  blockinfo.foldl (fun db e => db.insert e.1 (ofNode e.2).serialize) db

/-- `InsertBlockIndex`: the pointer to the object with a hash. -/
def insertBlockIndex (m : BlockMap) (hash : Uint256) : Option Uint256 × BlockMap :=
  if hash = Uint256.null then (none, m)
  else
    match m.lookup hash with
    | some _ => (some hash, m)
    | none => (some hash, m.insert hash .null)

/-- How a load ends early. -/
inductive LoadStop
  | failed
  | fault (f : Fault)
deriving Repr, DecidableEq

/-- The assignments to the object of a record; `hashStateRoot` is not among them. -/
def CDiskBlockIndex.fill (d : CDiskBlockIndex) (pprev : Option Uint256) (pindexNew : BlockNode) :
    BlockNode :=
  { pindexNew with
    pprev
    nHeight := d.nHeight
    nFile := d.nFile
    nDataPos := d.nDataPos
    nUndoPos := d.nUndoPos
    nVersion := d.nVersion
    hashMerkleRoot := d.hashMerkleRoot
    nTime := d.nTime
    nBits := d.nBits
    nStatus := d.nStatus
    nTx := d.nTx }

/-- One turn of the loop of `LoadBlockIndexGuts`. -/
def loadRecord (H : Hashes) (m : BlockMap) (value : Bytes) : Except LoadStop BlockMap :=
  match deserialize value with
  | none => .error .failed
  | some (diskindex, _) =>
    match insertBlockIndex m (diskindex.getBlockHash H) with
    | (none, _) => .error (.fault (.undefined .nullPointer))
    | (some hash, m₁) =>
      match insertBlockIndex m₁ diskindex.hashPrev with
      | (pprev, m2) =>
        if checkCasino hash diskindex.nBits.toNat then
          .ok (m2.insert hash (diskindex.fill pprev ((m2.lookup hash).getD .null)))
        else .error .failed

/-- `CBlockTreeDB::LoadBlockIndexGuts` over the records in the order of the cursor, at start-up. -/
def loadBlockIndexGuts (H : Hashes) (records : List (Σ _ : Uint256, Bytes)) :
    Except LoadStop BlockMap :=
  records.foldlM (fun m e => loadRecord H m e.2) ∅

/-! ## Reading a record back -/

namespace CDiskBlockIndex

/-- What a record holds of an object. -/
def stored (n : BlockNode) : CDiskBlockIndex :=
  ⟨{ null with
    nHeight := n.nHeight
    nStatus := n.nStatus
    nTx := n.nTx
    nFile := if hasFile n.nStatus then n.nFile else 0
    nDataPos := if n.nStatus &&& blockHaveData ≠ 0 then n.nDataPos else 0
    nUndoPos := if n.nStatus &&& blockHaveUndo ≠ 0 then n.nUndoPos else 0
    nVersion := n.nVersion
    hashMerkleRoot := n.hashMerkleRoot
    hashStateRoot := n.hashStateRoot
    nTime := n.nTime
    nBits := n.nBits }, n.pprev.getD Uint256.null⟩

/-- **A record is read back**, if its signed numbers are not negative. -/
lemma reads_serialize {n : BlockNode} (hh : 0 ≤ n.nHeight.toInt)
    (hf : hasFile n.nStatus → 0 ≤ n.nFile.toInt) :
    Reads deserialize (ofNode n).serialize (stored n) := by
  unfold deserialize serialize
  simp only [flatten_cons, flatten_nil]
  refine Reads.bind (reads_writeInt (by decide)) ?_
  refine Reads.bind (reads_writeInt hh) ?_
  refine Reads.bind (reads_writeUInt _) ?_
  refine Reads.bind (reads_writeUInt _) ?_
  refine Reads.bind (Reads.cond fun h => reads_writeInt (hf h)) ?_
  refine Reads.bind (Reads.cond fun _ => reads_writeUInt _) ?_
  refine Reads.bind (Reads.cond fun _ => reads_writeUInt _) ?_
  refine Reads.bind (reads_write32 _) ?_
  refine Reads.bind (reads_writeUint256 _) ?_
  refine Reads.bind (reads_writeUint256 _) ?_
  refine Reads.bind (reads_writeUint256 _) ?_
  refine Reads.bind (reads_write32 _) ?_
  refine Reads.bind (reads_write32 _) ?_
  exact Reads.pure _

/-- The signed numbers of a record that was read are not negative. -/
lemma deserialize_nonneg :
    Returns deserialize fun d => 0 ≤ d.nHeight.toInt ∧ 0 ≤ d.nFile.toInt := by
  refine (Returns.trivial _).bind fun _ _ => readInt_nonneg.bind fun nHeight hh =>
    (Returns.trivial _).bind fun _ _ => (Returns.trivial _).bind fun _ _ =>
    (readInt_nonneg.cond (le_refl 0)).bind fun nFile hf => ?_
  iterate 8 refine (Returns.trivial _).bind fun _ _ => ?_
  exact Returns.pure ⟨hh, hf⟩

end CDiskBlockIndex

/-! ## One turn of the loop -/

variable {H : Hashes} {m m' : BlockMap}

/-- The object under a key after `InsertBlockIndex` of a hash. -/
lemma lookup_insertBlockIndex (m : BlockMap) (hash k : Uint256) :
    (insertBlockIndex m hash).2.lookup k
      = if k = hash ∧ hash ≠ Uint256.null then some ((m.lookup k).getD .null) else m.lookup k := by
  unfold insertBlockIndex
  by_cases hn : hash = Uint256.null
  · simp [hn]
  · rw [if_neg hn]
    by_cases hk : k = hash
    · subst hk
      cases hl : m.lookup k <;> simp [hn, hl]
    · cases m.lookup hash <;> simp [hk, lookup_insert_of_ne]

/-- The pointer `InsertBlockIndex` returns. -/
lemma insertBlockIndex_fst (m : BlockMap) (hash : Uint256) :
    (insertBlockIndex m hash).1 = if hash = Uint256.null then none else some hash := by
  unfold insertBlockIndex
  split_ifs
  · rfl
  · cases m.lookup hash <;> rfl

/-- **What a turn does**: the object of the record is filled, and its predecessor is there. -/
structure Loads (H : Hashes) (d : CDiskBlockIndex) (m m' : BlockMap) : Prop where
  known : d.getBlockHash H ≠ Uint256.null
  self : m'.lookup (d.getBlockHash H)
    = some (d.fill (if d.hashPrev = Uint256.null then none else some d.hashPrev)
        ((m.lookup (d.getBlockHash H)).getD .null))
  other : ∀ k, k ≠ d.getBlockHash H → m'.lookup k
    = if k = d.hashPrev ∧ k ≠ Uint256.null then some ((m.lookup k).getD .null) else m.lookup k

/-- The map after the record `d`. -/
def placeRecord (H : Hashes) (d : CDiskBlockIndex) (m : BlockMap) : BlockMap :=
  let p := insertBlockIndex (insertBlockIndex m (d.getBlockHash H)).2 d.hashPrev
  p.2.insert (d.getBlockHash H) (d.fill p.1 ((p.2.lookup (d.getBlockHash H)).getD .null))

variable {value : Bytes} {d : CDiskBlockIndex}

lemma loadRecord_eq {rest : Bytes} (hd : deserialize value = some (d, rest)) : loadRecord H m value
      = if d.getBlockHash H = Uint256.null then .error (.fault (.undefined .nullPointer))
        else .ok (placeRecord H d m) := by
  rw [loadRecord, hd]
  rcases hi : insertBlockIndex m (d.getBlockHash H) with ⟨p, m1⟩
  have hp : p = if d.getBlockHash H = Uint256.null then none else some (d.getBlockHash H) := by
    rw [← insertBlockIndex_fst m, hi]
  by_cases hn : d.getBlockHash H = Uint256.null
  · rw [if_pos hn] at hp ⊢
    subst hp
    simp only [hi]
  · rw [if_neg hn] at hp ⊢
    subst hp
    simp only [hi, placeRecord, checkCasino, if_true]

lemma placeRecord_loads (hn : d.getBlockHash H ≠ Uint256.null) :
    Loads H d m (placeRecord H d m) where
  known := hn
  self := by
    simp only [placeRecord, lookup_insert, insertBlockIndex_fst, lookup_insertBlockIndex,
      ne_eq, hn, not_false_eq_true, and_true, if_true, getD_some, ite_self]
  other k hk := by
    simp only [placeRecord, lookup_insert_of_ne _ hk, lookup_insertBlockIndex, ne_eq, hk,
      false_and, if_false]
    by_cases hp : k = d.hashPrev
    · subst hp
      rfl
    · rw [if_neg (fun h => hp h.1), if_neg (fun h => hp h.1)]

/-- A turn that ends well. -/
lemma loadRecord_loads (h : loadRecord H m value = .ok m') :
    ∃ d rest, deserialize value = some (d, rest) ∧ Loads H d m m' := by
  cases hd : deserialize value with
  | none =>
    rw [loadRecord, hd] at h
    cases h
  | some p =>
    obtain ⟨d, rest⟩ := p
    rw [loadRecord_eq hd] at h
    split_ifs at h with hn
    cases h
    exact ⟨d, rest, rfl, placeRecord_loads hn⟩

/-! ## The records of a tree -/

/-- **A finite tree of index objects**: predecessors are in the map, and the header of an object
    hashes to its key. -/
structure HashedTree (H : Hashes) (t : BlockMap) : Prop where
  hash : ∀ h n, t.lookup h = some n → H.blockHash n.getBlockHeader = h
  linked : ∀ h n q, t.lookup h = some n → n.pprev = some q → ∃ p, t.lookup q = some p

/-- An object whose record can be read back and placed. -/
structure Recordable (h : Uint256) (n : BlockNode) : Prop where
  known : h ≠ Uint256.null
  height : 0 ≤ n.nHeight.toInt
  file : hasFile n.nStatus → 0 ≤ n.nFile.toInt

/-- What becomes of an object. -/
def BlockNode.loaded (n : BlockNode) : BlockNode := (stored n).fill n.pprev .null

/-- The map after the records of some keys. -/
structure LoadedSoFar (t : BlockMap) (done : List Uint256) (m : BlockMap) : Prop where
  filled : ∀ h n, h ∈ done → t.lookup h = some n → m.lookup h = some n.loaded
  pending : ∀ h, h ∉ done →
    m.lookup h = none ∨ m.lookup h = some .null ∧ ∃ n, t.lookup h = some n

variable {t : BlockMap} {n : BlockNode}

/-- One record of the tree. -/
lemma loadRecord_step (tree : HashedTree H t) (hr : ∀ h n, t.lookup h = some n → Recordable h n)
    {done : List Uint256} {h : Uint256} (hm : LoadedSoFar t done m)
    (hn : t.lookup h = some n) (hnew : h ∉ done) :
    ∃ m', loadRecord H m (ofNode n).serialize = .ok m' ∧
      LoadedSoFar t (h :: done) m' := by
  have hread := reads_serialize (hr h n hn).height (hr h n hn).file []
  rw [append_nil] at hread
  have hhash : (stored n).getBlockHash H = h := tree.hash h n hn
  have hne : (stored n).getBlockHash H ≠ Uint256.null := by
    rw [hhash]
    exact (hr h n hn).known
  have hl : Loads H (stored n) m (placeRecord H (stored n) m) := placeRecord_loads hne
  refine ⟨_, (loadRecord_eq hread).trans (if_neg hne), ?_⟩
  generalize placeRecord H (stored n) m = m' at hl
  have hself := hl.self
  have hother := hl.other
  rw [hhash] at hself hother
  -- The pointer to the predecessor is the one the object had.
  have hprev : (if (stored n).hashPrev = Uint256.null then none
      else some (stored n).hashPrev) = n.pprev := by
    change (if n.pprev.getD Uint256.null = Uint256.null then none
      else some (n.pprev.getD Uint256.null)) = n.pprev
    cases hp : n.pprev with
    | none => simp
    | some q =>
      obtain ⟨p, hq⟩ := tree.linked h n q hn hp
      simp [(hr q p hq).known]
  have hempty : (m.lookup h).getD .null = .null := by
    rcases hm.pending h hnew with hp | ⟨hp, _⟩ <;> rw [hp] <;> rfl
  rw [hprev, hempty] at hself
  constructor
  · intro k q hk hq
    by_cases hkh : k = h
    · subst hkh
      cases hn.symm.trans hq
      exact hself
    · have hold := hm.filled k q ((mem_cons.mp hk).resolve_left hkh) hq
      rw [hother k hkh, hold]
      exact ite_self _
  · intro k hk
    rw [mem_cons, not_or] at hk
    rw [hother k hk.1]
    split_ifs with hp
    · refine Or.inr ⟨?_, ?_⟩
      · rcases hm.pending k hk.2 with hq | ⟨hq, _⟩ <;> rw [hq] <;> rfl
      · obtain ⟨hkp, hknull⟩ := hp
        change k = n.pprev.getD Uint256.null at hkp
        cases hq : n.pprev with
        | none =>
          rw [hq] at hkp
          exact absurd hkp hknull
        | some q =>
          rw [hq] at hkp
          subst hkp
          exact tree.linked h n k hn hq
    · exact hm.pending k hk.2

/-- **All records of the tree.** -/
lemma loadRecords_ok (tree : HashedTree H t) (hr : ∀ h n, t.lookup h = some n → Recordable h n) :
    ∀ (records : List (Σ _ : Uint256, Bytes)) {done : List Uint256} {m : BlockMap},
      LoadedSoFar t done m → (records.map Sigma.fst).Nodup → (∀ e ∈ records, e.1 ∉ done) →
      (∀ e ∈ records, ∃ n, t.lookup e.1 = some n ∧ e.2 = (ofNode n).serialize) →
      ∃ m', records.foldlM (fun m e => loadRecord H m e.2) m = .ok m' ∧
        LoadedSoFar t ((records.map Sigma.fst).reverse ++ done) m'
  | [], done, m, hm, _, _, _ => ⟨m, rfl, hm⟩
  | e :: records, done, m, hm, hnd, hdone, hrec => by
    rw [map_cons, nodup_cons] at hnd
    obtain ⟨n, hn, hbytes⟩ := hrec e mem_cons_self
    obtain ⟨m1, hload, hm1⟩ := loadRecord_step tree hr hm hn (hdone e mem_cons_self)
    obtain ⟨m', hfold, hm'⟩ := loadRecords_ok tree hr records hm1 hnd.2
      (fun e' he' => by
        rw [mem_cons, not_or]
        exact ⟨fun heq => hnd.1 (heq ▸ mem_map_of_mem he'), hdone e' (mem_cons_of_mem _ he')⟩)
      (fun e' he' => hrec e' (mem_cons_of_mem _ he'))
    refine ⟨m', ?_, ?_⟩
    · rw [foldlM_cons, hbytes, hload]
      exact hfold
    · rw [map_cons, reverse_cons, append_assoc, singleton_append]
      exact hm'

variable {blockinfo : List (Σ _ : Uint256, BlockNode)}

/-- A record is written under each key of the tree, and no other. -/
lemma lookup_writeBatchSync
    (hb : Enumerates blockinfo t) (h : Uint256) : (writeBatchSync blockinfo ∅).lookup h
      = (t.lookup h).map fun n => (ofNode n).serialize := by
  have hw : WritesAll (fun _ n => some (ofNode n).serialize) blockinfo
      (∅ : BlockRecords) (writeBatchSync blockinfo ∅) :=
    foldl_keyed (fun db e => ⟨lookup_insert db,
      fun k hk => lookup_insert_of_ne db hk⟩) blockinfo ∅ hb.nodup
  cases ht : t.lookup h with
  | none => rw [hw.lookup_of_none hb ht]; rfl
  | some n => exact hw.lookup_of_some hb ht

variable {records : List (Σ _ : Uint256, Bytes)}

/-- **Loading a written tree.** -/
lemma loadBlockIndexGuts_written (tree : HashedTree H t)
    (hr : ∀ h n, t.lookup h = some n → Recordable h n) (hb : Enumerates blockinfo t)
    (hrec : Enumerates records (writeBatchSync blockinfo ∅)) :
    ∃ m', loadBlockIndexGuts H records = .ok m' ∧
      ∀ h, m'.lookup h = (t.lookup h).map loaded := by
  have hmem : ∀ e ∈ records,
      ∃ n, t.lookup e.1 = some n ∧ e.2 = (ofNode n).serialize := by
    intro e he
    have hl := hrec.mem_iff.mp he
    rw [lookup_writeBatchSync hb, map_eq_some_iff] at hl
    obtain ⟨n, hn, hs⟩ := hl
    exact ⟨n, hn, hs.symm⟩
  obtain ⟨m', hload, hm'⟩ := @loadRecords_ok H t tree hr records [] ∅
    ⟨fun h n hd => (by cases hd), fun h _ => Or.inl rfl⟩ hrec.nodup (by simp) hmem
  refine ⟨m', hload, fun h => ?_⟩
  rw [append_nil] at hm'
  cases ht : t.lookup h with
  | some n =>
    refine hm'.filled h n (mem_reverse.mpr ?_) ht
    have hl : (writeBatchSync blockinfo ∅).lookup h = some (ofNode n).serialize := by
      rw [lookup_writeBatchSync hb, ht]
      rfl
    exact mem_map_of_mem (hrec.mem_iff.mpr hl)
  | none =>
    refine (hm'.pending h ?_).resolve_right ?_
    · intro hd
      obtain ⟨e, he, rfl⟩ := mem_map.mp (mem_reverse.mp hd)
      obtain ⟨n, hn, _⟩ := hmem e he
      rw [ht] at hn
      cases hn
    · rintro ⟨_, n, hn⟩
      rw [ht] at hn
      cases hn

/-! ## What any load leaves -/

/-- An object as loading leaves it. -/
structure LoadedNode (h : Uint256) (n : BlockNode) : Prop where
  known : h ≠ Uint256.null
  height : 0 ≤ n.nHeight.toInt
  file : 0 ≤ n.nFile.toInt
  stateRoot : n.hashStateRoot = Uint256.null

/-- A turn keeps to such objects. -/
lemma loadRecord_loaded (hm : ∀ h n, m.lookup h = some n → LoadedNode h n)
    (h : loadRecord H m value = .ok m') : ∀ h n, m'.lookup h = some n → LoadedNode h n := by
  obtain ⟨d, rest, hd, hl⟩ := loadRecord_loads h
  obtain ⟨hh, hf⟩ := deserialize_nonneg value d rest hd
  have hgetD : ∀ k, k ≠ Uint256.null → LoadedNode k ((m.lookup k).getD .null) := by
    intro k hk
    cases hq : m.lookup k with
    | none => exact ⟨hk, le_refl 0, le_refl 0, rfl⟩
    | some q => exact hm k q hq
  intro k n hn
  by_cases hk : k = d.getBlockHash H
  · subst hk
    cases hl.self.symm.trans hn
    exact ⟨hl.known, hh, hf, (hgetD _ hl.known).stateRoot⟩
  · rw [hl.other k hk] at hn
    split_ifs at hn with hp
    · cases hn
      exact hgetD k hp.2
    · exact hm k n hn

lemma loadBlockIndexGuts_loaded
    (h : loadBlockIndexGuts H records = .ok m') : ∀ h n, m'.lookup h = some n → LoadedNode h n := by
  refine Fallible.foldlM_rule (fun _ m => ∀ h n, m.lookup h = some n → LoadedNode h n) ?_ ?_ h
  · intro h n hn
    cases hn
  · intro _ e _ m m' _ hm hload
    exact loadRecord_loaded hm hload

/-! ## Persistence -/

/-- The fields that a restart should bring back: those with a meaning outside of the process. -/
structure BlockNode.SameStored (n n' : BlockNode) : Prop where
  pprev : n'.pprev = n.pprev
  nHeight : n'.nHeight = n.nHeight
  nStatus : n'.nStatus = n.nStatus
  nTx : n'.nTx = n.nTx
  blockPos : n'.getBlockPos = n.getBlockPos
  undoPos : n'.getUndoPos = n.getUndoPos
  header : n'.getBlockHeader = n.getBlockHeader

/-- A status with one of the two positions has a file number. -/
lemma hasFile_of_and {s b : BitVec 32} (hb : (blockHaveData ||| blockHaveUndo) &&& b = b)
    (h : s &&& b ≠ 0) : hasFile s := by
  intro hz
  apply h
  rw [← hb, ← BitVec.and_assoc, hz]
  exact BitVec.zero_and

/-- **Only the state root is lost.** -/
lemma sameStored_loaded (h : n.hashStateRoot = Uint256.null) : n.SameStored n.loaded where
  pprev := rfl
  nHeight := rfl
  nStatus := rfl
  nTx := rfl
  blockPos := by
    unfold getBlockPos loaded stored fill
    by_cases hd : n.nStatus &&& blockHaveData ≠ 0
    · simp only [if_pos hd, if_pos (hasFile_of_and (by decide) hd)]
    · simp only [if_neg hd]
  undoPos := by
    unfold getUndoPos loaded stored fill
    by_cases hd : n.nStatus &&& blockHaveUndo ≠ 0
    · simp only [if_pos hd, if_pos (hasFile_of_and (by decide) hd)]
    · simp only [if_neg hd]
  header := by
    rw [BlockNode.getBlockHeader, BlockNode.getBlockHeader, h]
    rfl

/-- **The index survives a restart**: every block has an entry under the same hash with the same
    predecessor, height, status, number of transactions, positions and header, no other entries
    appear, and writing and loading once more changes nothing. -/
def Persists (H : Hashes) (t : BlockMap) (records : List (Σ _ : Uint256, Bytes)) : Prop :=
  ∃ m', loadBlockIndexGuts H records = .ok m' ∧
    (∀ h, t.lookup h = none → m'.lookup h = none) ∧
    (∀ h n, t.lookup h = some n → ∃ n', m'.lookup h = some n' ∧ n.SameStored n' ∧
      H.blockHash n'.getBlockHeader = h) ∧
    ∀ blockinfo' records', Enumerates blockinfo' m' →
      Enumerates records' (writeBatchSync blockinfo' ∅) →
      loadBlockIndexGuts H records' = .ok m'

/-- Loading what was loaded changes nothing. -/
lemma loaded_loaded (n : BlockNode) : n.loaded.loaded = n.loaded := by
  unfold loaded stored fill
  simp only [BlockNode.mk.injEq, true_and, and_true]
  refine ⟨?_, ?_, ?_⟩ <;> split_ifs <;> rfl

/-- A file number is one of the positions of a status that has one. -/
lemma file_of_positions {n' : BlockNode} (h : n.SameStored n') (hf : 0 ≤ n'.nFile.toInt)
    (hs : hasFile n.nStatus) : 0 ≤ n.nFile.toInt := by
  by_cases hd : n.nStatus &&& blockHaveData ≠ 0
  · have hp := h.blockPos
    rw [getBlockPos, getBlockPos, h.nStatus, if_pos hd, if_pos hd] at hp
    rw [← (CDiskBlockPos.mk.inj hp).1]
    exact hf
  · by_cases hu : n.nStatus &&& blockHaveUndo ≠ 0
    · have hp := h.undoPos
      rw [getUndoPos, getUndoPos, h.nStatus, if_pos hu, if_pos hu] at hp
      rw [← (CDiskBlockPos.mk.inj hp).1]
      exact hf
    · exfalso
      apply hs
      rw [not_not] at hd hu
      rw [BitVec.and_or_distrib_left, hd, hu]
      rfl

/-- **The block index survives a restart if and only if all state roots in it are null**, no block
    has the null hash, and no height or file number is negative. -/
theorem loadBlockIndexGuts_persists_iff (tree : HashedTree H t)
    {blockinfo : List (Σ _ : Uint256, BlockNode)} (hb : Enumerates blockinfo t)
    {records : List (Σ _ : Uint256, Bytes)}
    (hrec : Enumerates records (writeBatchSync blockinfo ∅)) :
    Persists H t records ↔
      ∀ h n, t.lookup h = some n → n.hashStateRoot = Uint256.null ∧ Recordable h n := by
  constructor
  · rintro ⟨m', hload, _, hsame, _⟩ h n hn
    obtain ⟨n', hn', hstored, _⟩ := hsame h n hn
    have hl := loadBlockIndexGuts_loaded hload h n' hn'
    refine ⟨?_, hl.known, hstored.nHeight ▸ hl.height, file_of_positions hstored hl.file⟩
    have hroot := congrArg CBlockHeader.hashStateRoot hstored.header
    exact hroot.symm.trans hl.stateRoot
  · intro hall
    obtain ⟨m', hload, hm'⟩ :=
      loadBlockIndexGuts_written tree (fun h n hn => (hall h n hn).2) hb hrec
    have hsame : ∀ h n, t.lookup h = some n → ∃ n', m'.lookup h = some n' ∧ n.SameStored n' ∧
        H.blockHash n'.getBlockHeader = h := by
      intro h n hn
      have hst := sameStored_loaded (hall h n hn).1
      refine ⟨n.loaded, ?_, hst, ?_⟩
      · rw [hm', hn]
        rfl
      · rw [hst.header]
        exact tree.hash h n hn
    -- The loaded map is a tree of the same kind, so it can be written and loaded again.
    have hpre : ∀ h n', m'.lookup h = some n' → ∃ n, t.lookup h = some n ∧ n' = n.loaded := by
      intro h n' hn'
      rw [hm', map_eq_some_iff] at hn'
      obtain ⟨n, hn, rfl⟩ := hn'
      exact ⟨n, hn, rfl⟩
    have tree' : HashedTree H m' := by
      constructor
      · intro h n' hn'
        obtain ⟨n, hn, rfl⟩ := hpre h n' hn'
        rw [(sameStored_loaded (hall h n hn).1).header]
        exact tree.hash h n hn
      · intro h n' q hn' hq
        obtain ⟨n, hn, rfl⟩ := hpre h n' hn'
        obtain ⟨p, hp⟩ := tree.linked h n q hn hq
        exact ⟨p.loaded, by rw [hm', hp]; rfl⟩
    refine ⟨m', hload, ?_, hsame, ?_⟩
    · intro h hn
      rw [hm', hn]
      rfl
    · intro blockinfo' records' hb' hrec'
      obtain ⟨m'', hload', hm''⟩ := loadBlockIndexGuts_written tree' (fun h n' hn' => by
        have hl := loadBlockIndexGuts_loaded hload h n' hn'
        exact ⟨hl.known, hl.height, fun _ => hl.file⟩) hb' hrec'
      rw [hload']
      congr 1
      refine ext_lookup fun h => ?_
      rw [hm'', hm', Option.map_map]
      congr 1
      funext n
      exact loaded_loaded n

/-! ## A tree of two blocks -/

/-- Hash functions that tell blocks apart by their height and their state root. -/
def Hashes.byStateRoot : Hashes where
  txid _ := Uint256.null
  wtxid _ := Uint256.null
  blockHash h := BitVec.ofNat 256 (h.nHeight + 1000) + h.hashStateRoot
  computeMerkleRoot _ := (Uint256.null, false)
  hashWithNonce _ _ := []
  scriptCacheKey _ _ := Uint256.null

/-- The object of a genesis block. -/
def firstNode : BlockNode := { null with nTx := 1, nStatus := 13, nDataPos := 8 }

/-- The object of a block with the given state root on top of it. -/
def secondNode (root : Uint256) : BlockNode :=
  { null with
    pprev := some 1000
    nHeight := 1
    nTx := 2
    nStatus := 29
    nDataPos := 300
    nUndoPos := 5
    hashStateRoot := root }

def twoBlocks (root : Uint256) : List (Σ _ : Uint256, BlockNode) :=
  [⟨1000, firstNode⟩, ⟨1001 + root, secondNode root⟩]

/-- The map with the two objects. -/
def twoBlockMap (root : Uint256) (h : (1000 : Uint256) ≠ 1001 + root) : BlockMap :=
  AList.toFinmap ⟨twoBlocks root,
    nodup_cons.mpr ⟨fun hm => h (mem_singleton.mp hm), nodup_singleton _⟩⟩

variable {root : Uint256} {hk : (1000 : Uint256) ≠ 1001 + root}

lemma twoBlocks_enumerates : Enumerates (twoBlocks root) (twoBlockMap root hk) := rfl

lemma twoBlocks_cases {k : Uint256} (h : (twoBlockMap root hk).lookup k = some n) :
    (k = 1000 ∧ n = firstNode) ∨ (k = 1001 + root ∧ n = secondNode root) := by
  have hmem := twoBlocks_enumerates.mem_iff.mpr h
  simpa [twoBlocks] using hmem

lemma twoBlocks_tree : HashedTree .byStateRoot (twoBlockMap root hk) := by
  constructor
  · intro k n hn
    rcases twoBlocks_cases hn with ⟨rfl, rfl⟩ | ⟨rfl, rfl⟩ <;> rfl
  · intro k n q hn hq
    rcases twoBlocks_cases hn with ⟨rfl, rfl⟩ | ⟨rfl, rfl⟩
    · cases hq
    · cases hq
      exact ⟨firstNode, twoBlocks_enumerates.mem_iff.mp mem_cons_self⟩

lemma twoBlocks_recordable (h : 1001 + root ≠ Uint256.null) {k : Uint256}
    (hn : (twoBlockMap root hk).lookup k = some n) : Recordable k n := by
  rcases twoBlocks_cases hn with ⟨rfl, rfl⟩ | ⟨rfl, rfl⟩
  · exact ⟨by decide, by decide, fun _ => by decide⟩
  · exact ⟨h, le_of_lt (by decide : (0 : ℤ) < (1 : BitVec 32).toInt), fun _ => le_refl 0⟩

/-- The records of a batch, in some order. -/
noncomputable def recordsOf (blockinfo : List (Σ _ : Uint256, BlockNode)) :
    List (Σ _ : Uint256, Bytes) := (writeBatchSync blockinfo ∅).entries.toList

lemma recordsOf_enumerates (blockinfo : List (Σ _ : Uint256, BlockNode)) :
    Enumerates (recordsOf blockinfo) (writeBatchSync blockinfo ∅) := Multiset.coe_toList _

/-- Two blocks without a contract state survive. -/
theorem twoBlocks_persist : Persists .byStateRoot (twoBlockMap Uint256.null (by decide))
    (recordsOf (twoBlocks Uint256.null)) :=
  (loadBlockIndexGuts_persists_iff twoBlocks_tree twoBlocks_enumerates
    (recordsOf_enumerates _)).mpr fun k n hn => by
      refine ⟨?_, twoBlocks_recordable (by decide) hn⟩
      rcases twoBlocks_cases hn with ⟨rfl, rfl⟩ | ⟨rfl, rfl⟩ <;> rfl

/-- **A block with a state root does not survive**: its entry comes back under the same hash without
    the root, and its header no longer hashes to its key. -/
theorem twoBlocks_stateRoot_lost : HashedTree .byStateRoot (twoBlockMap 0x56 (by decide)) ∧
      (∃ m' n', loadBlockIndexGuts .byStateRoot (recordsOf (twoBlocks 0x56)) = .ok m' ∧
        m'.lookup 1087 = some n' ∧ n'.hashStateRoot = Uint256.null ∧
        Hashes.byStateRoot.blockHash n'.getBlockHeader ≠ 1087) ∧
      ¬ Persists .byStateRoot (twoBlockMap 0x56 (by decide)) (recordsOf (twoBlocks 0x56)) := by
  have hsecond : (twoBlockMap 0x56 (by decide)).lookup 1087 = some (secondNode 0x56) :=
    twoBlocks_enumerates.mem_iff.mp (by decide)
  obtain ⟨m', hload, hm'⟩ := loadBlockIndexGuts_written (t := twoBlockMap 0x56 (by decide))
    twoBlocks_tree (fun k n => twoBlocks_recordable (by decide)) twoBlocks_enumerates
    (recordsOf_enumerates _)
  have hlost : m'.lookup 1087 = some (secondNode 0x56).loaded := by
    rw [hm', hsecond]
    rfl
  refine ⟨twoBlocks_tree, ⟨m', _, hload, hlost, rfl, by decide⟩, ?_⟩
  rintro ⟨m'', hload', _, hsame, _⟩
  obtain ⟨n', hn', _, hkey⟩ := hsame 1087 _ hsecond
  cases hload.symm.trans hload'
  cases hlost.symm.trans hn'
  exact absurd hkey (by decide)

end Ybtc
