import Ybtc.Chain.BlockMap
import Ybtc.Validation.TestBlock

/-!
# Accepting a block header

`AcceptBlockHeader` and `AddToBlockIndex` from `validation.cpp`, over the map of index objects.  A
header whose hash is the genesis hash is not examined; any other header must be new, extend a known
block that is not marked as failed, and pass `ContextualCheckBlockHeader`.  The object that is
created takes all its header fields from the header, except for its height, which is one more than
that of its predecessor.  The header has a height too, and nothing compares the two.  The main
result is `acceptBlockHeader_reproduces_iff`.
-/

namespace Ybtc

open Fallible Stateful BlockNode Option EStateM

/-! ## The state -/

/-- The globals of `validation.cpp` that accepting a header reads and writes. -/
structure HeaderState where
  mapBlockIndex : BlockMap
  pindexBestHeader : Option Uint256
  setDirtyBlockIndex : List Uint256
  gFailedBlocks : List Uint256

/-- Hash functions, parameters, the clock, and the hashes of the checkpoints from the last one on.
    `checkBlockIndex` is the debugging check, which passes when it is switched off. -/
structure HeaderContext where
  H : Hashes
  params : ConsensusParams
  fCheckpointsEnabled : Bool
  mapCheckpoints : List Uint256
  nAdjustedTime : ℕ
  checkBlockIndex : HeaderState → Bool

/-- `Checkpoints::GetLastCheckpoint` -/
def getLastCheckpoint (m : BlockMap) (checkpoints : List Uint256) : Option BlockNode :=
  checkpoints.findSome? fun hash => m.lookup hash

variable (ctx : HeaderContext)

/-- The height below which no fork is accepted. -/
def HeaderContext.checkpointHeight (m : BlockMap) : Option ℕ :=
  if ctx.fCheckpointsEnabled then
    (getLastCheckpoint m ctx.mapCheckpoints).map fun n => n.nHeight.toNat
  else none

namespace HeaderState

/-- `setDirtyBlockIndex.insert(…)` -/
def markDirty (s : HeaderState) (p : Uint256) : HeaderState :=
  { s with setDirtyBlockIndex := s.setDirtyBlockIndex.insert p }

/-- `nStatus |= BLOCK_FAILED_CHILD` -/
def failChild (s : HeaderState) (p : Uint256) (n : BlockNode) : HeaderState :=
  { s with
    mapBlockIndex := s.mapBlockIndex.insert p { n with nStatus := n.nStatus ||| blockFailedChild } }

end HeaderState

/-! ## Descendants of failed blocks -/

/-- `while (invalid_walk != failedit)`, with a bound on the number of turns. -/
def markFailedChildren (failedit : Uint256) : ℕ → Option Uint256 → EStateM Stop HeaderState Unit
  | 0, _ => throw (.fault .diverged)
  | k + 1, invalidWalk =>
    if invalidWalk = some failedit then pure ()
    else
      match invalidWalk with
      | none => throw (.fault (.undefined .nullPointer))
      | some p => do
        let s ← get
        match s.mapBlockIndex.lookup p with
        | none => throw (.fault (.undefined .nullPointer))
        | some n => do
          set ((s.failChild p n).markDirty p)
          markFailedChildren failedit k n.pprev

/-- `for (const CBlockIndex* failedit : g_failed_blocks)` -/
def checkFailedAncestors (hashPrev : Uint256) (pindexPrev : CBlockIndex) :
    List Uint256 → EStateM Stop HeaderState Unit
  | [] => pure ()
  | failedit :: rest => do
    let s ← get
    match s.mapBlockIndex.lookup failedit with
    | none => throw (.fault (.undefined .nullPointer))
    | some f =>
      if (pindexPrev.getAncestor f.nHeight.toNat).map CBlockIndex.getBlockHash
          = some failedit then do
        Stateful.liftExcept (assertThat (f.nStatus &&& blockFailedValid ≠ 0))
        markFailedChildren failedit (pindexPrev.nHeight + 2) (some hashPrev)
        throw (.reject (.dos 100 .invalid "bad-prevblk" false))
      else checkFailedAncestors hashPrev pindexPrev rest

/-! ## The checks -/

/-- The part of `AcceptBlockHeader` for headers other than genesis: a known header gives the pointer
    to its object, a new one `none`. -/
def examineHeader (block : CBlockHeader) :
    EStateM Stop HeaderState (Option Uint256) := do
  let s ← get
  match s.mapBlockIndex.lookup (ctx.H.blockHash block) with
  | some pindex =>
    if pindex.nStatus &&& blockFailedMask ≠ 0 then throw (.reject (.inval .none "duplicate"))
    else pure (some (ctx.H.blockHash block))
  | none => do
    Stateful.liftExcept (checkBlockHeader ctx.H ⟨block, [], false⟩ true)
    match s.mapBlockIndex.lookup block.hashPrevBlock,
      s.mapBlockIndex.toIndex block.hashPrevBlock with
    | some prev, some pindexPrev => do
      Stateful.liftExcept (dosIf (prev.nStatus &&& blockFailedMask ≠ 0) 100 .invalid "bad-prevblk"
        false)
      Stateful.liftExcept (contextualCheckBlockHeader ctx.params
        (ctx.checkpointHeight s.mapBlockIndex) block pindexPrev ctx.nAdjustedTime)
      if prev.isValid blockValidScripts then pure none
      else do
        checkFailedAncestors block.hashPrevBlock pindexPrev s.gFailedBlocks
        pure none
    | _, _ => throw (.reject (.dos 10 .none "prev-blk-not-found" false))

/-! ## The new object -/

/-- `GetBlockProof`: every block counts as one. -/
def getBlockProof (_block : BlockNode) : Uint256 := 1

/-- The object of a new header, given its predecessor. -/
def newNode (block : CBlockHeader) (pprev : Option (Uint256 × BlockNode)) : BlockNode :=
  let pindexNew := ofHeader block
  (match pprev with
  | some (hashPrev, prev) =>
    { pindexNew with
      pprev := some hashPrev
      nHeight := prev.nHeight + 1
      nTimeMax := if prev.nTimeMax < pindexNew.nTime then pindexNew.nTime else prev.nTimeMax
      nChainWork := prev.nChainWork + getBlockProof pindexNew }
  | none =>
    { pindexNew with
      nTimeMax := pindexNew.nTime
      nChainWork := getBlockProof pindexNew }).raiseValidity blockValidTree

/-- Whether a new object becomes `pindexBestHeader`. -/
def isBestHeader (s : HeaderState) (pindexNew : BlockNode) : Bool :=
  match s.pindexBestHeader with
  | none => true
  | some best =>
    ((s.mapBlockIndex.lookup best).map fun b => decide (b.nChainWork < pindexNew.nChainWork)).getD
      false

/-- `AddToBlockIndex`.  The predecessor is looked up after the new object has been inserted. -/
def addToBlockIndex (H : Hashes) (block : CBlockHeader) (s : HeaderState) : Uint256 × HeaderState :=
  let hash := H.blockHash block
  match s.mapBlockIndex.lookup hash with
  | some _ => (hash, s)
  | none =>
    let m := s.mapBlockIndex.insert hash (.ofHeader block)
    let pindexNew :=
      newNode block ((m.lookup block.hashPrevBlock).map fun n => (block.hashPrevBlock, n))
    (hash, { s with
      mapBlockIndex := m.insert hash pindexNew
      pindexBestHeader := if isBestHeader s pindexNew then some hash else s.pindexBestHeader
      setDirtyBlockIndex := s.setDirtyBlockIndex.insert hash })

/-- `if (hash != hashGenesisBlock) { … }` -/
def knownHeader (block : CBlockHeader) : EStateM Stop HeaderState (Option Uint256) :=
  if ctx.H.blockHash block = ctx.params.hashGenesisBlock then pure none else examineHeader ctx block

/-- `AcceptBlockHeader`; the result is the pointer stored in `ppindex`. -/
def acceptBlockHeader (block : CBlockHeader) :
    EStateM Stop HeaderState Uint256 := do
  match ← knownHeader ctx block with
  | some pindex => pure pindex
  | none => do
    let s ← get
    set (addToBlockIndex ctx.H block s).2
    if ctx.checkBlockIndex (addToBlockIndex ctx.H block s).2 then
      pure (addToBlockIndex ctx.H block s).1
    else throw (.fault .assertion)

/-! ## What is known of a header that is added -/

variable {ctx : HeaderContext} {block : CBlockHeader} {s s' : HeaderState}

/-- The walk over the failed blocks leaves the state alone unless it rejects. -/
lemma checkFailedAncestors_ok {hashPrev : Uint256} {pindexPrev : CBlockIndex} :
    ∀ {failed : List Uint256} {s s' : HeaderState},
      checkFailedAncestors hashPrev pindexPrev failed s = .ok () s' → s' = s
  | [], s, s', h => (Result.ok.inj h).2.symm
  | failedit :: rest, s, s', h => by
    rw [checkFailedAncestors] at h
    obtain ⟨s1, s2, hget, h⟩ := bind_ok.mp h
    cases hget
    cases hf : s.mapBlockIndex.lookup failedit with
    | none =>
      rw [hf] at h
      cases h
    | some f =>
      rw [hf] at h
      simp only at h
      split_ifs at h
      · obtain ⟨_, _, _, h⟩ := bind_ok.mp h
        obtain ⟨_, _, _, h⟩ := bind_ok.mp h
        cases h
      · exact checkFailedAncestors_ok h

/-- **A header that is not known** passes without a pointer only if it extends a known block, and
    nothing has changed yet. -/
lemma examineHeader_new {known : Option Uint256}
    (hnew : s.mapBlockIndex.lookup (ctx.H.blockHash block) = none)
    (h : examineHeader ctx block s = .ok known s') :
    known = none ∧ s' = s ∧ ∃ prev, s.mapBlockIndex.lookup block.hashPrevBlock = some prev := by
  unfold examineHeader at h
  obtain ⟨s1, s2, hget, h⟩ := bind_ok.mp h
  cases hget
  rw [hnew] at h
  obtain ⟨_, s1, hpow, h⟩ := bind_ok.mp h
  rw [(liftExcept_apply_ok.mp hpow).2] at h
  cases hprev : s.mapBlockIndex.lookup block.hashPrevBlock with
  | none =>
    rw [hprev] at h
    cases h
  | some prev =>
    rw [BlockMap.toIndex, hprev] at h
    obtain ⟨_, s1, hfail, h⟩ := bind_ok.mp h
    rw [(liftExcept_apply_ok.mp hfail).2] at h
    obtain ⟨_, s1, hctx, h⟩ := bind_ok.mp h
    rw [(liftExcept_apply_ok.mp hctx).2] at h
    split_ifs at h
    · obtain ⟨hk, hs⟩ := Result.ok.inj h
      exact ⟨hk.symm, hs.symm, prev, rfl⟩
    · obtain ⟨_, s1, hwalk, h⟩ := bind_ok.mp h
      obtain ⟨hk, hs⟩ := Result.ok.inj h
      exact ⟨hk.symm, hs.symm.trans (checkFailedAncestors_ok hwalk), prev, rfl⟩

/-- **Accepting a header that is not known is adding it**, under a known block or as genesis. -/
lemma acceptBlockHeader_new {hash : Uint256}
    (hnew : s.mapBlockIndex.lookup (ctx.H.blockHash block) = none)
    (h : acceptBlockHeader ctx block s = .ok hash s') :
    hash = ctx.H.blockHash block ∧ s' = (addToBlockIndex ctx.H block s).2 := by
  unfold acceptBlockHeader at h
  obtain ⟨known, s1, hknown, hrest⟩ := bind_ok.mp h
  have hadd : known = none ∧ s1 = s := by
    unfold knownHeader at hknown
    split_ifs at hknown
    · obtain ⟨hk, hs⟩ := Result.ok.inj hknown
      exact ⟨hk.symm, hs.symm⟩
    · obtain ⟨hk, hs, _⟩ := examineHeader_new hnew hknown
      exact ⟨hk, hs⟩
  rw [hadd.1, hadd.2] at hrest
  obtain ⟨s2, s3, hget, hset⟩ := bind_ok.mp hrest
  cases hget
  obtain ⟨_, s3, hs3, hend⟩ := bind_ok.mp hset
  obtain ⟨_, rfl⟩ := Result.ok.inj hs3
  split_ifs at hend
  · obtain ⟨hh, hs⟩ := Result.ok.inj hend
    refine ⟨?_, hs.symm⟩
    rw [← hh, addToBlockIndex, hnew]
  · cases hend

/-! ## The new object -/

/-- The predecessor of a new object: the object under the hash in the header, which may be the new
    one itself. -/
def parentOf (H : Hashes) (s : HeaderState) (block : CBlockHeader) : Option BlockNode :=
  (s.mapBlockIndex.insert (H.blockHash block) (.ofHeader block)).lookup block.hashPrevBlock

/-- **The object of a new header.** -/
lemma addToBlockIndex_new {H : Hashes} (hnew : s.mapBlockIndex.lookup (H.blockHash block) = none) :
    (addToBlockIndex H block s).2.mapBlockIndex.lookup (H.blockHash block)
      = some (newNode block ((parentOf H s block).map fun n => (block.hashPrevBlock, n))) ∧
    ∀ k, k ≠ H.blockHash block →
      (addToBlockIndex H block s).2.mapBlockIndex.lookup k = s.mapBlockIndex.lookup k := by
  rw [addToBlockIndex, hnew]
  refine ⟨Finmap.lookup_insert _, fun k hk => ?_⟩
  exact (Finmap.lookup_insert_of_ne _ hk).trans (Finmap.lookup_insert_of_ne _ hk)

/-- `RaiseValidity` changes the status only. -/
lemma getBlockHeader_raiseValidity (n : BlockNode) (nUpTo : BitVec 32) :
    (n.raiseValidity nUpTo).getBlockHeader = n.getBlockHeader := by
  unfold raiseValidity
  split_ifs <;> rfl

/-- The fields of a header that fit their types survive the conversion. -/
lemma getBlockHeader_ofHeader (hfits : block.Fits) (pprev : Option Uint256) (nHeight : BitVec 32)
    (nTimeMax : BitVec 32) (nChainWork : Uint256) :
    ({ ofHeader block with pprev, nHeight, nTimeMax, nChainWork }).getBlockHeader
      = { block with hashPrevBlock := pprev.getD Uint256.null, nHeight := nHeight.toNat } := by
  have hv : (BitVec.ofInt 32 block.nVersion).toInt = block.nVersion := by
    rw [BitVec.toInt_ofInt]
    exact Int.bmod_eq_of_le (by have := hfits.nVersion.1; norm_num at this ⊢; omega)
      (by have := hfits.nVersion.2; norm_num at this ⊢; omega)
  have ht : (BitVec.ofNat 32 block.nTime).toNat = block.nTime := by
    rw [BitVec.toNat_ofNat, Nat.mod_eq_of_lt hfits.nTime]
  have hb : (BitVec.ofNat 32 block.nBits).toNat = block.nBits := by
    rw [BitVec.toNat_ofNat, Nat.mod_eq_of_lt hfits.nBits]
  simp only [getBlockHeader, ofHeader, hv, ht, hb]

/-- **The header of a new object**: that of the block, with the hash and the height of its place. -/
lemma getBlockHeader_newNode (hfits : block.Fits) (pprev : Option (Uint256 × BlockNode)) :
    (newNode block pprev).getBlockHeader = { block with
          hashPrevBlock := (pprev.map Prod.fst).getD Uint256.null
          nHeight := pprev.elim 0 fun p => (p.2.nHeight + 1).toNat } := by
  unfold newNode
  rw [getBlockHeader_raiseValidity]
  cases pprev with
  | none => exact getBlockHeader_ofHeader hfits none 0 _ _
  | some p => exact getBlockHeader_ofHeader hfits (some p.1) _ _ _

/-! ## The theorem -/

/-- **The new object reproduces the header**: its header is the accepted one, which hashes to its
    key, and the height in it is one more than that of the predecessor. -/
def Reproduces (H : Hashes) (s' : HeaderState) (block : CBlockHeader) (hash : Uint256) : Prop :=
  ∃ pindex, s'.mapBlockIndex.lookup hash = some pindex ∧ pindex.getBlockHeader = block ∧
    H.blockHash pindex.getBlockHeader = hash ∧
    ∀ prev, s'.mapBlockIndex.lookup block.hashPrevBlock = some prev →
      (block.nHeight : ℤ) = prev.nHeight.toInt + 1

/-- **The header states the height of its place**: one more than the known block it extends, or 0
    for a header without a predecessor. -/
def StatesHeight (H : Hashes) (s : HeaderState) (block : CBlockHeader) : Prop :=
  match s.mapBlockIndex.lookup block.hashPrevBlock with
  | some prev => (block.nHeight : ℤ) = prev.nHeight.toInt + 1
  | none => block.hashPrevBlock = Uint256.null ∧ H.blockHash block ≠ Uint256.null ∧
    block.nHeight = 0

/-- The next height as a number. -/
lemma toNat_add_one_of {x : BitVec 32} {k : ℕ} (hk : k < 2 ^ 32) (h : (k : ℤ) = x.toInt + 1) :
    (x + 1).toNat = k := by
  rw [BitVec.toInt_eq_toNat_cond] at h
  have hlt := x.isLt
  rw [BitVec.toNat_add, show BitVec.toNat (1 : BitVec 32) = 1 from rfl]
  split_ifs at h <;> omega

/-- **An accepted new header is reproduced by its object if and only if it states the height of its
    place.** -/
theorem acceptBlockHeader_reproduces_iff {hash : Uint256} (hfits : block.Fits)
    (hnew : s.mapBlockIndex.lookup (ctx.H.blockHash block) = none)
    (h : acceptBlockHeader ctx block s = .ok hash s') :
    Reproduces ctx.H s' block hash ↔ StatesHeight ctx.H s block := by
  obtain ⟨rfl, rfl⟩ := acceptBlockHeader_new hnew h
  obtain ⟨hself, hother⟩ := addToBlockIndex_new hnew
  have hheader := getBlockHeader_newNode hfits
    ((parentOf ctx.H s block).map fun n => (block.hashPrevBlock, n))
  unfold StatesHeight
  cases hprev : s.mapBlockIndex.lookup block.hashPrevBlock with
  | some prev =>
    have hne : block.hashPrevBlock ≠ ctx.H.blockHash block := by
      intro he
      rw [he, hnew] at hprev
      cases hprev
    have hparent : parentOf ctx.H s block = some prev :=
      (Finmap.lookup_insert_of_ne _ hne).trans hprev
    have hprev' := (hother _ hne).trans hprev
    rw [hparent] at hself hheader
    constructor
    · rintro ⟨_, _, _, _, hheight⟩
      exact hheight prev hprev'
    · intro hheight
      have hsame := hheader.trans (show _ = block by
        simp only [map_some, getD_some, elim_some, toNat_add_one_of hfits.nHeight hheight])
      refine ⟨_, hself, hsame, congrArg _ hsame, ?_⟩
      intro p hp
      cases hprev'.symm.trans hp
      exact hheight
  | none =>
    by_cases he : block.hashPrevBlock = ctx.H.blockHash block
    · -- A header that names itself as its predecessor gets the height 1.
      have hparent : parentOf ctx.H s block = some (.ofHeader block) := by
        rw [parentOf, he]
        exact Finmap.lookup_insert _
      rw [hparent] at hself hheader
      constructor
      · rintro ⟨p, hp, hsame, _, hheight⟩
        have htwo := hheight p (he.symm ▸ hp)
        cases hself.symm.trans hp
        have hone : block.nHeight = 1 := by
          rw [← hsame, hheader]
          rfl
        have hnode := (congrArg CBlockHeader.nHeight hsame).trans hone
        rw [BitVec.toInt_eq_toNat_cond, show BitVec.toNat _ = 1 from hnode, hone] at htwo
        norm_num at htwo
      · rintro ⟨hnull, hknown, _⟩
        exact absurd (he.symm.trans hnull) hknown
    · have hparent : parentOf ctx.H s block = none := (Finmap.lookup_insert_of_ne _ he).trans hprev
      have hprev' := (hother _ he).trans hprev
      rw [hparent] at hself hheader
      constructor
      · rintro ⟨p, hp, hsame, _, _⟩
        cases hself.symm.trans hp
        rw [hheader] at hsame
        have hnull := congrArg CBlockHeader.hashPrevBlock hsame
        exact ⟨hnull.symm, fun hz => he (hnull.symm.trans hz.symm),
          (congrArg CBlockHeader.nHeight hsame).symm⟩
      · rintro ⟨hnull, _, hzero⟩
        have hsame := hheader.trans (show _ = block by
          cases block
          simp_all)
        refine ⟨_, hself, hsame, congrArg _ hsame, ?_⟩
        intro p hp
        rw [hprev'] at hp
        cases hp

/-! ## A header on top of genesis -/

/-- The small network, without checkpoints. -/
def HeaderContext.small : HeaderContext where
  H := .small
  params := .regtest
  fCheckpointsEnabled := true
  mapCheckpoints := []
  nAdjustedTime := 1600000020
  checkBlockIndex _ := true

/-- The index with a genesis block only. -/
def HeaderState.small : HeaderState where
  mapBlockIndex := Finmap.singleton 1000 { null with nStatus := 13, nTime := 1600000000 }
  pindexBestHeader := some 1000
  setDirtyBlockIndex := []
  gFailedBlocks := []

/-- A header on top of genesis that states a height. -/
def smallHeader (nHeight : ℕ) : CBlockHeader where
  nVersion := 4
  hashPrevBlock := 1000
  hashMerkleRoot := Uint256.null
  hashStateRoot := Uint256.null
  nTime := 1600000010
  nBits := 0
  nHeight := nHeight

/-- The header and the key of the object that `AcceptBlockHeader` leaves. -/
def acceptedHeader (r : Result Stop HeaderState Uint256) : Option (Uint256 × CBlockHeader) :=
  match r with
  | .ok hash s' => (s'.mapBlockIndex.lookup hash).map fun n => (hash, n.getBlockHeader)
  | .error _ _ => none

lemma acceptedHeader_eq_some {r : Result Stop HeaderState Uint256} {hash : Uint256}
    {block : CBlockHeader} (h : acceptedHeader r = some (hash, block)) :
    ∃ s' pindex, r = .ok hash s' ∧ s'.mapBlockIndex.lookup hash = some pindex ∧
      pindex.getBlockHeader = block := by
  cases r with
  | error e s' => cases h
  | ok hash' s' =>
    obtain ⟨pindex, hp, he⟩ := map_eq_some_iff.mp h
    cases he
    exact ⟨s', pindex, rfl, hp, rfl⟩

/-- The header with the right height is accepted and reproduced. -/
theorem smallHeader_reproduced :
    ∃ s', acceptBlockHeader .small (smallHeader 1) .small = .ok 1001 s' ∧
    Reproduces .small s' (smallHeader 1) 1001 := by
  obtain ⟨s', _, hrun, _⟩ := @acceptedHeader_eq_some
    (acceptBlockHeader .small (smallHeader 1) .small) 1001 (smallHeader 1) (by decide +kernel)
  refine ⟨s', hrun, (acceptBlockHeader_reproduces_iff ?_ (by decide) hrun).mpr ?_⟩
  · exact ⟨by decide, by decide, by decide, by decide⟩
  · change (1 : ℤ) = (0 : BitVec 32).toInt + 1
    decide

/-- **A header with any height is accepted**: this one states the height 7 and its object has the
    height 1, so that its own header is another one with another hash. -/
theorem smallHeader_not_reproduced :
    ∃ s', acceptBlockHeader .small (smallHeader 7) .small = .ok 1007 s' ∧
      ¬ Reproduces .small s' (smallHeader 7) 1007 := by
  obtain ⟨s', pindex, hrun, hp, hheader⟩ := @acceptedHeader_eq_some
    (acceptBlockHeader .small (smallHeader 7) .small) 1007 (smallHeader 1) (by decide +kernel)
  refine ⟨s', hrun, ?_⟩
  rintro ⟨p, hp', hsame, _, _⟩
  cases hp.symm.trans hp'
  exact absurd (hheader.symm.trans hsame) (by decide)

end Ybtc
