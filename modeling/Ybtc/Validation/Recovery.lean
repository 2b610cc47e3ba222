import Ybtc.Validation.Replay

/-!
# Recovery from an interrupted flush

A flush that was cut off leaves each coin as it was or as it should have become.  Rolling the blocks
of the new branch forward completes it: at every outpoint a block either writes a fixed answer or
leaves what is there, so it does not matter which of its effects had already reached the disk.  The
main result is `replayBlocks_recovers_iff`.
-/

namespace Ybtc

open Fallible CCoinsViewCache Stateful List Option UtxoSet CBlockIndex Uint256

variable {v v' : CCoinsViewCache}

/-! ## One transaction -/

/-- Outputs that are coins: their value is not the one that marks a spent coin. -/
def ProperOutputs (vout : List CTxOut) : Prop := ∀ out ∈ vout, out.isNull = false

/-- A view that a replay may be working on. -/
structure Replaying (v₀ v : CCoinsViewCache) : Prop where
  coherent : v.Coherent
  base : v.base = v₀.base

lemma spendUnchecked_coinAt {v0 : CCoinsViewCache} : ∀ (os : List COutPoint) {v : CCoinsViewCache},
    Replaying v0 v → Replaying v0 (spendUnchecked os v) ∧
      (spendUnchecked os v).coinAt = spendAll os v.coinAt
  | [], v, h => ⟨h, by funext o; simp [spendUnchecked, spendAll]⟩
  | o :: os, v, h => by
    have hstep : Replaying v0 (v.spendCoin o).2 :=
      ⟨spendCoin_coherent h.coherent, (spendCoin_updates h.coherent.toWF o).base.trans h.base⟩
    obtain ⟨hrest, hco⟩ := spendUnchecked_coinAt os hstep
    refine ⟨hrest, ?_⟩
    change (spendUnchecked os (v.spendCoin o).2).coinAt = _
    rw [hco]
    funext p
    simp only [spendAll, spendCoin_coinAt h.coherent.toWF, mem_cons]
    by_cases hp : p = o
    · simp [hp]
    · simp [hp]

lemma addCoinsChecked_coinAt {txid : Uint256} {cb : Bool} {nHeight : ℕ} {v0 : CCoinsViewCache} :
    ∀ {vout : List CTxOut} {i : ℕ} {v : CCoinsViewCache}, Replaying v0 v → ProperOutputs vout →
      ∃ v', addCoinsChecked txid cb nHeight i vout v = .ok v' ∧ Replaying v0 v' ∧
        v'.coinAt = addAll (createdFrom txid cb nHeight i vout) v.coinAt
  | [], i, v, h, _ => by
    refine ⟨v, rfl, h, ?_⟩
    funext o
    simp [addAll, createdFrom_nil]
  | out :: vout, i, v, h, hp => by
    rw [ProperOutputs, forall_mem_cons] at hp
    have hf := haveCoin_fetched v ⟨txid, i⟩
    have hco : (v.haveCoin ⟨txid, i⟩).2.Coherent := hf.coherent h.coherent
    by_cases hu : isUnspendable out.scriptPubKey = true
    · -- An output nobody can spend leaves the view as the query left it.
      have hadd : (v.haveCoin ⟨txid, i⟩).2.addCoin ⟨txid, i⟩ ⟨out, cb, nHeight⟩
          (v.haveCoin ⟨txid, i⟩).1 = .ok (v.haveCoin ⟨txid, i⟩).2 := by
        rw [addCoin, if_neg (by simp [Coin.isSpent, hp.1]), if_pos hu]
      obtain ⟨v', hrun, hre, hv'⟩ := @addCoinsChecked_coinAt txid cb nHeight v0 vout (i + 1) _
        ⟨hco, hf.base.trans h.base⟩ hp.2
      refine ⟨v', ?_, hre, ?_⟩
      · rw [addCoinsChecked, hadd]
        exact hrun
      · rw [hv', createdFrom_skip hu, funext hf.coinAt]
    · obtain ⟨v1, hadd, hup⟩ := addCoin_updates (hf.wf h.coherent.toWF)
        (fun hno : (v.haveCoin ⟨txid, i⟩).1 = false => by
          rw [haveCoin_eq] at hno
          rw [hf.coinAt]
          simpa using hno)
        (show Coin.isSpent ⟨out, cb, nHeight⟩ = false from hp.1) (Bool.eq_false_iff.mpr hu)
      obtain ⟨v', hrun, hre, hv'⟩ := @addCoinsChecked_coinAt txid cb nHeight v0 vout (i + 1) v1
        ⟨addCoin_coherent hco hup.wf hadd, hup.base.trans (hf.base.trans h.base)⟩ hp.2
      refine ⟨v', ?_, hre, ?_⟩
      · rw [addCoinsChecked, hadd]
        exact hrun
      · exact hv'.trans (addAll_createdFrom (Bool.eq_false_iff.mpr hu) hup.self fun o ho => by
          rw [hup.other o ho, hf.coinAt])

/-- **One transaction rolled forward** does to the answers what `applyTx` does, from any view. -/
lemma rollforwardTx_coinAt {H : Hashes} {nHeight : ℕ} {tx : CTransaction} {v0 : CCoinsViewCache}
    (h : Replaying v0 v) (hp : ProperOutputs tx.vout) :
    ∃ v', rollforwardTx H nHeight v tx = .ok v' ∧ Replaying v0 v' ∧
      v'.coinAt = applyTx H nHeight tx v.coinAt := by
  obtain ⟨hsp, hco⟩ := spendUnchecked_coinAt tx.spends h
  obtain ⟨v', hrun, hre, hv'⟩ :=
    @addCoinsChecked_coinAt (H.txid tx) tx.isCoinBase nHeight v0 tx.vout 0
    _ hsp hp
  refine ⟨v', hrun, hre, ?_⟩
  rw [hv', hco]
  rfl

/-- A transaction is an overwrite. -/
lemma applyTx_overwrites (H : Hashes) (nHeight : ℕ) (tx : CTransaction) :
    Overwrite.Overwrites (applyTx H nHeight tx) := by
  intro o
  unfold applyTx addAll spendAll
  cases hc : created H nHeight tx o with
  | some c => exact Or.inl ⟨some c, fun f => rfl⟩
  | none =>
    by_cases ho : o ∈ tx.spends
    · exact Or.inl ⟨none, fun f => by simp [ho]⟩
    · exact Or.inr fun f => by simp [ho]

/-! ## Blocks -/

/-- What the transactions of a block do. -/
def UtxoSet.applyBlock (H : Hashes) (nHeight : ℕ) (vtx : List CTransaction)
    (f : UtxoSet) : UtxoSet :=
  vtx.foldl (fun f tx => applyTx H nHeight tx f) f

variable {ctx : ReplayContext}

/-- What the block of an index object does, as it is stored on disk. -/
def applyIndex (ctx : ReplayContext) (f : UtxoSet) (p : CBlockIndex) : UtxoSet :=
  applyBlock ctx.H p.nHeight (((ctx.readBlockFromDisk p).map CBlock.vtx).getD []) f

/-- **The UTXO set of a chain**, the last block first.  The genesis block creates no coins. -/
def utxoAlong (ctx : ReplayContext) : List CBlockIndex → UtxoSet
  | [] => fun _ => none
  | p :: ps => if p.nHeight = 0 then utxoAlong ctx ps else applyIndex ctx (utxoAlong ctx ps) p

/-- The UTXO set of a block. -/
def utxoOf (ctx : ReplayContext) (p : CBlockIndex) : UtxoSet := utxoAlong ctx p.chain

/-- The block is on disk and its outputs are coins. -/
def Stored (ctx : ReplayContext) (p : CBlockIndex) : Prop :=
  ∃ block, ctx.readBlockFromDisk p = some block ∧ ∀ tx ∈ block.vtx, ProperOutputs tx.vout

lemma rollforwardTxs_coinAt {H : Hashes} {nHeight : ℕ} {v0 : CCoinsViewCache} :
    ∀ {vtx : List CTransaction} {v : CCoinsViewCache}, Replaying v0 v →
      (∀ tx ∈ vtx, ProperOutputs tx.vout) →
      ∃ v', vtx.foldlM (rollforwardTx H nHeight) v = .ok v' ∧ Replaying v0 v' ∧
        v'.coinAt = applyBlock H nHeight vtx v.coinAt
  | [], v, h, _ => ⟨v, rfl, h, rfl⟩
  | tx :: vtx, v, h, hp => by
    rw [forall_mem_cons] at hp
    obtain ⟨v1, hrun1, hre1, hco1⟩ := rollforwardTx_coinAt (H := H) h hp.1
    obtain ⟨v', hrun, hre, hco⟩ := @rollforwardTxs_coinAt H nHeight v0 vtx v1 hre1 hp.2
    refine ⟨v', ?_, hre, ?_⟩
    · rw [foldlM_cons, hrun1]
      exact hrun
    · rw [hco, hco1]
      rfl

/-- **The blocks of a branch rolled forward.** -/
lemma rollforward_coinAt {v0 : CCoinsViewCache} {pindexNew : CBlockIndex} :
    ∀ {qs : List CBlockIndex} {v : CCoinsViewCache}, Replaying v0 v →
      (∀ q ∈ qs, pindexNew.getAncestor q.nHeight = some q ∧ Stored ctx q) →
      ∃ v', rollforward ctx pindexNew (qs.map nHeight) v = .ok (some v') ∧
        Replaying v0 v' ∧ v'.coinAt = qs.foldl (applyIndex ctx) v.coinAt
  | [], v, h, _ => ⟨v, rfl, h, rfl⟩
  | q :: qs, v, h, hq => by
    rw [forall_mem_cons] at hq
    obtain ⟨hanc, block, hread, hp⟩ := hq.1
    obtain ⟨v1, hrun1, hre1, hco1⟩ := @rollforwardTxs_coinAt ctx.H q.nHeight v0 block.vtx v h hp
    obtain ⟨v', hrun, hre, hco⟩ := @rollforward_coinAt v0 pindexNew qs v1 hre1 hq.2
    have hblock : rollforwardBlock ctx q v = .ok (some v1) := by
      simp only [rollforwardBlock, hread, hrun1]
      rfl
    refine ⟨v', ?_, hre, ?_⟩
    · simp only [map_cons, rollforward, hanc, hblock]
      exact hrun
    · rw [hco, hco1, foldl_cons]
      simp only [applyIndex, hread, map_some, getD_some]

/-! ## Chains -/

/-- The heights count down to the genesis block. -/
def Heights : List IndexEntry → Prop
  | [] => True
  | e :: es => e.nHeight = es.length ∧ Heights es

/-- The height of a block is the number of its predecessors, and so for all of these. -/
structure ProperIndex (p : CBlockIndex) : Prop where
  height : p.nHeight = p.ancestors.length
  heights : Heights p.ancestors

lemma indicesOf_nHeight : ∀ {es : List IndexEntry}, Heights es →
    (indicesOf es).map nHeight = (List.range es.length).reverse
  | [], _ => rfl
  | e :: es, h => by
    rw [indicesOf, map_cons, indicesOf_nHeight h.2, length_cons, range_succ,
      reverse_append, reverse_singleton, singleton_append]
    exact congrArg (· :: _) h.1

variable {p : CBlockIndex}

lemma ProperIndex.chain_nHeight (h : ProperIndex p) :
    p.chain.map nHeight = (List.range (p.nHeight + 1)).reverse := by
  rw [chain, map_cons, indicesOf_nHeight h.heights, ← h.height, range_succ,
    reverse_append, reverse_singleton, singleton_append]

variable {q : CBlockIndex}

lemma nHeight_lt_of_mem {es : List IndexEntry} (h : Heights es)
    (hq : q ∈ indicesOf es) : q.nHeight < es.length := by
  have hm : q.nHeight ∈ (indicesOf es).map nHeight := mem_map_of_mem hq
  rw [indicesOf_nHeight h, mem_reverse, mem_range] at hm
  exact hm

lemma ancestorIn_of_mem : ∀ {es : List IndexEntry}, Heights es → ∀ {q : CBlockIndex},
    q ∈ indicesOf es → ancestorIn q.nHeight es = some q
  | [], _, q, hq => by cases hq
  | e :: es, h, q, hq => by
    rw [indicesOf, mem_cons] at hq
    rw [ancestorIn]
    rcases hq with rfl | hq
    · exact if_pos rfl
    · have hlt := nHeight_lt_of_mem h.2 hq
      rw [if_neg (by rw [h.1]; omega)]
      exact ancestorIn_of_mem h.2 hq

/-- `GetAncestor` finds the blocks of the chain by their height. -/
lemma ProperIndex.getAncestor (h : ProperIndex p) (hq : q ∈ p.chain) :
    p.getAncestor q.nHeight = some q := by
  rw [chain, mem_cons] at hq
  unfold CBlockIndex.getAncestor
  rcases hq with rfl | hq
  · rw [if_neg (lt_irrefl _), if_pos rfl]
  · have hlt := nHeight_lt_of_mem h.heights hq
    rw [← h.height] at hlt
    rw [if_neg (by omega), if_neg (by omega)]
    exact ancestorIn_of_mem h.heights hq

lemma indicesOf_split : ∀ {es : List IndexEntry} {q : CBlockIndex}, q ∈ indicesOf es →
    ∃ above, indicesOf es = above ++ q.chain
  | [], q, hq => by cases hq
  | e :: es, q, hq => by
    rw [indicesOf, mem_cons] at hq
    rcases hq with rfl | hq
    · exact ⟨[], rfl⟩
    · obtain ⟨above, h⟩ := indicesOf_split hq
      exact ⟨e.toIndex es :: above, by rw [indicesOf, h, cons_append]⟩

/-- The chain of a predecessor is the end of the chain. -/
lemma chain_split (hq : q ∈ p.chain) : ∃ above, p.chain = above ++ q.chain := by
  rw [chain, mem_cons] at hq
  rcases hq with rfl | hq
  · exact ⟨[], rfl⟩
  · obtain ⟨above, h⟩ := indicesOf_split hq
    exact ⟨p :: above, by rw [chain, h, cons_append]⟩

/-- The blocks above a predecessor, from the lowest on, have the heights that are rolled forward. -/
lemma heights_above (hp : ProperIndex p) (hq : ProperIndex q)
    {above : List CBlockIndex} (h : p.chain = above ++ q.chain) :
    above.reverse.map nHeight = List.range' (q.nHeight + 1) (p.nHeight - q.nHeight) := by
  have hmap := congrArg (fun l => (l.map nHeight).reverse) h
  simp only [map_append, reverse_append, hp.chain_nHeight, hq.chain_nHeight,
    reverse_reverse] at hmap
  have hlen := congrArg List.length hmap
  simp only [length_range, length_append, length_reverse, length_map] at hlen
  rw [map_reverse]
  have hdrop := congrArg (List.drop (q.nHeight + 1)) hmap
  rw [drop_left' (by simp), range_eq_range', drop_range'] at hdrop
  rw [← hdrop]
  congr 1 <;> omega

/-- **The UTXO set above a predecessor.** -/
lemma utxoAlong_append : ∀ {above : List CBlockIndex} {ps : List CBlockIndex},
    (∀ q ∈ above, q.nHeight ≠ 0) →
    utxoAlong ctx (above ++ ps) = above.reverse.foldl (applyIndex ctx) (utxoAlong ctx ps)
  | [], ps, _ => rfl
  | q :: above, ps, h => by
    rw [forall_mem_cons] at h
    rw [cons_append, utxoAlong, if_neg h.1, utxoAlong_append h.2, reverse_cons, foldl_append]
    rfl

/-! ## The fork -/

lemma walkTogether_mem : ∀ {as bs : List CBlockIndex} {f : CBlockIndex},
    walkTogether as bs = .ok (some f) → f ∈ as ∧ f ∈ bs
  | [], [], f, h | [], _ :: _, f, h | _ :: _, [], f, h => by cases h
  | pa :: as, pb :: bs, f, h => by
    rw [walkTogether] at h
    split_ifs at h with heq
    · cases Except.ok.inj h
      exact ⟨mem_cons_self, heq ▸ mem_cons_self⟩
    · obtain ⟨ha, hb⟩ := walkTogether_mem h
      exact ⟨mem_cons_of_mem _ ha, mem_cons_of_mem _ hb⟩

lemma mem_chain_of_ancestorIn : ∀ {es : List IndexEntry} {h : ℕ} {q : CBlockIndex},
    ancestorIn h es = some q → q ∈ indicesOf es
  | [], h, q, hq => by cases hq
  | e :: es, h, q, hq => by
    rw [ancestorIn] at hq
    rw [indicesOf, mem_cons]
    split_ifs at hq
    · exact Or.inl (some.inj hq).symm
    · exact Or.inr (mem_chain_of_ancestorIn hq)

lemma mem_chain_of_getAncestor {h : ℕ} (hq : p.getAncestor h = some q) : q ∈ p.chain := by
  unfold CBlockIndex.getAncestor at hq
  rw [chain, mem_cons]
  split_ifs at hq
  · exact Or.inl (some.inj hq).symm
  · exact Or.inr (mem_chain_of_ancestorIn hq)

/-- A chain contains the chains of its blocks. -/
lemma chain_subset {r : CBlockIndex} (hq : q ∈ p.chain) (hr : r ∈ q.chain) : r ∈ p.chain := by
  obtain ⟨above, h⟩ := chain_split hq
  rw [h]
  exact mem_append_right _ hr

/-- The fork lies on the new branch. -/
lemma lastCommonAncestor_mem {pa pb f : CBlockIndex}
    (h : lastCommonAncestor pa pb = .ok (some f)) : f ∈ pb.chain := by
  have hf := (walkTogether_mem h).2
  split_ifs at hf with hlt
  · cases hb : pb.getAncestor pa.nHeight with
    | none => rw [hb] at hf; cases hf
    | some q =>
      rw [hb] at hf
      exact chain_subset (mem_chain_of_getAncestor hb) hf
  · exact hf

/-- An old tip on the new branch is the fork. -/
lemma lastCommonAncestor_of_mem {pa pb : CBlockIndex} (hb : ProperIndex pb) (h : pa ∈ pb.chain) :
    lastCommonAncestor pa pb = .ok (some pa) := by
  have hanc := hb.getAncestor h
  have hle : pa.nHeight ≤ pb.nHeight := by
    have hm : pa.nHeight ∈ pb.chain.map nHeight := mem_map_of_mem h
    rw [hb.chain_nHeight, mem_reverse, mem_range] at hm
    omega
  unfold lastCommonAncestor
  simp only [if_neg (not_lt.mpr hle)]
  by_cases hlt : pa.nHeight < pb.nHeight
  · rw [if_pos hlt, hanc]
    simp [chain, walkTogether]
  · have heq : pb = pa := by
      unfold CBlockIndex.getAncestor at hanc
      rw [if_neg (by omega), if_pos (by omega)] at hanc
      exact some.inj hanc
    rw [if_neg hlt, heq]
    simp [chain, walkTogether]

/-! ## Rolling back without a contract state -/

/-- **`DisconnectBlock` never gets through before `pState` exists.** -/
lemma disconnectBlock_absent {H : Hashes} {root : Uint256} {files : UndoFiles} {block : CBlock}
    {pindex : CBlockIndex} {s s' : Unit} {d : DisconnectResult}
    (h : disconnectBlock H (.absent root) files block pindex v s = .ok d s') : d = .failed := by
  unfold disconnectBlock at h
  split_ifs at h
  · exact (EStateM.Result.ok.inj h).1.symm
  · cases hprev : pindex.pprev with
    | none => rw [hprev] at h; cases h
    | some prev =>
      rw [hprev] at h
      cases hread : files.undoReadFromDisk pindex with
      | none =>
        rw [hread] at h
        exact (EStateM.Result.ok.inj h).1.symm
      | some vtxundo =>
        rw [hread] at h
        simp only at h
        rcases hrun : disconnectTxs H block pindex.nHeight vtxundo v with (_ | f) | ⟨fClean, w⟩ <;>
          rw [hrun] at h
        · exact (EStateM.Result.ok.inj h).1.symm
        · cases h
        · obtain ⟨_, _, hset, _⟩ := bind_ok.mp h
          cases hset

/-! ## The block tree on disk -/

/-- **What is assumed of the block tree**: no block has the null hash, every entry of the index is
    known under its own hash and has its height, all chains start at one genesis block, and the
    blocks above it are on disk. -/
structure BlockTree (ctx : ReplayContext) : Prop where
  noNull : ctx.mapBlockIndex null = none
  hash : ∀ h p, ctx.mapBlockIndex h = some p → p.phashBlock = some h
  proper : ∀ h p, ctx.mapBlockIndex h = some p → ProperIndex p
  rooted : ∃ g, ∀ h p, ctx.mapBlockIndex h = some p → p.chain.getLast? = some g
  stored : ∀ h p, ctx.mapBlockIndex h = some p → ∀ q ∈ p.chain, q.nHeight ≠ 0 → Stored ctx q

lemma properIndex_of_mem : ∀ {es : List IndexEntry}, Heights es → ∀ {q : CBlockIndex},
    q ∈ indicesOf es → ProperIndex q
  | [], _, q, hq => by cases hq
  | e :: es, h, q, hq => by
    rw [indicesOf, mem_cons] at hq
    rcases hq with rfl | hq
    · exact ⟨h.1, h.2⟩
    · exact properIndex_of_mem h.2 hq

lemma ProperIndex.of_mem (h : ProperIndex p) (hq : q ∈ p.chain) : ProperIndex q := by
  rw [chain, mem_cons] at hq
  rcases hq with rfl | hq
  · exact h
  · exact properIndex_of_mem h.heights hq

/-- A block of height 0 has no predecessors. -/
lemma ProperIndex.chain_of_zero (h : ProperIndex p) (h0 : p.nHeight = 0) : p.chain = [p] := by
  rw [h.height, length_eq_zero_iff] at h0
  rw [chain, h0]
  rfl

/-- The first block of a chain has height 0. -/
lemma ProperIndex.nHeight_last {g : CBlockIndex} (h : ProperIndex p)
    (hg : p.chain.getLast? = some g) : g.nHeight = 0 := by
  have hlast : (p.chain.map nHeight).getLast? = some g.nHeight := by
    rw [getLast?_map, hg]
    rfl
  rw [h.chain_nHeight, getLast?_reverse, range_succ_eq_map] at hlast
  simpa using hlast.symm

/-- The coins of a chain that is on disk are unspent. -/
lemma applyBlock_unspent {H : Hashes} {nHeight : ℕ} : ∀ {vtx : List CTransaction} {f : UtxoSet},
    (∀ tx ∈ vtx, ProperOutputs tx.vout) → (∀ o c, f o = some c → c.isSpent = false) →
    ∀ o c, applyBlock H nHeight vtx f o = some c → c.isSpent = false
  | [], f, _, hf, o, c, h => hf o c h
  | tx :: vtx, f, hp, hf, o, c, h => by
    rw [forall_mem_cons] at hp
    refine @applyBlock_unspent H nHeight vtx _ hp.2 ?_ o c h
    intro o c ho
    simp only [applyTx, addAll, spendAll] at ho
    cases hc : created H nHeight tx o with
    | some c' =>
      rw [hc] at ho
      obtain rfl : c' = c := by simpa using ho
      exact hp.1 _ (createdFrom_some hc).2.2.2.2.2
    | none =>
      rw [hc, none_or] at ho
      split_ifs at ho
      exact hf o c ho

lemma utxoAlong_unspent : ∀ {ps : List CBlockIndex}, (∀ q ∈ ps, q.nHeight ≠ 0 → Stored ctx q) →
    ∀ o c, utxoAlong ctx ps o = some c → c.isSpent = false
  | [], _, o, c, h => by cases h
  | p :: ps, hs, o, c, h => by
    rw [forall_mem_cons] at hs
    rw [utxoAlong] at h
    split_ifs at h with h0
    · exact utxoAlong_unspent hs.2 o c h
    · obtain ⟨block, hread, hp⟩ := hs.1 h0
      rw [applyIndex, hread] at h
      exact applyBlock_unspent hp (utxoAlong_unspent hs.2) o c h

/-! ## The theorem -/

/-- **The flush is completed**: `ReplayBlocks`, run where the start-up runs it, returns `true` and
    leaves exactly the coins of the new tip, with that tip as the best block. -/
def Recovers (ctx : ReplayContext) (root : Uint256) (it : Iteration) (db : CCoinsViewDB)
    (pindexNew : CBlockIndex) : Prop :=
  ∃ db', replayBlocks ctx (.absent root) it db () = .ok (true, db') () ∧
    (∀ o, db'.coins.lookup o = utxoOf ctx pindexNew o) ∧
    db'.bestBlock = some pindexNew.getBlockHash ∧ db'.headBlocks = none

variable (it : Iteration) {db : CCoinsViewDB} {hashNew hashOld : Uint256}
  {pindexNew base : CBlockIndex}

/-- **Rolling forward from a block of the new branch completes the flush.** -/
lemma rollforward_completes (tree : BlockTree ctx)
    (hnew : ctx.mapBlockIndex hashNew = some pindexNew) (hbase : base ∈ pindexNew.chain)
    (hi : Interrupted db hashNew hashOld (utxoOf ctx pindexNew) (utxoOf ctx base)) :
    ∃ v, rollforward ctx pindexNew
        (List.range' (base.nHeight + 1) (pindexNew.nHeight - base.nHeight)) db.newCache =
        .ok (some v) ∧
      ∃ db', flushReplayed it db pindexNew v = .ok (true, db') ∧
        (∀ o, db'.coins.lookup o = utxoOf ctx pindexNew o) ∧
        db'.bestBlock = some pindexNew.getBlockHash ∧ db'.headBlocks = none := by
  have hproper := tree.proper _ _ hnew
  obtain ⟨above, habove⟩ := chain_split hbase
  have hheights := heights_above hproper (hproper.of_mem hbase) habove
  have hmem : ∀ q ∈ above.reverse, q ∈ pindexNew.chain := by
    intro q hq
    rw [habove]
    exact mem_append_left _ (mem_reverse.mp hq)
  have hpos : ∀ q ∈ above.reverse, q.nHeight ≠ 0 := by
    intro q hq h0
    have hm : q.nHeight ∈ above.reverse.map nHeight := mem_map_of_mem hq
    rw [hheights, mem_range'_1] at hm
    omega
  have hutxo : utxoOf ctx pindexNew = above.reverse.foldl (applyIndex ctx) (utxoOf ctx base) := by
    rw [utxoOf, habove, utxoAlong_append (fun q hq => hpos q (mem_reverse.mpr hq))]
    rfl
  have hunspent : db.Unspent := by
    intro o c hc
    rcases hi.coins o with h | h
    · exact utxoAlong_unspent (fun q hq => tree.stored _ _ hnew q (chain_subset hbase hq)) o c
        (h.symm.trans hc)
    · exact utxoAlong_unspent (fun q hq => tree.stored _ _ hnew q hq) o c (h.symm.trans hc)
  have hcache : db.newCache.coinAt = fun o => db.coins.lookup o := by
    funext o
    simp only [CCoinsViewDB.newCache, ofBase, coinAt, Finmap.lookup_empty]
    cases hc : db.coins.lookup o with
    | none => rfl
    | some c => simp [hunspent o c hc]
  obtain ⟨v, hrun, hre, hco⟩ := @rollforward_coinAt ctx db.newCache pindexNew above.reverse
    db.newCache ⟨coherent_empty rfl, rfl⟩
    (fun q hq => ⟨hproper.getAncestor (hmem q hq), tree.stored _ _ hnew q (hmem q hq) (hpos q hq)⟩)
  rw [hheights] at hrun
  -- What was on disk is a mixture of the two sets, and the branch overwrites.
  have hfinal : v.coinAt = utxoOf ctx pindexNew := by
    rw [hco, hcache, hutxo]
    refine Overwrite.replay_mixture
      (Overwrite.overwrites_foldl (fun p => Overwrite.overwrites_foldl
        (fun tx => applyTx_overwrites ctx.H p.nHeight tx) _) above.reverse) ?_
    have hmix := hi.coins
    rw [hutxo] at hmix
    exact hmix
  refine ⟨v, hrun, ⟨(it.toList v.cacheCoins).foldl writeCoin db.coins, some pindexNew.getBlockHash,
    none⟩, ?_, ?_, rfl, rfl⟩
  · have hhash : pindexNew.getBlockHash = hashNew := by
      rw [getBlockHash, tree.hash _ _ hnew]
      rfl
    have htip : db.oldTip pindexNew.getBlockHash = .ok hashOld := by
      simp [CCoinsViewDB.oldTip, CCoinsViewDB.getBestBlock, CCoinsViewDB.getHeadBlocks, hi.best,
        hi.heads, hhash]
    have hknown : ¬ pindexNew.getBlockHash = null := by rw [hhash]; exact hi.known
    simp [flushReplayed, CCoinsViewDB.batchWrite, failIf, hknown, htip, bind,
      Except.bind, Except.map]
  · intro o
    rw [← hfinal]
    exact batchWrite_coins hre.coherent hre.base hunspent (it.complete _) o

/-- The coins of an old tip; before the first flush there are none. -/
def oldCoins (ctx : ReplayContext) (old : Option CBlockIndex) : UtxoSet :=
  old.elim (fun _ => none) (utxoOf ctx)

/-- The hash recorded for an old tip. -/
def oldHash (old : Option CBlockIndex) : Uint256 := old.elim null getBlockHash

/-- A replay that only rolls forward. -/
lemma recovers_of_rollforward (root : Uint256) (old fork : Option CBlockIndex)
    (tree : BlockTree ctx) (hnew : ctx.mapBlockIndex hashNew = some pindexNew)
    (hbase : base ∈ pindexNew.chain)
    (hi : Interrupted db hashNew hashOld (utxoOf ctx pindexNew) (utxoOf ctx base))
    (hheight : fork.elim 0 nHeight = base.nHeight)
    (hback : rollback ctx (.absent root) fork (old.elim [] chain) db.newCache ()
      = .ok (some db.newCache) ()) :
    ∃ db', replayFrom ctx (.absent root) it db pindexNew old fork () = .ok (true, db') () ∧
      (∀ o, db'.coins.lookup o = utxoOf ctx pindexNew o) ∧
      db'.bestBlock = some pindexNew.getBlockHash ∧ db'.headBlocks = none := by
  obtain ⟨v, hrun, db', hflush, hres⟩ := rollforward_completes it tree hnew hbase hi
  refine ⟨db', ?_, hres⟩
  refine bind_ok.mpr ⟨_, _, hback, ?_⟩
  simp only [hheight]
  refine bind_ok.mpr ⟨_, _, liftExcept_apply_ok.mpr ⟨hrun, rfl⟩, ?_⟩
  exact liftExcept_apply_ok.mpr ⟨hflush, rfl⟩

/-- A replay that has to roll back does not return `true`. -/
lemma replayFrom_absent {root : Uint256} {pindexOld pindexFork : CBlockIndex} {db' : CCoinsViewDB}
    {s s' : Unit} (hne : pindexFork ≠ pindexOld) (hpos : pindexOld.nHeight ≠ 0)
    (h : replayFrom ctx (.absent root) it db pindexNew (some pindexOld) (some pindexFork) s
      = .ok (true, db') s') : False := by
  obtain ⟨v?, s1, hback, hrest⟩ := bind_ok.mp h
  have hnone : v? = none := by
    simp only [elim_some, chain, rollback] at hback
    rw [if_neg (by simpa using hne), if_neg hpos] at hback
    cases hread : ctx.readBlockFromDisk pindexOld with
    | none =>
      rw [hread] at hback
      exact (EStateM.Result.ok.inj hback).1.symm
    | some block =>
      rw [hread] at hback
      obtain ⟨d, s2, hd, hrec⟩ := bind_ok.mp hback
      obtain rfl := disconnectBlock_absent hd
      exact (EStateM.Result.ok.inj hrec).1.symm
  subst hnone
  cases hrest

/-- **The database is recovered if and only if the old tip lies on the branch of the new one** (or
    there was no old tip).  The database is any mixture of the two sets of coins; the iteration
    order of the cache is arbitrary. -/
theorem replayBlocks_recovers_iff (root : Uint256) (old : Option CBlockIndex)
    (tree : BlockTree ctx) (hnew : ctx.mapBlockIndex hashNew = some pindexNew)
    (hold : ∀ p, old = some p → ∃ h, ctx.mapBlockIndex h = some p)
    (hi : Interrupted db hashNew (oldHash old) (utxoOf ctx pindexNew) (oldCoins ctx old)) :
    Recovers ctx root it db pindexNew ↔ ∀ p, old = some p → p ∈ pindexNew.chain := by
  have hproper := tree.proper _ _ hnew
  obtain ⟨g, hg⟩ := tree.rooted
  have hgmem : g ∈ pindexNew.chain := mem_of_getLast? (hg _ _ hnew)
  have hheads : db.getHeadBlocks = [hashNew, oldHash old] := by
    rw [CCoinsViewDB.getHeadBlocks, hi.heads]
    rfl
  unfold Recovers replayBlocks
  simp only [hheads, hnew]
  cases old with
  | none =>
    -- The first flush: everything above the genesis block is rolled forward.
    have hg0 := hproper.nHeight_last (hg _ _ hnew)
    have hempty : utxoOf ctx g = fun _ => none := by
      rw [utxoOf, (hproper.of_mem hgmem).chain_of_zero hg0, utxoAlong, if_pos hg0]
      rfl
    have hi' : Interrupted db hashNew null (utxoOf ctx pindexNew) (utxoOf ctx g) := by
      rw [hempty]
      exact hi
    simp only [oldHash, elim_none]
    constructor
    · intro _ p hp
      cases hp
    · intro _
      exact recovers_of_rollforward it root none none tree hnew hgmem hi' hg0.symm rfl
  | some pindexOld =>
    obtain ⟨h, hmap⟩ := hold pindexOld rfl
    have hhash : pindexOld.getBlockHash = h := by
      rw [getBlockHash, tree.hash _ _ hmap]
      rfl
    have hnn : ¬ h = null := by
      rintro rfl
      rw [tree.noNull] at hmap
      cases hmap
    simp only [oldHash, elim_some, hhash, if_neg hnn, hmap]
    constructor
    · rintro ⟨db', hrun, _⟩ p hp
      cases hp
      obtain ⟨fork, s1, hlift, hrest⟩ := bind_ok.mp hrun
      obtain ⟨hfork, _⟩ := liftExcept_apply_ok.mp hlift
      cases fork with
      | none => cases hrest
      | some pindexFork =>
        have hmem := lastCommonAncestor_mem hfork
        by_contra hno
        have hne : pindexFork ≠ pindexOld := by
          rintro rfl
          exact hno hmem
        -- A tip of height 0 would be the common genesis block.
        have hpos : pindexOld.nHeight ≠ 0 := by
          intro h0
          have hlast := hg _ _ hmap
          rw [(tree.proper _ _ hmap).chain_of_zero h0] at hlast
          cases hlast
          exact hno hgmem
        exact replayFrom_absent it hne hpos hrest
    · intro hmem
      have hmem' := hmem pindexOld rfl
      have hfork := lastCommonAncestor_of_mem hproper hmem'
      obtain ⟨db', hrun, hres⟩ := recovers_of_rollforward it root (some pindexOld)
        (some pindexOld) tree hnew hmem' hi rfl (by
          simp only [elim_some, chain, rollback, if_true]
          rfl)
      refine ⟨db', ?_, hres⟩
      exact bind_ok.mpr ⟨_, _, liftExcept_apply_ok.mpr ⟨hfork, rfl⟩, hrun⟩

/-! ## Two branches -/

/-- A block on top of genesis. -/
def forkIndex (hash : Uint256) : CBlockIndex := ⟨some hash, 1, 1600000010, null, [genesisEntry]⟩

/-- The coinbase of one of the branches. -/
def forkCoinbase (hash : Uint256) : CTransaction :=
  { smallCoinbase with nVersion := if hash = 1001#256 then 1 else 2 }

/-- **Two blocks on top of genesis**, with the hashes 1001 and 1002. -/
def ReplayContext.forked : ReplayContext where
  H := .small
  mapBlockIndex h :=
    if h = 1000#256 then some (genesisEntry.toIndex [])
    else if h = 1001#256 ∨ h = 1002#256 then some (forkIndex h)
    else none
  readBlockFromDisk p := p.phashBlock.map fun h => { smallBlock [] with vtx := [forkCoinbase h] }
  files := ⟨fun _ => true, fun _ => some []⟩

lemma forked_mapBlockIndex {h : Uint256} (hp : ReplayContext.forked.mapBlockIndex h = some p) :
    (h = 1000#256 ∧ p = genesisEntry.toIndex []) ∨ p = forkIndex h := by
  simp only [ReplayContext.forked] at hp
  split_ifs at hp with h0 h1
  · exact Or.inl ⟨h0, (some.inj hp).symm⟩
  · exact Or.inr (some.inj hp).symm

lemma forked_blockTree : BlockTree .forked where
  noNull := by decide
  hash h p hp := by
    rcases forked_mapBlockIndex hp with ⟨rfl, rfl⟩ | rfl <;> rfl
  proper h p hp := by
    rcases forked_mapBlockIndex hp with ⟨rfl, rfl⟩ | rfl
    · exact ⟨rfl, trivial⟩
    · exact ⟨rfl, rfl, trivial⟩
  rooted := ⟨genesisEntry.toIndex [], fun h p hp => by
    rcases forked_mapBlockIndex hp with ⟨rfl, rfl⟩ | rfl <;> rfl⟩
  stored h p hp q hq hpos := by
    rcases forked_mapBlockIndex hp with ⟨rfl, rfl⟩ | rfl
    · obtain rfl : q = genesisEntry.toIndex [] := mem_singleton.mp hq
      exact absurd rfl hpos
    · rcases (by simpa [chain, indicesOf, forkIndex] using hq :
        q = forkIndex h ∨ q = genesisEntry.toIndex []) with rfl | rfl
      · refine ⟨_, rfl, ?_⟩
        intro tx htx out hout
        obtain rfl : tx = forkCoinbase h := by simpa using htx
        obtain rfl : out = ⟨8 * coin, [OP_1]⟩ := by
          simpa [forkCoinbase, smallCoinbase] using hout
        decide
      · exact absurd rfl hpos

/-- The one coin of a branch. -/
def forkOutpoint (hash : Uint256) : COutPoint := ⟨Hashes.small.txid (forkCoinbase hash), 0⟩

def forkCoin : Coin := ⟨⟨8 * coin, [OP_1]⟩, true, 1⟩

lemma utxoOf_fork (h : Uint256) (o : COutPoint) : utxoOf .forked (forkIndex h) o
    = (Finmap.singleton (forkOutpoint h) forkCoin : CoinMap).lookup o := by
  have hone : utxoOf .forked (forkIndex h) = applyTx .small 1 (forkCoinbase h) fun _ => none := rfl
  have hcb : (forkCoinbase h).isCoinBase = true := rfl
  rw [hone, applyTx, addAll, spendAll, ite_self, or_none, created, hcb]
  by_cases ho : o = forkOutpoint h
  · subst ho
    rw [Finmap.lookup_singleton_eq]
    exact createdFrom_self _ _ _ _ _ _
  · rw [Finmap.lookup_eq_none.mpr (by simpa using ho)]
    exact (createdFrom_of_ne ho).trans (createdFrom_nil _ _ _ _ _)

/-- A flush to the branch `hash` cut off before its first coin. -/
def cutOff (hash old : Uint256) (coins : CoinMap) : CCoinsViewDB := ⟨coins, none, some [hash, old]⟩

/-- The flush of the first block on top of genesis was cut off; it is completed. -/
theorem replayBlocks_recovers_extension : Recovers .forked null Iteration.arbitrary
    (cutOff 1001#256 1000#256 ∅) (forkIndex 1001#256) :=
  (replayBlocks_recovers_iff Iteration.arbitrary null (some (genesisEntry.toIndex []))
    forked_blockTree rfl (fun p hp => ⟨1000#256, hp⟩)
    ⟨by decide, rfl, rfl, fun o => Or.inl rfl⟩).mpr
    fun p hp => by
      cases hp
      decide

/-- The flush from one branch to the other, cut off before its first coin. -/
def branchCutOff : CCoinsViewDB :=
  cutOff 1002#256 1001#256 (Finmap.singleton (forkOutpoint 1001#256) forkCoin)

/-- **A flush from one branch to the other is not recovered**: rolling the old branch back goes
    through the null pointer. -/
theorem replayBlocks_branch_crashes : BlockTree .forked ∧
      Interrupted branchCutOff 1002#256 1001#256 (utxoOf .forked (forkIndex 1002#256))
        (utxoOf .forked (forkIndex 1001#256)) ∧
      replayBlocks .forked (.absent null) Iteration.arbitrary branchCutOff ()
        = .error (.undefined .nullPointer) () ∧
      ¬ Recovers .forked null Iteration.arbitrary branchCutOff (forkIndex 1002#256) := by
  have hrun : replayBlocks .forked (.absent null) Iteration.arbitrary branchCutOff ()
      = .error (.undefined .nullPointer) () := rfl
  refine ⟨forked_blockTree, ⟨by decide, rfl, rfl, fun o => Or.inl (utxoOf_fork _ o).symm⟩, hrun, ?_⟩
  rintro ⟨db', hok, _⟩
  cases hrun.symm.trans hok

/-! ## Crashes during the replay -/

/-- A start-up whose replay was cut off in its flush: some of the coins are on disk, and the heads
    are still those from before. -/
def CrashedReplay (ctx : ReplayContext) (root : Uint256) (it : Iteration) (db db' : CCoinsViewDB) :
    Prop :=
  ∃ done, replayBlocks ctx (.absent root) it db () = .ok (true, done) () ∧ db'.bestBlock = none ∧
    db'.headBlocks = db.headBlocks ∧ Overwrite.Mixture (fun o => db.coins.lookup o)
      (fun o => done.coins.lookup o) fun o => db'.coins.lookup o

section

variable {root : Uint256} {pindexOld : CBlockIndex} (tree : BlockTree ctx)
  (hnew : ctx.mapBlockIndex hashNew = some pindexNew)
  (hold : ctx.mapBlockIndex hashOld = some pindexOld) (hmem : pindexOld ∈ pindexNew.chain)
  (hi : Interrupted db hashNew hashOld (utxoOf ctx pindexNew) (utxoOf ctx pindexOld))

include tree hnew hold hmem hi

/-- One start-up. -/
lemma recovers_of_interrupted : Recovers ctx root it db pindexNew := by
  have hnn : hashOld ≠ null := by
    rintro rfl
    cases tree.noNull.symm.trans hold
  have hfork := lastCommonAncestor_of_mem (tree.proper _ _ hnew) hmem
  obtain ⟨done, hrun, hres⟩ :=
    recovers_of_rollforward it root (some pindexOld) (some pindexOld) tree
    hnew hmem hi rfl (by
      rw [elim_some, chain, rollback, if_pos rfl]
      rfl)
  refine ⟨done, ?_, hres⟩
  simp only [replayBlocks, CCoinsViewDB.getHeadBlocks, hi.heads, getD_some, hnew, if_neg hnn, hold]
  exact bind_ok.mpr ⟨_, _, liftExcept_apply_ok.mpr ⟨hfork, rfl⟩, hrun⟩

/-- **A flush survives any number of crashes.**  It was cut off, and so were the start-ups that
    followed; the next one completes it. -/
theorem replayBlocks_survives_crashes {db' : CCoinsViewDB}
    (hcrashes : Relation.ReflTransGen (CrashedReplay ctx root it) db db') :
    Recovers ctx root it db' pindexNew := by
  refine recovers_of_interrupted it tree hnew hold hmem ?_
  induction hcrashes with
  | refl => exact hi
  | tail _ h ih =>
    -- What the replay would have written are the coins of the new tip.
    obtain ⟨done, hrun, hbest, hheads, hmix⟩ := h
    obtain ⟨_, hrun', hcoins, -⟩ := recovers_of_interrupted it tree hnew hold hmem ih
    cases hrun.symm.trans hrun'
    refine ⟨hi.known, hheads.trans ih.heads, hbest, fun o => ?_⟩
    rcases hmix o with h | h
    · rw [h]
      exact ih.coins o
    · exact Or.inr (h.trans (hcoins o))

end

/-- The flush of the first block and a start-up, both cut off at once. -/
theorem replayBlocks_survives_one : Recovers .forked null Iteration.arbitrary
    (cutOff 1001#256 1000#256 ∅) (forkIndex 1001#256) :=
  replayBlocks_survives_crashes Iteration.arbitrary forked_blockTree rfl
    (show ReplayContext.forked.mapBlockIndex 1000#256 = some (genesisEntry.toIndex []) from rfl)
    (by decide) ⟨by decide, rfl, rfl, fun _ => Or.inl rfl⟩
    (.single ⟨_, rfl, rfl, rfl, fun _ => Or.inl rfl⟩)

end Ybtc
