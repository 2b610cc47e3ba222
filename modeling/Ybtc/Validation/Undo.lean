import Ybtc.Coins.UtxoSet
import Ybtc.Validation.Supply
import Ybtc.Validation.Disconnect

/-!
# Disconnecting undoes connecting

`DisconnectBlock` with the undo data of `ConnectBlock` brings back the coins and the best block.
The argument is one inverse per transaction: undoing removes what the transaction created and puts
back what it spent, on *any* view that answers as the view after the transaction did; the views
themselves differ in flags and copies.  Undone from the last to the first, the transactions of a
block compose.

Four things stand in the way of a plain inverse.  A record of height 0 is taken for an old one
without metadata.  A coin nobody can spend is not put back.  A coinbase may overwrite a coin when
the BIP30 test is off, and the coin it overwrote is in no undo record.  And the genesis block was
never connected.  The main result is `disconnectBlock_undoes`.
-/

namespace Ybtc

open Fallible CCoinsViewCache List UtxoSet CTransaction Uint256

variable {v v' : CCoinsViewCache}

/-! ## The outputs -/

/-- **Removing the outputs of a transaction** from a view that shows them all. -/
lemma spendOutputs_spec {txid : Uint256} {nHeight : ℕ} {cb : Bool} :
    ∀ {vout : List CTxOut} {i : ℕ} {fClean : Bool} {v : CCoinsViewCache}, v.WF →
      (∀ o c, createdFrom txid cb nHeight i vout o = some c → v.coinAt o = some c) →
      ∃ v', spendOutputs txid nHeight cb i vout (fClean, v) = (fClean, v') ∧ Evolves v v' ∧
        v'.coinAt = UtxoSet.removeAll (createdFrom txid cb nHeight i vout) v.coinAt
  | [], i, fClean, v, hw, _ => by
    refine ⟨v, rfl, Evolves.refl hw, ?_⟩
    funext o
    simp [UtxoSet.removeAll, createdFrom_nil]
  | out :: vout, i, fClean, v, hw, h => by
    rw [spendOutputs]
    by_cases hu : isUnspendable out.scriptPubKey = true
    · have hskip : createdFrom txid cb nHeight i (out :: vout)
          = createdFrom txid cb nHeight (i + 1) vout := createdFrom_skip hu
      rw [if_pos hu, hskip]
      exact spendOutputs_spec hw (hskip ▸ h)
    · rw [if_neg hu]
      have hself := createdFrom_self txid cb nHeight i out vout
      rw [if_neg hu] at hself
      have hcoin := h _ _ hself
      have hup := spendCoin_updates hw ⟨txid, i⟩
      obtain ⟨v', hrun, hev, hco⟩ := @spendOutputs_spec txid nHeight cb vout (i + 1) fClean _
        hup.wf (by
          intro o c ho
          have hne : o ≠ ⟨txid, i⟩ := by
            rintro rfl
            rw [createdFrom_succ_self] at ho
            cases ho
          rw [hup.other o hne]
          exact h o c (by rw [createdFrom_of_ne hne, ho]))
      refine ⟨v', ?_, hup.evolves.trans hev, ?_⟩
      · rw [spendCoin_of_coinAt hcoin]
        simpa using hrun
      · rw [hco]
        funext o
        unfold UtxoSet.removeAll
        by_cases ho : o = ⟨txid, i⟩
        · subst ho
          rw [hself, hup.self]
          simp
        · rw [createdFrom_of_ne ho, hup.other o ho]

/-! ## The inputs -/

/-- An undo record from which the coin can be put back. -/
structure Restorable (c : Coin) : Prop where
  height : 0 < c.nHeight
  unspent : c.isSpent = false
  spendable : isUnspendable c.out.scriptPubKey = false

variable {o : COutPoint}

lemma applyTxInUndo_spec {c : Coin} (hw : v.WF) (hc : Restorable c) (hn : v.coinAt o = none) :
    ∃ v', applyTxInUndo c v o = .ok (true, v') ∧ Updates v v' o (some c) := by
  have hf := haveCoin_fetched v o
  have hno : (v.haveCoin o).1 = false := by rw [haveCoin_eq, hn]; rfl
  have hcomplete : completeUndo c (v.haveCoin o).2 o = .ok (c, (v.haveCoin o).2) := by
    unfold completeUndo
    rw [if_neg hc.height.ne']
  obtain ⟨v', hadd, hup⟩ := addCoin_updates (hf.wf hw)
    (fun _ : false = false => by rw [hf.coinAt]; exact hn) hc.unspent hc.spendable
  refine ⟨v', ?_, hf.updates hup⟩
  simp only [applyTxInUndo, hcomplete, bind, Except.bind, hno, hadd]
  rfl

/-- **Putting coins back** where there are none. -/
lemma restoreInputs_spec : ∀ {ps : List (COutPoint × Coin)} {fClean : Bool} {v : CCoinsViewCache},
    v.WF → (ps.map Prod.fst).Nodup → (∀ p ∈ ps, Restorable p.2 ∧ v.coinAt p.1 = none) →
    ∃ v', restoreInputs ps (fClean, v) = .ok (fClean, v') ∧ Evolves v v' ∧
      (∀ p ∈ ps, v'.coinAt p.1 = some p.2) ∧
      ∀ o, o ∉ ps.map Prod.fst → v'.coinAt o = v.coinAt o
  | [], fClean, v, hw, _, _ => ⟨v, rfl, Evolves.refl hw, by simp, fun _ _ => rfl⟩
  | (o, c) :: ps, fClean, v, hw, hnd, h => by
    rw [map_cons, nodup_cons] at hnd
    rw [forall_mem_cons] at h
    obtain ⟨v1, happly, hup⟩ := applyTxInUndo_spec hw h.1.1 h.1.2
    have hne : ∀ p ∈ ps, p.1 ≠ o := by
      rintro p hp rfl
      exact hnd.1 (mem_map.mpr ⟨p, hp, rfl⟩)
    obtain ⟨v', hrun, hev, hin, hout⟩ := @restoreInputs_spec ps fClean v1 hup.wf hnd.2
      (fun p hp => ⟨(h.2 p hp).1, by rw [hup.other _ (hne p hp)]; exact (h.2 p hp).2⟩)
    refine ⟨v', ?_, hup.evolves.trans hev, ?_, ?_⟩
    · simp only [restoreInputs, happly, bind, Except.bind, Bool.and_true]
      exact hrun
    · rw [forall_mem_cons]
      refine ⟨?_, hin⟩
      rw [hout o hnd.1, hup.self]
    · intro p hp
      rw [map_cons, mem_cons, not_or] at hp
      rw [hout p hp.2, hup.other p hp.1]

lemma accessByTxidLoop_none {txid : Uint256} : ∀ {left n : ℕ} {v : CCoinsViewCache},
    (∀ i, v.coinAt ⟨txid, i⟩ = none) → (accessByTxidLoop txid left n v).1.isSpent = true
  | 0, n, v, _ => rfl
  | left + 1, n, v, h => by
    have hf := accessCoin_fetched v ⟨txid, n⟩
    rw [accessByTxidLoop, if_neg (by simp [accessCoin_of_none (h n)])]
    exact accessByTxidLoop_none (fun i => by rw [hf.coinAt]; exact h i)

/-- **A record of height 0** cannot be put back when no other output of its transaction is left. -/
lemma applyTxInUndo_failed {c : Coin} (hc : c.nHeight = 0)
    (hn : ∀ i, v.coinAt ⟨o.hash, i⟩ = none) : applyTxInUndo c v o = .error .failed := by
  have hf := haveCoin_fetched v o
  have hspent : (accessByTxid (v.haveCoin o).2 o.hash).1.isSpent = true :=
    accessByTxidLoop_none (fun i => by rw [hf.coinAt]; exact hn i)
  simp [applyTxInUndo, completeUndo, hc, hspent, bind, Except.bind]

/-! ## One transaction -/

lemma map_some_zip {f : UtxoSet} : ∀ {os : List COutPoint} {cs : List Coin},
    cs.map some = os.map f → ∀ p ∈ os.zip cs, f p.1 = some p.2
  | [], _, _, p, hp | o :: os, [], h, p, hp => by simp at hp
  | o :: os, c :: cs, h, p, hp => by
    rw [map_cons, map_cons] at h
    obtain ⟨hc, hcs⟩ := List.cons.inj h
    rcases mem_cons.mp hp with rfl | hp
    · exact hc.symm
    · exact map_some_zip hcs p hp

/-- The undo record that `DisconnectBlock` has for a transaction. -/
def undoRecord (tx : CTransaction) (undo : List Coin) : Option (List Coin) :=
  if tx.isCoinBase then none else some undo

/-- **One transaction is undone**, on any view that answers as the view after it did. -/
lemma disconnectTx_undoes {H : Hashes} {nHeight : ℕ} {tx : CTransaction} {f : UtxoSet}
    {undo : List Coin} (hw : v.WF) (hv : v.coinAt = applyTx H nHeight tx f)
    (hfree : ∀ o, (created H nHeight tx o).isSome → spendAll tx.spends f o = none)
    (hnd : tx.spends.Nodup) (hundo : undo.map some = tx.spends.map f)
    (hres : ∀ c ∈ undo, Restorable c) :
    ∃ v', disconnectTx H nHeight (true, v) (tx, undoRecord tx undo) = .ok (true, v') ∧
      Evolves v v' ∧ v'.coinAt = f := by
  obtain ⟨v1, hout, hev1, hco⟩ :=
    @spendOutputs_spec (H.txid tx) nHeight tx.isCoinBase tx.vout 0 true v
    hw (by
      intro o c ho
      rw [hv, applyTx, addAll, created, ho]
      rfl)
  rw [hv, applyTx, show createdFrom _ _ _ _ _ = created H nHeight tx from rfl,
    removeAll_addAll hfree] at hco
  unfold disconnectTx undoRecord
  cases hcb : tx.isCoinBase with
  | true =>
    rw [if_pos rfl]
    rw [hcb] at hout
    refine ⟨v1, by rw [hout], hev1, ?_⟩
    rw [hco]
    simp only [spends, hcb, if_true]
    funext o
    simp [spendAll]
  | false =>
    have hsp : tx.spends = tx.prevouts := by simp [spends, hcb]
    rw [hsp] at hnd hundo hco
    have hlen : undo.length = tx.prevouts.length := by
      simpa using congrArg List.length hundo
    have hkeys : (tx.prevouts.zip undo).map Prod.fst = tx.prevouts := map_fst_zip hlen.ge
    rw [if_neg Bool.false_ne_true]
    rw [hcb] at hout
    obtain ⟨v', hrun, hev', hin, hother⟩ :=
      @restoreInputs_spec (tx.prevouts.zip undo).reverse true v1
      hev1.wf (by rw [map_reverse, hkeys]; exact nodup_reverse.mpr hnd) (by
        intro p hp
        rw [mem_reverse] at hp
        refine ⟨hres p.2 (of_mem_zip hp).2, ?_⟩
        rw [hco, spendAll, if_pos (of_mem_zip hp).1])
    refine ⟨v', ?_, hev1.trans hev', ?_⟩
    · have hvin : ¬ undo.length ≠ tx.vin.length := by
        rw [hlen]
        simp [prevouts]
      simp only [failIf, if_neg hvin, hout]
      exact hrun
    · funext o
      by_cases ho : o ∈ tx.prevouts
      · rw [← hkeys] at ho
        obtain ⟨p, hp, rfl⟩ := mem_map.mp ho
        rw [hin p (mem_reverse.mpr hp), map_some_zip hundo p hp]
      · rw [hother o (by rw [map_reverse, hkeys, mem_reverse]; exact ho), hco, spendAll, if_neg ho]

/-! ## The loop of `ConnectBlock` -/

variable {ctx : ChainContext} {b : BlockSettings} {st st' : LoopState ctx.C} {tx : CTransaction}

/-- One iteration as an update of the coins. -/
lemma connectTx_updates (h : connectTx ctx b st tx = .ok st') :
    ∃ w undo, Fetched st.view w ∧ updateCoins ctx.H tx w b.pindex.nHeight = .ok (undo, st'.view) ∧
      st'.vtxundo = st.vtxundo ++ [undo] ∧ ∀ o ∈ tx.spends, st.view.coinAt o ≠ none := by
  simp only [connectTx, bind_ok, exists_const, liftFault_ok, dosIf_ok, Prod.exists] at h
  obtain ⟨v1, hlocks, cost, v2, hcost, _, st1, hin, undo, v3, hupd, hst⟩ := h
  cases hst
  have hf : Fetched st.view v2 :=
    (checkLocks_fetched hlocks).trans (getTransactionSigOpCost_fetched hcost)
  unfold spends
  cases hcb : tx.isCoinBase with
  | true =>
    rw [checkFeeAndInputs, hcb, if_pos rfl] at hin
    cases hin
    exact ⟨v2, undo, hf, hupd, rfl, by simp⟩
  | false =>
    obtain ⟨r, hr, rfl⟩ := checkFeeAndInputs_ok hcb hin
    refine ⟨r.view, undo, hf.trans hr.fetched, hupd, rfl, ?_⟩
    simpa using (hr.of_fetched hf).coins

/-- The transactions connected so far with their undo records. -/
def undoList (txs : List CTransaction) (vtxundo : List (List Coin)) :
    List (CTransaction × Option (List Coin)) :=
  List.zipWith (fun tx undo => (tx, undoRecord tx undo)) txs vtxundo

/-- What is assumed of the block and the view before the loop. -/
structure UndoSetup (ctx : ChainContext) (nHeight : ℕ) (v0 : CCoinsViewCache)
    (vtx : List CTransaction) : Prop where
  wf : v0.WF
  height : 0 < nHeight
  unused : ∀ tx ∈ vtx, ∀ i, i < tx.vout.length → v0.coinAt ⟨ctx.H.txid tx, i⟩ = none
  checked : ∃ cb rest, vtx = cb :: rest ∧ cb.isCoinBase = true ∧ ∀ tx ∈ rest, tx.isCoinBase = false
  distinct : ∀ tx ∈ vtx, tx.spends.Nodup
  /-- The coins of the view that the block spends can be put back. -/
  restorable : ∀ tx ∈ vtx, ∀ o ∈ tx.spends, ∀ c, v0.coinAt o = some c → Restorable c

/-- **The invariant of the loop**: everything connected so far can be undone. -/
structure Undoable (ctx : ChainContext) (nHeight : ℕ) (v0 : CCoinsViewCache)
    (pre : List CTransaction) (st : LoopState ctx.C) : Prop where
  evolves : Evolves v0 st.view
  start : pre = [] → st.view.coinAt = v0.coinAt
  length : st.vtxundo.length = pre.length
  origin : ∀ o c, st.view.coinAt o = some c → v0.coinAt o = some c ∨
    (c.nHeight = nHeight ∧ isUnspendable c.out.scriptPubKey = false)
  undone : ∀ v : CCoinsViewCache, v.WF → v.coinAt = st.view.coinAt →
    ∃ v', (undoList pre st.vtxundo).reverse.foldlM (disconnectTx ctx.H nHeight) (true, v)
      = .ok (true, v') ∧ Evolves v v' ∧ v'.coinAt = v0.coinAt

variable {v0 : CCoinsViewCache} {vtx pre post : List CTransaction}

/-- **One more transaction can be undone.** -/
lemma Undoable.step (hs : UndoSetup ctx b.pindex.nHeight v0 vtx)
    (hi : Undoable ctx b.pindex.nHeight v0 pre st) (hl : vtx = pre ++ tx :: post)
    (h : connectTx ctx b st tx = .ok st') : Undoable ctx b.pindex.nHeight v0 (pre ++ [tx]) st' := by
  have htx : tx ∈ vtx := by simp [hl]
  obtain ⟨w, undo, hf, hupd, hvtxundo, hcoins⟩ := connectTx_updates h
  have hev : Evolves v0 w := hi.evolves.trans (hf.evolves hi.evolves.wf)
  have hwat : w.coinAt = st.view.coinAt := funext hf.coinAt
  obtain ⟨hev', hco, hundo, hfree⟩ := updateCoins_coinAt hev.wf
    (fun i hilt => hev.noShadow _ (noShadow_of_coinAt_none (hs.unused tx htx i hilt)))
    (fun hcb i hilt => by
      rw [hwat, hi.start (coinbase_first hs.checked hl hcb)]
      exact hs.unused tx htx i hilt)
    (hs.distinct tx htx) (fun o ho => by rw [hwat]; exact hcoins o ho) hupd
  rw [hwat] at hco hundo hfree
  refine ⟨hev.trans hev', by simp, ?_, ?_, ?_⟩
  · rw [hvtxundo, length_append, length_append, hi.length]
    rfl
  · -- A coin is one that was there before the transaction, or one it created.
    intro o c ho
    rw [hco, applyTx, addAll] at ho
    cases hcr : created ctx.H b.pindex.nHeight tx o with
    | some c' =>
      rw [hcr] at ho
      obtain rfl : c' = c := by simpa using ho
      have := createdFrom_some hcr
      exact Or.inr ⟨this.2.2.2.1, this.2.2.2.2.1⟩
    | none =>
      rw [hcr, Option.none_or, spendAll] at ho
      split_ifs at ho
      exact hi.origin o c ho
  · intro v hw hv
    have hres : ∀ c ∈ undo, Restorable c := by
      intro c hc
      have hmem : some c ∈ tx.spends.map st.view.coinAt := by
        rw [← hundo]
        exact mem_map_of_mem hc
      obtain ⟨o, ho, hoc⟩ := mem_map.mp hmem
      rcases hi.origin o c hoc with horig | ⟨hh, hu⟩
      · exact hs.restorable tx htx o ho c horig
      · exact ⟨by rw [hh]; exact hs.height, coinAt_unspent hoc, hu⟩
    obtain ⟨v1, hrun, hev1, hv1⟩ := disconnectTx_undoes hw (hv.trans hco) hfree
      (hs.distinct tx htx) hundo hres
    obtain ⟨v', hrest, hev2, hv'⟩ := hi.undone v1 hev1.wf hv1
    refine ⟨v', ?_, hev1.trans hev2, hv'⟩
    have hlist : undoList (pre ++ [tx]) st'.vtxundo
        = undoList pre st.vtxundo ++ [(tx, undoRecord tx undo)] := by
      rw [hvtxundo, undoList, zipWith_append hi.length.symm]
      rfl
    rw [hlist, reverse_append, reverse_singleton, singleton_append, foldlM_cons, hrun]
    exact hrest

variable {v : CCoinsViewCache}

/-- **After the loop** the whole block can be undone. -/
lemma undoable_of_loop {cache : ctx.C.State} (hs : UndoSetup ctx b.pindex.nHeight v vtx)
    (h : vtx.foldlM (connectTx ctx b) ⟨v, cache, 0, 0, false, [], []⟩ = .ok st) :
    Undoable ctx b.pindex.nHeight v vtx st := by
  refine foldlM_rule (Undoable ctx b.pindex.nHeight v) ?_ ?_ h
  · refine ⟨Evolves.refl hs.wf, fun _ => rfl, rfl, fun o c ho => Or.inl ho, ?_⟩
    intro w hw hco
    exact ⟨w, rfl, Evolves.refl hw, hco⟩
  · intro pre tx post s1 s2 hl hi hstep
    exact hi.step hs hl hstep

/-- The records that `DisconnectBlock` pairs with the transactions are those of the loop. -/
lemma withUndo_eq {vtxundo : List (List Coin)}
    (hc : ∃ cb rest, vtx = cb :: rest ∧ cb.isCoinBase = true ∧ ∀ tx ∈ rest, tx.isCoinBase = false)
    (hl : vtxundo.length = vtx.length) : withUndo vtx vtxundo.tail = undoList vtx vtxundo := by
  obtain ⟨cb, rest, rfl, hcb, hrest⟩ := hc
  cases vtxundo with
  | nil => simp at hl
  | cons u us =>
    simp only [withUndo, undoList, tail_cons, zipWith_cons_cons, undoRecord, hcb, if_true]
    congr 1
    rw [List.zip, zipWith_map_right]
    clear hl
    induction rest generalizing us with
    | nil => simp
    | cons tx rest ih =>
      cases us with
      | nil => simp
      | cons u' us =>
        rw [forall_mem_cons] at hrest
        simp [hrest.1, ih hrest.2 us]

/-! ## The block -/

/-- The undo file holds this record for every block asked for. -/
def UndoFiles.holding (vtxundo : List (List Coin)) : UndoFiles :=
  ⟨fun _ => true, fun _ => some vtxundo⟩

/-- **Disconnecting gives back what was there**: with the undo data of the connected block,
    `DisconnectBlock` succeeds and the view answers as before. -/
def Restores (ctx : ChainContext) (block : CBlock) (pindex : CBlockIndex) (view : CCoinsViewCache)
    (r : Connected ctx.C) (s : ctx.L.State) : Prop :=
  ∃ v s', disconnectBlock ctx.H ctx.L (.holding r.vtxundo) block pindex r.view s = .ok (.ok v) s' ∧
    (∀ o, v.coinAt o = view.coinAt o) ∧ v.getBestBlock = view.getBestBlock

variable {fJustCheck : Bool} {block : CBlock} {pindex prev : CBlockIndex} {view : CCoinsViewCache}
  {cache : ctx.C.State} {s s' : ctx.L.State} {r : Connected ctx.C}

/-- Setting a view back to the best block it had. -/
lemma getBestBlock_setBestBlock {h : Uint256} {w : CCoinsViewCache} (hh : h = view.getBestBlock)
    (hb : w.baseBestBlock = view.baseBestBlock) :
    (w.setBestBlock h).getBestBlock = view.getBestBlock := by
  unfold getBestBlock setBestBlock at *
  simp only
  split_ifs with h1 h2
  · exact hb
  · rw [if_neg h2] at hh
    exact absurd (hh ▸ h1) h2
  · rw [hh, if_pos ‹_›]
  · rw [hh, if_neg ‹_›]

/-- **Disconnecting undoes connecting**, for a block other than the genesis block whose inputs are
    distinct within each transaction, whose outputs are new, and whose spent coins can be put back
    from an undo record. -/
theorem disconnectBlock_undoes (hw : view.WF) (hmark : block.fChecked = true → BlockChecked block)
    (hgenesis : ctx.H.getHash block ≠ ctx.params.hashGenesisBlock)
    (hdist : ∀ tx ∈ block.vtx, tx.spends.Nodup)
    (hun : OutputsUnused ctx block pindex view) (hheight : 0 < pindex.nHeight)
    (hold : ∀ tx ∈ block.vtx, ∀ o ∈ tx.spends, ∀ c, view.coinAt o = some c →
      0 < c.nHeight ∧ isUnspendable c.out.scriptPubKey = false)
    (hconnect : connectBlock ctx fJustCheck block pindex view cache s = .ok r s')
    (hroot : ∀ prev, pindex.pprev = some prev →
      ∃ s'', ctx.L.setRoot (stateRootOf ctx.L.emptyRoot prev.hashStateRoot) s' = .ok () s'') :
    Restores ctx block pindex view r s' := by
  obtain ⟨⟨_, hck, hbest⟩, hcase⟩ := connectBlock_ok.mp hconnect
  rcases hcase with ⟨hg, _, _⟩ | ⟨_, prev, st, hprev, hby⟩
  · exact absurd hg hgenesis
  have hchecked := blockChecked_of_connect hmark hck
  obtain ⟨v, h30, hloop⟩ := bind_ok.mp hby.txs
  obtain ⟨hf, hnone⟩ := checkBIP30_ok rfl hprev hun h30
  have hsetup : UndoSetup ctx pindex.nHeight v block.vtx := by
    refine ⟨hf.wf hw, hheight, ?_, hchecked.coinbase, hdist, ?_⟩
    · intro tx htx i hi
      rw [hf.coinAt]
      exact hnone tx htx _ (mem_map.mpr ⟨i, mem_range.mpr hi, rfl⟩)
    · intro tx htx o ho c hc
      rw [hf.coinAt] at hc
      exact ⟨(hold tx htx o ho c hc).1, coinAt_unspent hc, (hold tx htx o ho c hc).2⟩
  have hinv := undoable_of_loop (b := blockSettings ctx fJustCheck pindex) hsetup hloop
  obtain ⟨h, hfinal⟩ : ∃ h, finalView fJustCheck pindex st.view = st.view.setBestBlock h := by
    unfold finalView
    split_ifs
    · exact ⟨st.view.hashBlock, rfl⟩
    · exact ⟨_, rfl⟩
  obtain ⟨w, hrun, hev, hco⟩ := hinv.undone (st.view.setBestBlock h)
    ⟨hinv.evolves.wf.fresh, hinv.evolves.wf.clean⟩ rfl
  obtain ⟨s'', hset⟩ := hroot prev hprev
  rw [← withUndo_eq hchecked.coinbase hinv.length] at hrun
  have hlen : st.vtxundo.tail.length + 1 = block.vtx.length := by
    obtain ⟨cb, rest, hvtx, _⟩ := hchecked.coinbase
    have hl := hinv.length
    rw [hvtx, length_cons] at hl ⊢
    rw [length_tail]
    omega
  rw [Restores, hby.result, hfinal]
  refine ⟨w.setBestBlock prev.getBlockHash, s'', ?_, ?_, ?_⟩
  · have htxs : disconnectTxs ctx.H block pindex.nHeight st.vtxundo.tail (st.view.setBestBlock h) =
        .ok (true, w) := by
      simp only [disconnectTxs, bind_unit_ok, failIf_ok, not_not]
      exact ⟨hlen, hrun⟩
    simp only [disconnectBlock, UndoFiles.holding, Bool.true_eq_false, ↓reduceIte, hprev, htxs]
    exact Stateful.bind_ok.mpr ⟨(), s'', hset, rfl⟩
  · intro o
    exact (congrFun hco o).trans (hf.coinAt o)
  · rw [hprev] at hbest
    refine getBestBlock_setBestBlock hbest ?_
    exact hev.baseBestBlock.trans (hinv.evolves.baseBestBlock.trans hf.baseBestBlock)

/-! ## On the small network -/

/-- A view in which only the small outpoint has a coin, of the given height and script. -/
def viewWith (o : COutPoint) (nHeight : ℕ) (script : CScript) : CCoinsViewCache :=
  ofBase (Finmap.singleton o ⟨⟨10 * coin, script⟩, false, nHeight⟩) 1000#256

lemma viewWith_coinAt {p : COutPoint} {nHeight : ℕ} {script : CScript} {c : Coin}
    (h : (viewWith o nHeight script).coinAt p = some c) :
    c = ⟨⟨10 * coin, script⟩, false, nHeight⟩ := by
  unfold viewWith coinAt ofBase at h
  rw [Option.filter_eq_some_iff] at h
  by_cases hp : p = o
  · subst hp
    simpa using h.1.symm
  · have hnone : (Finmap.singleton o
        (⟨⟨10 * coin, script⟩, false, nHeight⟩ : Coin) : CoinMap).lookup p = none :=
      Finmap.lookup_eq_none.mpr (by rwa [Finmap.mem_singleton])
    simp [hnone] at h

/-- A coin of height 1 is spent and put back. -/
theorem disconnectBlock_undoes_sample :
    ∃ r s', connectBlock (.small 0 .accepting) false singleSpendBlock smallIndex
        (viewWith smallOutpoint 1 [OP_1]) [] null = .ok r s' ∧
      Restores (.small 0 .accepting) singleSpendBlock smallIndex (viewWith smallOutpoint 1 [OP_1]) r
        s' := by
  have hrun : Stateful.returnsWith (fun _ _ => true)
      (connectBlock (.small 0 .accepting) false singleSpendBlock smallIndex
        (viewWith smallOutpoint 1 [OP_1]) [] null) = true := by decide +kernel
  obtain ⟨r, s', hr, _⟩ := Stateful.returnsWith_iff.mp hrun
  refine ⟨r, s', hr, disconnectBlock_undoes (wf_ofBase _ _) (fun h => by cases h) (by decide)
    (by decide) (Or.inl (by decide)) (by decide) ?_ hr (fun _ _ => ⟨_, rfl⟩)⟩
  intro tx _ o _ c hc
  rw [viewWith_coinAt hc]
  decide

/-- The outcome is not the view from before, seen at one outpoint. -/
def notRestored {σ : Type} (view : CCoinsViewCache) (o : COutPoint) :
    EStateM.Result Fault σ DisconnectResult → Bool
  | .ok (.ok v) _ => v.coinAt o != view.coinAt o
  | _ => true


/-- The block is accepted and disconnecting it does not give back the view. -/
def Irreversible (ctx : ChainContext) (block : CBlock) (pindex : CBlockIndex)
    (view : CCoinsViewCache) (cache : ctx.C.State) (s : ctx.L.State) : Prop :=
  ∃ r s', connectBlock ctx false block pindex view cache s = .ok r s' ∧
    (∀ tx ∈ block.vtx, tx.spends.Nodup) ∧ ¬ Restores ctx block pindex view r s'

lemma irreversible_of_run {ctx : ChainContext} {block : CBlock} {pindex : CBlockIndex}
    {view : CCoinsViewCache} {cache : ctx.C.State} {s : ctx.L.State} (o : COutPoint)
    (hnd : ∀ tx ∈ block.vtx, tx.spends.Nodup)
    (h : Stateful.returnsWith (fun r s' => notRestored view o
      (disconnectBlock ctx.H ctx.L (.holding r.vtxundo) block pindex r.view s'))
      (connectBlock ctx false block pindex view cache s) = true) :
    Irreversible ctx block pindex view cache s := by
  obtain ⟨r, s', hr, hno⟩ := Stateful.returnsWith_iff.mp h
  refine ⟨r, s', hr, hnd, ?_⟩
  rintro ⟨v, s'', hv, hco, _⟩
  rw [hv] at hno
  simp [notRestored, hco o] at hno

/-- The view shows no coin of a transaction: a test that looks at the known outpoints only. -/
def showsNothingOf (txid : Uint256) (v : CCoinsViewCache) : Bool :=
  (v.outpoints.filter fun o => o.hash = txid ∧ v.coinAt o ≠ none) = ∅

lemma coinAt_of_showsNothingOf {txid : Uint256}
    (h : showsNothingOf txid v = true) (i : ℕ) : v.coinAt ⟨txid, i⟩ = none := by
  by_contra hne
  have hmem : (⟨txid, i⟩ : COutPoint) ∈ v.outpoints := outpoints_supports v _ hne
  have hempty : (v.outpoints.filter fun o => o.hash = txid ∧ v.coinAt o ≠ none) = ∅ := by
    simpa [showsNothingOf] using h
  have hin : (⟨txid, i⟩ : COutPoint)
      ∈ v.outpoints.filter fun o => o.hash = txid ∧ v.coinAt o ≠ none :=
    Finset.mem_filter.mpr ⟨hmem, rfl, hne⟩
  rw [hempty] at hin
  exact Finset.notMem_empty _ hin

/-- The view in which `DisconnectBlock` looks for the coins of the second transaction. -/
def viewAtInputs (H : Hashes) (nHeight : ℕ) (tx : CTransaction) (v : CCoinsViewCache) :
    CCoinsViewCache :=
  (spendOutputs (H.txid tx) nHeight tx.isCoinBase 0 tx.vout (true, v)).2

/-- A block whose last transaction spends one coin of height 0, the last one of its transaction. -/
lemma disconnectBlock_heightZero {H : Hashes} {L : ContractLayer} {block : CBlock}
    {pindex prev : CBlockIndex} {cb tx : CTransaction} {txin : CTxIn} {c : Coin}
    {view : CCoinsViewCache} {s : L.State} (hvtx : block.vtx = [cb, tx]) (hvin : tx.vin = [txin])
    (hprev : pindex.pprev = some prev) (hc : c.nHeight = 0)
    (hn : showsNothingOf txin.prevout.hash (viewAtInputs H pindex.nHeight tx view) = true) :
    disconnectBlock H L (.holding [[c]]) block pindex view s = .ok .failed s := by
  have hfail := applyTxInUndo_failed hc (coinAt_of_showsNothingOf hn)
  have htxs : disconnectTxs H block pindex.nHeight [[c]] view = .error .failed := by
    rw [disconnectTxs, hvtx]
    unfold viewAtInputs at hfail
    rcases hsp : spendOutputs (H.txid tx) pindex.nHeight tx.isCoinBase 0 tx.vout (true, view)
      with ⟨fClean, v1⟩
    rw [hsp] at hfail
    simp [failIf, withUndo, disconnectTx, hvin, prevouts, restoreInputs, hsp, hfail,
      bind, Except.bind]
  simp [disconnectBlock, UndoFiles.holding, hprev, htxs]

/-- The small network with the scripts of all blocks assumed valid. -/
def ChainContext.trusting : ChainContext :=
  { ChainContext.small 0 .accepting with assumedValid := fun _ => true }

/-- The small network with BIP34 in force since genesis, and hence without the BIP30 test. -/
def ChainContext.bip34 : ChainContext :=
  { ChainContext.small 0 .accepting with
    params := { ConsensusParams.regtest with bip34Height := 0, bip34Hash := 1000#256 } }

/-- The genesis block of the small network. -/
def smallGenesis : CBlock := { smallBlock [] with nHeight := 0 }

/-- **Views and blocks for which disconnecting does not undo connecting**: a coin of height 0 is
    spent; a coin nobody can spend is spent in a block whose scripts are not checked; a coinbase
    overwrites a coin; the genesis block. -/
theorem disconnectBlock_irreversible :
    Irreversible (.small 0 .accepting) singleSpendBlock smallIndex
        (viewWith smallOutpoint 0 [OP_1]) [] null ∧
      Irreversible .trusting singleSpendBlock smallIndex
        (viewWith smallOutpoint 1 [OP_RETURN]) [] null ∧
      Irreversible .bip34 (smallBlock []) smallIndex
        (viewWith ⟨1#256, 0⟩ 1 [OP_1]) [] null ∧
      Irreversible (.small 0 .accepting) smallGenesis (genesisEntry.toIndex [])
        (ofBase ∅ null) [] null := by
  refine ⟨?_, irreversible_of_run smallOutpoint (by decide) (by decide +kernel),
    irreversible_of_run ⟨1#256, 0⟩ (by decide) (by decide +kernel),
    irreversible_of_run smallOutpoint (by decide) (by decide +kernel)⟩
  have hrun : Stateful.returnsWith
      (fun r _ => decide (r.vtxundo = [[⟨⟨10 * coin, [OP_1]⟩, false, 0⟩]]) &&
        showsNothingOf smallOutpoint.hash
          (viewAtInputs .small 1 (smallSpend [smallOutpoint] ⟨10 * coin, [OP_1]⟩) r.view))
      (connectBlock (.small 0 .accepting) false singleSpendBlock smallIndex
        (viewWith smallOutpoint 0 [OP_1]) [] null) = true := by decide +kernel
  obtain ⟨r, s', hr, htest⟩ := Stateful.returnsWith_iff.mp hrun
  rw [Bool.and_eq_true, decide_eq_true_eq] at htest
  refine ⟨r, s', hr, by decide, ?_⟩
  rintro ⟨v, s'', hv, _⟩
  have hfail :=
    @disconnectBlock_heightZero Hashes.small ContractLayer.idle singleSpendBlock smallIndex
    (genesisEntry.toIndex []) smallCoinbase (smallSpend [smallOutpoint] ⟨10 * coin, [OP_1]⟩)
    ⟨smallOutpoint, [], sequenceFinal, []⟩ ⟨⟨10 * coin, [OP_1]⟩, false, 0⟩ r.view s' rfl rfl rfl rfl
    htest.2
  rw [htest.1] at hv
  cases hfail.symm.trans hv

end Ybtc
