import Ybtc.Validation.ConnectSteps

/-!
# The money supply across a block

Connecting a block must not create money: the unspent outputs afterwards may be worth at most what
they were worth before plus the subsidy.  The argument runs along the loop of `ConnectBlock` and has
two halves that need each other.

**Accounting.**  A transaction takes the values of its inputs out of the view and puts at most the
values of its outputs in; the difference is the fee it adds to `nFees`.  The coinbase may then pay
out the fees and the subsidy.  This is right *only if* the inputs are distinct outpoints:
`GetValueIn` counts an input as often as it is listed, while spending it a second time takes nothing
out.

**No outpoint is spent twice.**  Once spent, an outpoint never shows a coin again in the same block.
The only way back would be a transaction of the block that creates it anew, and such a twin of an
earlier transaction would need that one's inputs, which are gone.

`CheckBlock` skips the duplicate-input test, so the condition on the inputs does not come from
anywhere: `connectBlock_supply_iff` says that the supply is bounded exactly for the blocks that
happen to satisfy it.
-/

namespace Ybtc

open Fallible CCoinsViewCache List CTransaction

/-- The outpoints a list of transactions spends, in order. -/
def spentBy (txs : List CTransaction) : List COutPoint :=
  txs.flatMap fun tx => if tx.isCoinBase then [] else tx.prevouts

/-- What the coinbases among a list of transactions pay out. -/
def mintedBy (txs : List CTransaction) : CAmount :=
  (txs.map fun tx => if tx.isCoinBase then outputSum tx.vout else 0).sum

@[simp] lemma spentBy_nil : spentBy [] = [] := rfl

@[simp] lemma mintedBy_nil : mintedBy [] = 0 := rfl

variable (pre : List CTransaction) (tx : CTransaction)

lemma spentBy_concat :
    spentBy (pre ++ [tx]) = spentBy pre ++ if tx.isCoinBase then [] else tx.prevouts := by
  simp [spentBy]

lemma mintedBy_concat : mintedBy (pre ++ [tx])
      = mintedBy pre + if tx.isCoinBase then outputSum tx.vout else 0 := by
  simp [mintedBy]

/-- Whether a transaction is a coinbase can be read off the outpoints it spends. -/
lemma isCoinBase_congr {tx tx' : CTransaction} (h : tx.prevouts = tx'.prevouts) :
    tx.isCoinBase = tx'.isCoinBase := by
  unfold isCoinBase
  unfold prevouts at h
  -- The two lists of inputs have the same length and, position by position, the same outpoints.
  rcases hv : tx.vin with _ | ⟨a, _ | ⟨a', l⟩⟩ <;>
    rcases hv' : tx'.vin with _ | ⟨b, _ | ⟨b', l'⟩⟩ <;>
    simp_all

lemma toInt64_add (x y : ℤ) : toInt64 (toInt64 x + y) = toInt64 (x + y) := by
  unfold toInt64
  omega

/-! ## The loop invariant -/

section Loop

variable {ctx : ChainContext} {b : BlockSettings} {v0 : CCoinsViewCache} {vtx : List CTransaction}

/-- What is known about the transactions of the block before the loop starts. -/
structure LoopSetup (ctx : ChainContext) (v0 : CCoinsViewCache) (vtx : List CTransaction) :
    Prop where
  wf : v0.WF
  /-- None of the outputs to be created is there already. -/
  unused : ∀ tx ∈ vtx, ∀ i, i < tx.vout.length → v0.coinAt ⟨ctx.H.txid tx, i⟩ = none
  /-- Transactions with one id spend the same outpoints. -/
  ids : ∀ tx ∈ vtx, ∀ tx' ∈ vtx, ctx.H.txid tx = ctx.H.txid tx' → tx.prevouts = tx'.prevouts
  checked : ∃ cb rest, vtx = cb :: rest ∧ cb.isCoinBase = true ∧ ∀ tx ∈ rest, tx.isCoinBase = false
  vin : ∀ tx ∈ vtx, tx.vin ≠ []
  vout : ∀ tx ∈ vtx, ∀ o ∈ tx.vout, 0 ≤ o.nValue
  /-- No transaction lists an outpoint twice. -/
  distinct : ∀ tx ∈ vtx, tx.isCoinBase = false → tx.prevouts.Nodup

open LoopSetup

/-- **The invariant of the loop** after the transactions `pre`. -/
structure LoopInv (ctx : ChainContext) (v0 : CCoinsViewCache) (pre : List CTransaction)
    (st : LoopState ctx.C) : Prop where
  evolves : Evolves v0 st.view
  /-- A coin was there before or was created by one of the transactions. -/
  origin : ∀ o, st.view.coinAt o ≠ none →
    v0.coinAt o ≠ none ∨ ∃ tx ∈ pre, o.hash = ctx.H.txid tx
  /-- What has been spent stays spent. -/
  gone : ∀ o ∈ spentBy pre, st.view.coinAt o = none
  spentOrigin : ∀ o ∈ spentBy pre, v0.coinAt o ≠ none ∨ ∃ tx ∈ pre, o.hash = ctx.H.txid tx
  nodup : (spentBy pre).Nodup
  /-- The value of the view and the fees so far come out of what was there and what was minted. -/
  value : ∃ fees, 0 ≤ fees ∧ st.nFees = toInt64 fees ∧
    st.view.utxoTotal + fees ≤ v0.utxoTotal + mintedBy pre

variable {pre post : List CTransaction} {tx : CTransaction} {st st' : LoopState ctx.C}

lemma LoopSetup.mem (hl : vtx = pre ++ tx :: post) : tx ∈ vtx := by simp [hl]

section

variable (hs : LoopSetup ctx v0 vtx)

include hs

/-- **An earlier transaction with the same id would have used up the inputs.** -/
lemma LoopInv.no_twin (hi : LoopInv ctx v0 pre st) (hl : vtx = pre ++ tx :: post)
    (hcb : tx.isCoinBase = false) (hcoins : ∀ o ∈ tx.prevouts, st.view.coinAt o ≠ none) :
    ∀ tx' ∈ pre, ctx.H.txid tx ≠ ctx.H.txid tx' := by
  intro tx' htx' hid
  have hprev := hs.ids tx (mem hl) tx' (by simp [hl, htx']) hid
  obtain ⟨txin, hin⟩ := exists_mem_of_ne_nil _ (hs.vin tx (mem hl))
  have ho : txin.prevout ∈ tx.prevouts := mem_map_of_mem hin
  have hcb' : tx'.isCoinBase = false := by rw [← isCoinBase_congr hprev, hcb]
  have hspent : txin.prevout ∈ spentBy pre :=
    mem_flatMap.mpr ⟨tx', htx', by simpa [hcb'] using hprev ▸ ho⟩
  exact hcoins _ ho (hi.gone _ hspent)

/-- Hence nothing spent so far, nor by the transaction itself, is an output it creates. -/
lemma LoopInv.not_created (hi : LoopInv ctx v0 pre st) (hl : vtx = pre ++ tx :: post)
    (hcb : tx.isCoinBase = false) (hcoins : ∀ o ∈ tx.prevouts, st.view.coinAt o ≠ none)
    {o : COutPoint} (ho : o ∈ spentBy pre ∨ o ∈ tx.prevouts) (hh : o.hash = ctx.H.txid tx) :
    tx.vout.length ≤ o.n := by
  by_contra hlt
  have horig : v0.coinAt o ≠ none ∨ ∃ tx' ∈ pre, o.hash = ctx.H.txid tx' := by
    rcases ho with ho | ho
    · exact hi.spentOrigin o ho
    · exact hi.origin o (hcoins o ho)
  rcases horig with horig | ⟨tx', htx', hid⟩
  · have hun := hs.unused tx (mem hl) o.n (not_le.mp hlt)
    rw [← hh] at hun
    exact horig hun
  · exact hi.no_twin hs hl hcb hcoins tx' htx' (hh ▸ hid)

/-- The room for the outputs: before the loop there was no coin, so an entry added to the cache
    hides nothing of the parent. -/
lemma LoopSetup.noShadow (htx : tx ∈ vtx) {v : CCoinsViewCache}
    (hev : Evolves v0 v) {i : ℕ} (hi : i < tx.vout.length) : v.NoShadow ⟨ctx.H.txid tx, i⟩ :=
  hev.noShadow _ (noShadow_of_coinAt_none (hs.unused tx htx i hi))

/-- What adding the outputs does, for a transaction of the block. -/
lemma LoopSetup.addCoins (htx : tx ∈ vtx) {v v' : CCoinsViewCache}
    (hev : Evolves v0 v) {nHeight : ℕ}
    (hfree : tx.isCoinBase = true → ∀ i, i < tx.vout.length → v.coinAt ⟨ctx.H.txid tx, i⟩ = none)
    (h : v.addCoins ctx.H tx nHeight = .ok v') :
    Evolves v v' ∧
      (∀ o, (o.hash = ctx.H.txid tx → tx.vout.length ≤ o.n) → v'.coinAt o = v.coinAt o) ∧
      v'.utxoTotal ≤ v.utxoTotal + outputSum tx.vout := by
  obtain ⟨hev', hsame, htot⟩ := addCoinsLoop_spec
    ⟨hev.wf, fun j _ hj => hs.noShadow htx hev (by omega), fun hc j _ hj => hfree hc j (by omega)⟩
    (hs.vout tx htx) h
  refine ⟨hev', ?_, htot⟩
  intro o ho
  refine hsame o ?_
  intro hh _
  rw [Nat.zero_add]
  exact ho hh

/-- The step for the coinbase. -/
lemma LoopInv.step_coinbase (hl : vtx = pre ++ tx :: post)
    (hi : LoopInv ctx v0 pre st) (hcb : tx.isCoinBase = true) {w : CCoinsViewCache}
    (hf : Fetched st.view w) (hadd : w.addCoins ctx.H tx b.pindex.nHeight = .ok st'.view)
    (hfees : st'.nFees = st.nFees) : LoopInv ctx v0 (pre ++ [tx]) st' := by
  have hpre := coinbase_first hs.checked hl hcb
  subst hpre
  have hevw : Evolves v0 w := hi.evolves.trans (hf.evolves hi.evolves.wf)
  have hfree : ∀ i, i < tx.vout.length → w.coinAt ⟨ctx.H.txid tx, i⟩ = none := by
    intro i hlt
    by_contra hne
    rw [hf.coinAt] at hne
    rcases hi.origin _ hne with h | ⟨_, hmem, _⟩
    · exact h (hs.unused tx (mem hl) i hlt)
    · cases hmem
  obtain ⟨hev, hsame, htot⟩ := hs.addCoins (mem hl) hevw (fun _ => hfree) hadd
  obtain ⟨fees, h0, hn, hv⟩ := hi.value
  have hnil : spentBy ([] ++ [tx]) = [] := by rw [spentBy_concat, if_pos hcb]; rfl
  refine ⟨hevw.trans hev, ?_, ?_, ?_, ?_, fees, h0, by rw [hfees, hn], ?_⟩
  · intro o ho
    by_cases hh : o.hash = ctx.H.txid tx
    · exact Or.inr ⟨tx, by simp, hh⟩
    · rw [hsame o (fun h => absurd h hh), hf.coinAt] at ho
      exact (hi.origin o ho).imp id (fun ⟨_, hmem, _⟩ => absurd hmem (by simp))
  · rw [hnil]; simp
  · rw [hnil]; simp
  · rw [hnil]; simp
  · rw [mintedBy_concat, if_pos hcb]
    have := hf.utxoTotal
    linarith

/-- The step for any other transaction. -/
lemma LoopInv.step_spend (hl : vtx = pre ++ tx :: post)
    (hi : LoopInv ctx v0 pre st) (hcb : tx.isCoinBase = false) {w w' : CCoinsViewCache}
    (hf : Fetched st.view w) (hadd : w'.addCoins ctx.H tx b.pindex.nHeight = .ok st'.view)
    {undo : List Coin} (hspend : spendLoop tx.vin w = .ok (undo, w'))
    (hcoins : ∀ o ∈ tx.prevouts, st.view.coinAt o ≠ none) (hfee : 0 ≤ feeOn st.view tx)
    (hfees : st'.nFees = toInt64 (st.nFees + feeOn st.view tx)) :
    LoopInv ctx v0 (pre ++ [tx]) st' := by
  have hevw : Evolves v0 w := hi.evolves.trans (hf.evolves hi.evolves.wf)
  have hnd : (tx.vin.map CTxIn.prevout).Nodup := hs.distinct tx (mem hl) hcb
  obtain ⟨hev1, hspent, hkept⟩ := spendLoop_spec hevw.wf hspend
  have htot1 := spendLoop_total hevw.wf hnd hspend
  have hevw' := hevw.trans hev1
  obtain ⟨hev2, hsame, htot2⟩ := hs.addCoins (mem hl) hevw' (fun h => absurd h (by simp [hcb])) hadd
  have hspentBy : spentBy (pre ++ [tx]) = spentBy pre ++ tx.prevouts := by
    rw [spentBy_concat, hcb, if_neg Bool.false_ne_true]
  -- Outside what the transaction spends and creates, the view is as before the step.
  have hnone : ∀ o, st.view.coinAt o = none → w'.coinAt o = none := by
    intro o ho
    by_cases hmem : o ∈ tx.vin.map CTxIn.prevout
    · exact hspent o hmem
    · rw [hkept o hmem, hf.coinAt, ho]
  obtain ⟨fees, h0, hn, hv⟩ := hi.value
  refine ⟨hevw'.trans hev2, ?_, ?_, ?_, ?_, fees + feeOn st.view tx, by linarith, ?_, ?_⟩
  · intro o ho
    by_cases hh : o.hash = ctx.H.txid tx
    · exact Or.inr ⟨tx, by simp, hh⟩
    · rw [hsame o (fun h => absurd h hh)] at ho
      have hst : st.view.coinAt o ≠ none := fun h => ho (hnone o h)
      rcases hi.origin o hst with h | ⟨tx', h, hid⟩
      · exact Or.inl h
      · exact Or.inr ⟨tx', by simp [h], hid⟩
  · intro o ho
    rw [hspentBy, mem_append] at ho
    rw [hsame o (hi.not_created hs hl hcb hcoins ho)]
    rcases ho with ho | ho
    · exact hnone o (hi.gone o ho)
    · exact hspent o ho
  · intro o ho
    rw [hspentBy, mem_append] at ho
    have horig : v0.coinAt o ≠ none ∨ ∃ tx' ∈ pre, o.hash = ctx.H.txid tx' := by
      rcases ho with ho | ho
      · exact hi.spentOrigin o ho
      · exact hi.origin o (hcoins o ho)
    exact horig.imp id (fun ⟨tx', h, hid⟩ => ⟨tx', by simp [h], hid⟩)
  · rw [hspentBy, nodup_append]
    refine ⟨hi.nodup, hnd, ?_⟩
    rintro o ho _ ho' rfl
    exact hcoins o ho' (hi.gone o ho)
  · rw [hfees, hn, toInt64_add]
  · have hw := hf.utxoTotal
    have hval : ((tx.vin.map CTxIn.prevout).map w.valueAt).sum
        = (tx.prevouts.map st.view.valueAt).sum := by rw [hf.valueAt]; rfl
    rw [hval] at htot1
    rw [mintedBy_concat, hcb, if_neg Bool.false_ne_true]
    unfold feeOn
    linarith

/-- **One iteration keeps the invariant.** -/
lemma LoopInv.step (hl : vtx = pre ++ tx :: post) (hi : LoopInv ctx v0 pre st)
    (h : connectTx ctx b st tx = .ok st') : LoopInv ctx v0 (pre ++ [tx]) st' := by
  obtain ⟨w, w', hf, hadd, _, hcase⟩ := connectTx_ok h
  rcases hcase with ⟨hcb, rfl, hfees, _⟩ | ⟨hcb, undo, r, hspend, hr, hfees, _⟩
  · exact hi.step_coinbase hs hl hcb hf hadd hfees
  · refine hi.step_spend hs hl hcb hf hadd hspend hr.coins ?_ hfees
    have := hr.value
    unfold feeOn
    linarith

/-- The invariant after the whole loop. -/
lemma loopInv_of_loop {cache : ctx.C.State}
    (h : vtx.foldlM (connectTx ctx b) ⟨v0, cache, 0, 0, false, [], []⟩ = .ok st) :
    LoopInv ctx v0 vtx st := by
  refine foldlM_rule (LoopInv ctx v0) ?_ ?_ h
  · refine ⟨Evolves.refl hs.wf, fun o ho => Or.inl ho, by simp, by simp, by simp, 0, le_refl _, ?_,
      ?_⟩
    · rfl
    · simp
  · intro pre tx post st st' hl hi hstep
    exact hi.step hs hl hstep

end

end Loop

/-! ## The supply across a block -/

/-- **A block does not create money**: the unspent outputs afterwards are worth at most what they
    were worth before plus the subsidy, and no outpoint is spent twice. -/
def SupplyBounded (ctx : ChainContext) (block : CBlock) (pindex : CBlockIndex)
    (view : CCoinsViewCache) (r : Connected ctx.C) : Prop :=
  r.view.utxoTotal ≤ view.utxoTotal + getBlockSubsidy pindex.nHeight ctx.params ∧
    (spentBy (connectedTxs ctx block)).Nodup

/-- No transaction that is connected lists an outpoint twice. -/
def DistinctInputs (ctx : ChainContext) (block : CBlock) : Prop :=
  ∀ tx ∈ connectedTxs ctx block, tx.isCoinBase = false → tx.prevouts.Nodup

/-- The outputs of the block are not there yet, because BIP30 is enforced or because they are
    known to be new. -/
def OutputsUnused (ctx : ChainContext) (block : CBlock) (pindex : CBlockIndex)
    (view : CCoinsViewCache) : Prop :=
  (∀ prev, pindex.pprev = some prev → enforceBIP30 ctx.params pindex prev = true) ∨
    ∀ tx ∈ block.vtx, ∀ o ∈ createdOutpoints ctx.H tx, view.coinAt o = none

/-- Transactions of the block with the same id spend the same outpoints: the id is a hash of the
    transaction without its witnesses. -/
def NoIdCollision (ctx : ChainContext) (block : CBlock) : Prop :=
  ∀ tx ∈ block.vtx, ∀ tx' ∈ block.vtx, ctx.H.txid tx = ctx.H.txid tx' → tx.prevouts = tx'.prevouts

variable {ctx : ChainContext} {block : CBlock} {pindex prev : CBlockIndex}
  {view : CCoinsViewCache} {cache : ctx.C.State} {s s' : ctx.L.State} {r : Connected ctx.C}

/-- The loop starts from a view in which the block's outputs are unused. -/
lemma checkBIP30_ok {b : BlockSettings} {v : CCoinsViewCache} (hb : b.pindex = pindex)
    (hprev : pindex.pprev = some prev) (hun : OutputsUnused ctx block pindex view)
    (h : checkBIP30 ctx b prev block.vtx view = .ok v) :
    Fetched view v ∧ ∀ tx ∈ block.vtx, ∀ o ∈ createdOutpoints ctx.H tx, view.coinAt o = none := by
  unfold checkBIP30 at h
  rw [hb] at h
  split_ifs at h with hen
  · obtain ⟨hf, hnone⟩ := checkOverwrites_ok h
    refine ⟨hf, ?_⟩
    intro tx htx o ho
    exact hnone o (mem_flatMap.mpr ⟨tx, htx, ho⟩)
  · cases h
    refine ⟨Fetched.refl _, ?_⟩
    rcases hun with hun | hun
    · exact absurd (hun prev hprev) hen
    · exact hun

/-- **The bound for a block with distinct inputs.** -/
lemma supply_of_connectedBy (block : CBlock) {fJustCheck : Bool} {st : LoopState ctx.C}
    (hb : BlockChecked block)
    (hw : view.WF) (hun : OutputsUnused ctx block pindex view) (hid : NoIdCollision ctx block)
    (hdist : ∀ tx ∈ block.vtx, tx.isCoinBase = false → tx.prevouts.Nodup)
    (hprev : pindex.pprev = some prev)
    (h : ConnectedBy ctx fJustCheck block pindex prev view cache s s' r st) :
    r.view.utxoTotal ≤ view.utxoTotal + getBlockSubsidy pindex.nHeight ctx.params ∧
      (spentBy block.vtx).Nodup := by
  obtain ⟨v, h30, hloop⟩ := bind_ok.mp h.txs
  obtain ⟨hf, hnone⟩ := checkBIP30_ok rfl hprev hun h30
  have hsetup : LoopSetup ctx v block.vtx := by
    refine ⟨hf.wf hw, ?_, hid, hb.coinbase, hb.vin, fun tx htx o ho => (hb.vout tx htx o ho).1,
      hdist⟩
    intro tx htx i hi
    rw [hf.coinAt]
    exact hnone tx htx _ (mem_map.mpr ⟨i, mem_range.mpr hi, rfl⟩)
  have hinv := loopInv_of_loop hsetup hloop
  refine ⟨?_, hinv.nodup⟩
  obtain ⟨cb, rest, hvtx, hcb, hrest⟩ := hb.coinbase
  obtain ⟨cb', rest', out, hvtx', hout, hle, _⟩ := checkReward_ok.mp h.reward
  cases hvtx.symm.trans hvtx'
  obtain ⟨fees, h0, hn, hv⟩ := hinv.value
  -- Only the first transaction mints, and it stays within the fees and the subsidy.
  have hmint : mintedBy block.vtx = out := by
    have hzero : mintedBy rest = 0 := by
      refine sum_eq_zero ?_
      intro x hx
      obtain ⟨tx, htx, rfl⟩ := mem_map.mp hx
      simp [hrest tx htx]
    rw [hvtx, (getValueOut_ok hout).1]
    simp only [mintedBy, map_cons, sum_cons, if_pos hcb]
    have : (rest.map fun tx => if tx.isCoinBase then outputSum tx.vout else 0).sum = 0 := hzero
    linarith
  have hsub := getBlockSubsidy_nonneg pindex.nHeight ctx.params
  have hreward : out ≤ fees + getBlockSubsidy pindex.nHeight ctx.params := by
    rw [hn, toInt64_add] at hle
    exact hle.trans (toInt64_le (add_nonneg h0 hsub))
  rw [h.result]
  simp only [finalView_utxoTotal]
  have := hf.utxoTotal
  linarith

/-- **Accepting a block creates no money if and only if none of its transactions lists an outpoint
    twice.**  The three checks accept the block on top of a view, and nothing else stands between a
    repeated input and the supply. -/
theorem connectBlock_supply_iff {block' : CBlock} (hnew : block.fChecked = false)
    (hcheck : checkBlock ctx.H block true true = .ok block')
    (_hcontext : contextualCheckBlock ctx.H ctx.params block' pindex.pprev = .ok ())
    (hconnect : connectBlock ctx false block' pindex view cache s = .ok r s')
    (hw : view.WF) (hun : OutputsUnused ctx block pindex view) (hid : NoIdCollision ctx block) :
    SupplyBounded ctx block pindex view r ↔ DistinctInputs ctx block := by
  constructor
  · rintro ⟨_, hnd⟩ tx htx hcb
    simpa [hcb] using (nodup_flatMap.mp hnd).1 tx htx
  · intro hdist
    obtain ⟨hb, rfl⟩ := checkBlock_ok hnew hcheck
    obtain ⟨_, hcase⟩ := connectBlock_ok.mp hconnect
    rcases hcase with ⟨hg, _, rfl⟩ | ⟨hg, prev, st, hprev, hby⟩
    · have hg' : ctx.H.getHash block = ctx.params.hashGenesisBlock := hg
      refine ⟨?_, by simp [connectedTxs, hg']⟩
      rw [finalView_utxoTotal]
      linarith [getBlockSubsidy_nonneg pindex.nHeight ctx.params]
    · have hg' : ¬ ctx.H.getHash block = ctx.params.hashGenesisBlock := hg
      have hall : connectedTxs ctx block = block.vtx := by rw [connectedTxs, if_neg hg']
      rw [DistinctInputs, hall] at hdist
      rw [SupplyBounded, hall]
      have hb' : BlockChecked { block with fChecked := true } := ⟨hb.coinbase, hb.vin, hb.vout⟩
      exact supply_of_connectedBy { block with fChecked := true } hb' hw hun hid hdist hprev hby

/-- All scripts pass. -/
def ScriptEngine.accepting : ScriptEngine := ⟨fun _ => none⟩

/-- A block with one transaction that spends the ten coins once. -/
def singleSpendBlock : CBlock := smallBlock [smallSpend [smallOutpoint] ⟨10 * coin, [OP_1]⟩]

theorem connectBlock_supply_single :
    ∃ r s', connectBlock (.small 0 .accepting) false { singleSpendBlock with fChecked := true }
        smallIndex smallView [] Uint256.null = .ok r s' ∧
      (SupplyBounded (.small 0 .accepting) singleSpendBlock smallIndex smallView r ↔
        DistinctInputs (.small 0 .accepting) singleSpendBlock) := by
  obtain ⟨r, s', h⟩ : ∃ r s', connectBlock (.small 0 .accepting) false
      { singleSpendBlock with fChecked := true } smallIndex smallView [] Uint256.null = .ok r s' :=
    ⟨_, _, rfl⟩
  refine ⟨r, s', h, connectBlock_supply_iff rfl rfl rfl h (wf_ofBase _ _) (Or.inr ?_) ?_⟩
  · decide +kernel
  · unfold NoIdCollision; decide +kernel

/-- A block whose one transaction lists the outpoint with the ten coins twice and pays out
    twenty. -/
def repeatedInputBlock : CBlock :=
  smallBlock [smallSpend [smallOutpoint, smallOutpoint] ⟨20 * coin, [OP_1]⟩]

/-- **A repeated input mints money.**  The three checks accept the block; ten coins before, a
    subsidy of eight, and twenty-eight coins afterwards. -/
theorem connectBlock_repeated_input : ∃ r s', repeatedInputBlock.fChecked = false ∧
      checkBlock Hashes.small repeatedInputBlock true true
        = .ok { repeatedInputBlock with fChecked := true } ∧
      contextualCheckBlock Hashes.small .regtest { repeatedInputBlock with fChecked := true }
        smallIndex.pprev = .ok () ∧
      connectBlock (.small 0 .accepting) false { repeatedInputBlock with fChecked := true }
        smallIndex smallView [] Uint256.null = .ok r s' ∧
      smallView.WF ∧ smallView.utxoTotal = 10 * coin ∧
      getBlockSubsidy smallIndex.nHeight .regtest = 8 * coin ∧ r.view.utxoTotal = 28 * coin ∧
      ¬ SupplyBounded (.small 0 .accepting) repeatedInputBlock smallIndex smallView r := by
  refine ⟨_, _, rfl, rfl, rfl, rfl, wf_ofBase _ _, by decide +kernel, by decide +kernel,
    by decide +kernel, ?_⟩
  rintro ⟨hle, _⟩
  revert hle
  decide +kernel

end Ybtc
