import Ybtc.Contract.Sender
import Ybtc.Miner.AssemblySteps

/-!
# What the coinbase of an assembled block pays

The value of the miner's output is set before any fee is known, and set again only when there are
gas refunds to pay out.
-/

namespace Ybtc

open Stateful List CTxMemPoolEntry CTransaction

/-! ## The outputs -/

@[simp] lemma outputSum_nil : outputSum [] = 0 := rfl

@[simp] lemma outputSum_cons (o : CTxOut) (vout : List CTxOut) :
    outputSum (o :: vout) = o.nValue + outputSum vout := rfl

@[simp] lemma outputSum_append (v w : List CTxOut) :
    outputSum (v ++ w) = outputSum v + outputSum w := by
  rw [outputSum, map_append, sum_append]
  rfl

/-- Outputs without value. -/
def Worthless (vout : List CTxOut) : Prop := ∀ out ∈ vout, out.nValue = 0

lemma Worthless.outputSum {vout : List CTxOut} (h : Worthless vout) : outputSum vout = 0 := by
  refine sum_eq_zero fun v hv => ?_
  obtain ⟨out, hout, rfl⟩ := mem_map.mp hv
  exact h out hout

/-- The casino adds an output without value. -/
lemma addCasinoToCoinBaseTx_vout {crypto : Crypto} {E : ContractEngine} {c : CasinoParams}
    {tx tx' : CTransaction} {nHeight : ℕ} {s s' : E.State}
    (h : addCasinoToCoinBaseTx crypto E c tx nHeight s = .ok tx' s') :
    ∃ casino, tx'.vout = tx.vout ++ casino ∧ Worthless casino := by
  obtain ⟨script, s₁, _, hrest⟩ := bind_ok.mp h
  cases script with
  | none =>
    cases hrest
    exact ⟨[], (append_nil _).symm, fun out hout => by cases hout⟩
  | some script =>
    obtain ⟨_, s2, _, h2⟩ := bind_ok.mp hrest
    obtain ⟨_, s3, _, hend⟩ := bind_ok.mp h2
    cases hend
    refine ⟨[⟨0, script⟩], rfl, fun out hout => ?_⟩
    rw [mem_singleton.mp hout]

/-! ## A sample

A node on top of genesis whose pool holds one accepted transaction. -/

/-- The pool after a transaction was accepted. -/
def poolWith (tx : CTransaction) : CTxMemPool :=
  (stateAfter (acceptToMemoryPoolWorker (.small ownedView) .small tx ⟨.empty, []⟩)).pool

/-- Fee rates compared without rounding. -/
def betterRate (feesA sizeA feesB sizeB : ℤ) : Bool := decide (feesB * sizeA < feesA * sizeB)

abbrev MinerContext.small (pool : CTxMemPool) : MinerContext where
  crypto := Crypto.zeros
  E := .counting
  chain := ChainContext.small 0 ⟨fun _ => none⟩
  casino := ⟨sampleAddress 0x0d, [0x60], fun _ _ => [1, 2]⟩
  pool := pool
  tip := genesisEntry.toIndex []
  viewNew := ownedView
  cache := ([] : List Uint256)
  nVersion := 4
  timeStart := 1600000010
  timeUpdate := 1600000010
  timeTest := 1600000010
  optionMaxWeight := maxBlockWeight
  blockMinFeeRate := ⟨1000⟩
  compareByAncestorFee a b := betterRate a.nModFeesWithAncestors a.nSizeWithAncestors
    b.nModFeesWithAncestors b.nSizeWithAncestors
  compareModified a b := betterRate a.nModFeesWithAncestors a.nSizeWithAncestors
    b.nModFeesWithAncestors b.nSizeWithAncestors
  segwitTimeout := true
  checkpoint := none
  coinbaseFlags := []

/-- A payment with a fee of one coin. -/
def feeTx : CTransaction := { smallSpend [smallOutpoint] ⟨9 * coin, [OP_1]⟩ with nVersion := 3 }

/-- A creation with a gas limit of 10000 at price 1, and a fee of 1000.  Its code is `STOP`, which
    uses no gas. -/
def gasTx : CTransaction :=
  { smallSpend [smallOutpoint] ⟨10 * coin - 1000,
      pushBytes (pushBytes (pushBytes (pushBytes [] (sampleAddress 0x0a)) [0x10, 0x27] ++ [OP_1])
        [0x00]) (sampleAddress 0x0c) ++ [OP_CREATE]⟩ with nVersion := 3 }

lemma gasTx_selected : ∃ r s₁,
    selectTransactions (.small (poolWith gasTx)) 10 [OP_1] true 0#256 = .ok r s₁ ∧
      r.assembler.vRefundGasFee.map CTxOut.nValue = [10000] ∧ r.assembler.rebuilds = true := by
  have hrun : returnsWith (fun r _ =>
      decide (r.assembler.vRefundGasFee.map CTxOut.nValue = [10000]) && r.assembler.rebuilds)
      (selectTransactions (.small (poolWith gasTx)) 10 [OP_1] true 0#256) = true := by
    decide +kernel
  obtain ⟨r, s₁, h, hr⟩ := returnsWith_iff.mp hrun
  rw [Bool.and_eq_true, decide_eq_true_eq] at hr
  exact ⟨r, s₁, h, hr⟩

lemma gasTx_created : ∃ template s',
    createNewBlock (.small (poolWith gasTx)) 10 [OP_1] true 0#256 = .ok template s' ∧
      template.block.vtx.tail = [gasTx] ∧ template.vTxFees.tail = [1000] := by
  have hrun : returnsWith (fun template _ => decide (template.block.vtx.tail = [gasTx])
      && decide (template.vTxFees.tail = [1000]))
      (createNewBlock (.small (poolWith gasTx)) 10 [OP_1] true 0#256) = true := by decide +kernel
  obtain ⟨template, s', h, ht⟩ := returnsWith_iff.mp hrun
  rw [Bool.and_eq_true, decide_eq_true_eq, decide_eq_true_eq] at ht
  exact ⟨template, s', h, ht⟩

lemma accepted_of_run {tx : CTransaction} (hrun : returnsWith (fun b _ => b)
    (acceptToMemoryPoolWorker (.small ownedView) .small tx ⟨.empty, []⟩) = true) :
    ∃ st', acceptToMemoryPoolWorker (.small ownedView) .small tx ⟨.empty, []⟩ = .ok true st' := by
  obtain ⟨b, st', h, hb⟩ := returnsWith_iff.mp hrun
  exact ⟨st', by rw [h, hb]⟩

section Coinbase

variable {ctx : MinerContext} {cb : CTransaction} {A : Assembler} {s s' s0 s₁ : ctx.E.State}
  {entries : List CTxMemPoolEntry} {fuel : ℕ} {script : CScript} {w : Bool} {r : Selected}
  {template : CBlockTemplate}

/-- Without a contract transaction there are no refunds. -/
lemma Assembled.refunds_of_no_contract (hA : Assembled ctx cb s0 A s entries)
    (h : A.hasContract = false) : A.vRefundGasFee = [] := by
  rw [hA.hasContract, any_eq_false] at h
  refine foldlM_value (P := fun refunds => refunds = []) ?_ rfl hA.run
  intro tx htx refunds t refunds' t' hnil hrun
  obtain ⟨e, he, rfl⟩ := mem_map.mp htx
  rw [execTx, if_neg (h e he)] at hrun
  cases hrun
  exact hnil

/-- The coinbase is rebuilt exactly when there are refunds. -/
lemma Assembled.rebuilds_iff (hA : Assembled ctx cb s0 A s entries) :
    A.rebuilds = true ↔ A.vRefundGasFee ≠ [] := by
  unfold Assembler.rebuilds
  cases hc : A.hasContract with
  | false => simp [hA.refunds_of_no_contract hc]
  | true => simp

/-- What the miner's output is worth. -/
def minerValue (ctx : MinerContext) (A : Assembler) : CAmount :=
  if A.rebuilds then A.nFees + ctx.subsidy - outputSum A.vRefundGasFee
  else ctx.subsidy

/-- `commitpos == -1` for the coinbase of the block: a commitment is added. -/
def commits (ctx : MinerContext) (r : Selected) : Bool :=
  ctx.segwitTimeout && (witnessCommitment (rewardTx ctx r)).isNone

/-- **The outputs of the coinbase.** -/
structure CoinbaseShape (ctx : MinerContext) (script : CScript) (r : Selected)
    (coinbase : CTransaction) (casino extra : List CTxOut) : Prop where
  vout : coinbase.vout = ⟨minerValue ctx r.assembler, script⟩
    :: (casino ++ r.assembler.vRefundGasFee ++ extra)
  reward : (rewardTx ctx r).vout = ⟨minerValue ctx r.assembler, script⟩
    :: (casino ++ r.assembler.vRefundGasFee)
  original : r.originalRewardTx.vout = (coinbaseTemplate ctx script).vout ++ casino
  worthless : Worthless casino
  commitment : ∀ out ∈ extra, ∃ block, out = ⟨0, commitmentScript ctx.chain.H block⟩
  extra_length : extra.length = if commits ctx r then 1 else 0

variable {coinbase : CTransaction}

lemma CoinbaseShape.extra {casino extra : List CTxOut}
    (h : CoinbaseShape ctx script r coinbase casino extra) : Worthless extra := by
  intro out hout
  obtain ⟨block, rfl⟩ := h.commitment out hout
  rfl

/-- The outputs of the coinbase: the miner's, the casino's, the refunds, the commitment. -/
lemma coinbase_shape (hsel : selectTransactions ctx fuel script w s = .ok r s₁) (root : Uint256) :
    ∃ coinbase casino extra, (assembledBlock ctx r root).vtx = coinbase :: r.assembler.vtx.tail ∧
        CoinbaseShape ctx script r coinbase casino extra := by
  obtain ⟨t1, t2, entries, _, hcasino, hA⟩ := selectTransactions_ok hsel
  obtain ⟨casino, hvout, hzero⟩ := addCasinoToCoinBaseTx_vout hcasino
  obtain ⟨coinbase, hblock, hout⟩ := assembledBlock_eq ctx r root
  have hreward : (rewardTx ctx r).vout = ⟨minerValue ctx r.assembler, script⟩
      :: (casino ++ r.assembler.vRefundGasFee) := by
    unfold rewardTx minerValue
    split_ifs with hb
    · simp only [rebuildRefundTransaction, setFirstValue, hvout, coinbaseTemplate,
        cons_append, nil_append]
    · have hnil : r.assembler.vRefundGasFee = [] := by
        by_contra hne
        exact hb (hA.rebuilds_iff.mpr hne)
      rw [hvout, hnil, append_nil]
      rfl
  refine ⟨coinbase, casino,
    commitmentOutputs ctx.chain.H ctx.segwitTimeout (uncommittedBlock ctx r root), by rw [hblock],
    ⟨?_, hreward, hvout, hzero, ?_, ?_⟩⟩
  · rw [hout, hreward, cons_append]
  · intro out hmem
    unfold commitmentOutputs at hmem
    split_ifs at hmem
    · exact ⟨_, mem_singleton.mp hmem⟩
    · cases hmem
  · unfold commitmentOutputs
    change (if commits ctx r = true then _ else _ : List CTxOut).length = _
    split_ifs <;> rfl

/-! ## Subsidy and fees -/

/-- **The coinbase pays out the subsidy and the fees of the block's transactions**, and the miner's
    output gets what the refunds leave of it. -/
def PaysFees (ctx : MinerContext) (template : CBlockTemplate) (refunds : List CTxOut) : Prop :=
  ∃ coinbase rest out outs, template.block.vtx = coinbase :: rest ∧ coinbase.vout = out :: outs ∧
    outputSum coinbase.vout = ctx.subsidy + template.vTxFees.tail.sum ∧
    out.nValue = ctx.subsidy + template.vTxFees.tail.sum - outputSum refunds

/-- The transactions of the block and their fees are those of entries of the pool. -/
def FromPool (ctx : MinerContext) (template : CBlockTemplate) : Prop :=
  ∃ entries : List CTxMemPoolEntry, (∀ e ∈ entries, e ∈ ctx.pool.mapTx) ∧
    template.block.vtx.tail = entries.map tx ∧
    template.vTxFees.tail = entries.map nFee

/-- What a returned template and the selection behind it have to do with each other. -/
lemma template_of_selection (hsel : selectTransactions ctx fuel script w s = .ok r s₁)
    (h : createNewBlock ctx fuel script w s = .ok template s') :
    FromPool ctx template ∧ template.vTxFees.tail.sum = r.assembler.nFees ∧
      BlockChecked template.block ∧
      ∃ coinbase casino extra, template.block.vtx = coinbase :: r.assembler.vtx.tail ∧
        CoinbaseShape ctx script r coinbase casino extra := by
  obtain ⟨r', t1, root, t2, hsel', _, rfl, hchecked⟩ := createNewBlock_ok h
  rw [hsel] at hsel'
  cases hsel'
  obtain ⟨t3, t4, entries, _, _, hA⟩ := selectTransactions_ok hsel
  obtain ⟨coinbase, casino, extra, hvtx, hshape⟩ := coinbase_shape hsel root
  have hfees : r.assembler.vTxFees.tail = entries.map nFee := by
    rw [hA.vTxFees, tail_cons]
  refine ⟨⟨entries, hA.pool, ?_, hfees⟩, ?_, hchecked, coinbase, casino, extra, hvtx, hshape⟩
  · simp only [blockTemplate, hvtx, tail_cons, hA.vtx]
  · simp only [blockTemplate, tail_cons, hfees, hA.nFees]

/-- What the outputs of the coinbase add up to. -/
lemma CoinbaseShape.outputSum {casino extra : List CTxOut}
    (h : CoinbaseShape ctx script r coinbase casino extra) :
    outputSum coinbase.vout = minerValue ctx r.assembler + outputSum r.assembler.vRefundGasFee := by
  rw [h.vout]
  simp [h.worthless.outputSum, h.extra.outputSum]

/-- **The coinbase pays out the subsidy and all fees exactly when there are none, or when it was
    rebuilt for the refunds.** -/
theorem createNewBlock_pays_iff (hsel : selectTransactions ctx fuel script w s = .ok r s₁)
    (h : createNewBlock ctx fuel script w s = .ok template s') :
    FromPool ctx template ∧
      (PaysFees ctx template r.assembler.vRefundGasFee ↔
        r.assembler.nFees = 0 ∨ r.assembler.rebuilds = true) := by
  obtain ⟨hpool, hfees, _, coinbase, casino, extra, hvtx, hshape⟩ := template_of_selection hsel h
  obtain ⟨_, _, entries, _, _, hA⟩ := selectTransactions_ok hsel
  refine ⟨hpool, ?_⟩
  by_cases hb : r.assembler.rebuilds = true
  · -- The rebuilt coinbase: the miner's output is what the refunds leave.
    have hvalue : minerValue ctx r.assembler = r.assembler.nFees + ctx.subsidy
        - outputSum r.assembler.vRefundGasFee := by rw [minerValue, if_pos hb]
    refine iff_of_true ⟨coinbase, _, _, _, hvtx, hshape.vout, ?_, ?_⟩ (Or.inr hb)
    · rw [hshape.outputSum, hvalue, hfees]
      ring
    · rw [hvalue, hfees]
      ring
  · have hvalue : minerValue ctx r.assembler = ctx.subsidy := by rw [minerValue, if_neg hb]
    have hnil : r.assembler.vRefundGasFee = [] := by
      by_contra hne
      exact hb (hA.rebuilds_iff.mpr hne)
    constructor
    · rintro ⟨coinbase', _, _, _, hvtx', _, hsum, _⟩
      rw [hvtx] at hvtx'
      obtain ⟨rfl, _⟩ := List.cons.inj hvtx'
      rw [hshape.outputSum, hvalue, hnil, outputSum_nil, hfees] at hsum
      exact Or.inl (by linarith)
    · rintro (h0 | hb')
      · refine ⟨coinbase, _, _, _, hvtx, hshape.vout, ?_, ?_⟩
        · rw [hshape.outputSum, hvalue, hnil, outputSum_nil, hfees, h0]
        · rw [hvalue, hnil, outputSum_nil, hfees, h0]
          ring
      · exact absurd hb' hb

theorem createNewBlock_pays_rebuilt :
    ∃ (r : Selected) (template : CBlockTemplate), r.assembler.rebuilds = true ∧
      FromPool (.small (poolWith gasTx)) template ∧
      PaysFees (.small (poolWith gasTx)) template r.assembler.vRefundGasFee := by
  obtain ⟨r, s₁, hsel, _, hb⟩ := gasTx_selected
  obtain ⟨template, s', h, _⟩ := gasTx_created
  obtain ⟨hpool, hiff⟩ := createNewBlock_pays_iff hsel h
  exact ⟨r, template, hb, hpool, hiff.mpr (Or.inr hb)⟩

/-- **The fee of an ordinary payment is not paid out.**  The transaction was accepted with a fee of
    one coin, the block that contains it is returned, and its coinbase pays the subsidy alone. -/
theorem createNewBlock_fee_lost :
    (∃ st', acceptToMemoryPoolWorker (.small ownedView) .small feeTx ⟨.empty, []⟩ = .ok true st') ∧
    ∃ template s', createNewBlock (.small (poolWith feeTx)) 10 [OP_1] true 0#256 = .ok template s' ∧
      template.block.vtx.tail = [feeTx] ∧ template.vTxFees.tail = [coin] ∧
      ∀ refunds, ¬ PaysFees (.small (poolWith feeTx)) template refunds := by
  refine ⟨accepted_of_run (by decide +kernel), ?_⟩
  have hrun : returnsWith (fun template _ => decide (template.block.vtx.tail = [feeTx])
      && decide (template.vTxFees.tail = [coin])
      && decide (template.block.vtx.head?.map (fun tx => outputSum tx.vout) = some (8 * coin)))
      (createNewBlock (.small (poolWith feeTx)) 10 [OP_1] true 0#256) = true := by decide +kernel
  obtain ⟨template, s', h, ht⟩ := returnsWith_iff.mp hrun
  simp only [Bool.and_eq_true, decide_eq_true_eq] at ht
  obtain ⟨⟨htail, hfees⟩, hsum⟩ := ht
  refine ⟨template, s', h, htail, hfees, ?_⟩
  rintro refunds ⟨coinbase, rest, out, outs, hvtx, _, hpays, _⟩
  have hsubsidy : (MinerContext.small (poolWith feeTx)).subsidy = 8 * coin := by decide +kernel
  rw [hvtx, head?_cons, Option.map_some, Option.some_inj] at hsum
  rw [hsum, hsubsidy, hfees] at hpays
  revert hpays
  decide

/-! ## Refunds -/

/-- **Where a refund output comes from**: a contract output of one of the transactions, the call it
    describes, and the gas an execution of that call has used. -/
def RefundOf (crypto : Crypto) (E : ContractEngine) (txs : List CTransaction) (f : ContractFields)
    (gasUsed : U256) (g : CTxOut) : Prop :=
  ∃ tx ∈ txs, ∃ out ∈ tx.vout, out.isContract = true ∧
    parseStack (contractFlag out.scriptPubKey) (contractStack crypto out.scriptPubKey) = .ok f ∧
    ∃ t res t', E.execute (f.scTransaction (contractFlag out.scriptPubKey)) t = .ok res t' ∧
      res.gasUsed = gasUsed ∧
      g = ⟨E.toCAmount (f.refundGasAmount gasUsed), refundScript f.fabCallerAddress⟩

/-- An output with such an origin. -/
def IsRefund (crypto : Crypto) (E : ContractEngine) (txs : List CTransaction) (g : CTxOut) : Prop :=
  ∃ f gasUsed, RefundOf crypto E txs f gasUsed g

variable {crypto : Crypto} {E : ContractEngine} {txs : List CTransaction} {refunds' : List CTxOut}

lemma execOutput_refunds {tx : CTransaction} (htx : tx ∈ txs) {out : CTxOut} (hout : out ∈ tx.vout)
    {refunds : List CTxOut} {t t' : E.State} (hP : ∀ g ∈ refunds, IsRefund crypto E txs g)
    (h : execOutput crypto E refunds out t = .ok refunds' t') :
    ∀ g ∈ refunds', IsRefund crypto E txs g := by
  by_cases hc : out.isContract = true
  · obtain ⟨f, old, t1, hf, -, htry⟩ := (execOutput_contract_ok hc).mp h
    rcases tryExecute_ok.mp htry with ⟨res, hex, rfl⟩ | ⟨e, t2, -, -, rfl⟩
    · intro g hg
      rcases mem_append.mp hg with hg | hg
      · exact hP g hg
      · unfold refundOutputs at hg
        split_ifs at hg
        · cases hg
        · obtain rfl := mem_singleton.mp hg
          exact ⟨f, _, tx, htx, out, hout, hc, hf, t1, res, _, hex, rfl, rfl⟩
    · exact hP
  · rw [execOutput, if_neg hc] at h
    cases h
    exact hP

/-- Every refund the contract transactions leave has such an origin. -/
lemma execTxs_refunds {t t' : E.State} (h : txs.foldlM (execTx crypto E) [] t = .ok refunds' t') :
    ∀ g ∈ refunds', IsRefund crypto E txs g := by
  refine foldlM_value (P := fun refunds => ∀ g ∈ refunds, IsRefund crypto E txs g) ?_ (by simp) h
  intro tx htx refunds t1 refunds2 t2 hP hrun
  unfold execTx at hrun
  split_ifs at hrun with hc
  · obtain ⟨_, t3, _, hexec⟩ := bind_ok.mp hrun
    refine foldlM_value (P := fun refunds => ∀ g ∈ refunds, IsRefund crypto E txs g) ?_ hP hexec
    exact fun out hout b t4 b' t5 hb hstep => execOutput_refunds htx hout hb hstep
  · cases hrun
    exact hP

/-- An amount in range was converted exactly. -/
lemma toCAmount_of_range (hconv : E.Saturates) {n : U256} (h : MoneyRange (E.toCAmount n)) :
    E.toCAmount n = n.toNat := by
  obtain ⟨-, hle⟩ := h
  rw [hconv] at hle ⊢
  rcases min_choice (n.toNat : ℤ) (2 ^ 63 - 1) with hmin | hmin
  · exact hmin
  · rw [hmin] at hle
    exact absurd hle (by decide)

/-- **The refunds of a block that is returned.**  Each is exactly the amount `TxContractExec`
    computed from a contract output of the block, and lies in range: an amount that does not fit
    into `CAmount` saturates, and the block would fail its test.  Together they are paid out of the
    subsidy and the fees of the whole block, and what the miner keeps is not negative. -/
theorem createNewBlock_refunds (hconv : ctx.E.Saturates)
    (hsel : selectTransactions ctx fuel script w s = .ok r s₁)
    (h : createNewBlock ctx fuel script w s = .ok template s') :
    ∃ coinbase rest out casino extra, template.block.vtx = coinbase :: rest ∧
      coinbase.vout = out :: (casino ++ r.assembler.vRefundGasFee ++ extra) ∧
      Worthless casino ∧ Worthless extra ∧ 0 ≤ out.nValue ∧
      (∀ g ∈ r.assembler.vRefundGasFee, MoneyRange g.nValue ∧
        ∃ f gasUsed, RefundOf ctx.crypto ctx.E rest f gasUsed g ∧
          g.nValue = (f.refundGasAmount gasUsed).toNat ∧
          (gasUsed ≤ f.gasLimit →
            g.nValue = (f.gasLimit.toNat - gasUsed.toNat : ℕ) * f.gasPrice.toNat)) ∧
      (r.assembler.vRefundGasFee ≠ [] →
        out.nValue + outputSum r.assembler.vRefundGasFee
          = ctx.subsidy + template.vTxFees.tail.sum) := by
  obtain ⟨_, hfees, hchecked, coinbase, casino, extra, hvtx, hshape⟩ := template_of_selection hsel h
  obtain ⟨_, _, entries, _, _, hA⟩ := selectTransactions_ok hsel
  have hrange : ∀ o ∈ coinbase.vout, MoneyRange o.nValue :=
    hchecked.vout coinbase (by rw [hvtx]; exact mem_cons_self)
  rw [hshape.vout] at hrange
  refine ⟨coinbase, _, _, casino, extra, hvtx, hshape.vout, hshape.worthless,
    hshape.extra, ?_, ?_, ?_⟩
  · exact (hrange _ mem_cons_self).1
  · intro g hg
    have hg' : MoneyRange g.nValue := hrange g (by simp [hg])
    refine ⟨hg', ?_⟩
    obtain ⟨f, gasUsed, tx, htx, out, hout, hc, hf, t, res, t', hex, hused, rfl⟩ :=
      execTxs_refunds hA.run g hg
    have hexact := toCAmount_of_range hconv hg'
    refine ⟨f, gasUsed, ⟨tx, ?_, out, hout, hc, hf, t, res, t', hex, hused, rfl⟩, hexact, ?_⟩
    · rw [hA.vtx, tail_cons]
      exact htx
    · intro hle
      rw [hexact, ContractFields.refundGasAmount_toNat hf hle, Nat.cast_mul]
  · intro hne
    rw [minerValue, if_pos (hA.rebuilds_iff.mpr hne), hfees]
    ring

theorem createNewBlock_refunds_sample :
    ∃ (r : Selected) (template : CBlockTemplate) (coinbase : CTransaction)
      (rest : List CTransaction) (out : CTxOut) (casino extra : List CTxOut),
      template.block.vtx = coinbase :: rest ∧
      coinbase.vout = out :: (casino ++ r.assembler.vRefundGasFee ++ extra) ∧ 0 ≤ out.nValue ∧
      out.nValue + outputSum r.assembler.vRefundGasFee
        = (MinerContext.small (poolWith gasTx)).subsidy + template.vTxFees.tail.sum := by
  obtain ⟨r, s₁, hsel, hvalues, _⟩ := gasTx_selected
  obtain ⟨template, s', h, _⟩ := gasTx_created
  obtain ⟨coinbase, rest, out, casino, extra, hvtx, hvout, _, _, hpos, _, hsum⟩ :=
    @createNewBlock_refunds (.small (poolWith gasTx)) _ _ _ _ _ _ _ _ (fun _ => rfl) hsel h
  refine ⟨r, template, coinbase, rest, out, casino, extra, hvtx, hvout, hpos, hsum ?_⟩
  intro hnil
  rw [hnil] at hvalues
  cases hvalues

/-- **A refund can exceed the fee.**  The transaction was accepted with a fee of 1000, and the block
    that is returned refunds 10000 for it. -/
theorem createNewBlock_refund_exceeds_fee :
    (∃ st', acceptToMemoryPoolWorker (.small ownedView) .small gasTx ⟨.empty, []⟩ = .ok true st') ∧
    (∃ r s₁, selectTransactions (.small (poolWith gasTx)) 10 [OP_1] true 0#256 = .ok r s₁ ∧
      r.assembler.vRefundGasFee.map CTxOut.nValue = [10000]) ∧
    ∃ template s', createNewBlock (.small (poolWith gasTx)) 10 [OP_1] true 0#256 = .ok template s' ∧
      template.block.vtx.tail = [gasTx] ∧ template.vTxFees.tail = [1000] := by
  refine ⟨accepted_of_run (by decide +kernel), ?_, gasTx_created⟩
  obtain ⟨r, s₁, h, hvalues, _⟩ := gasTx_selected
  exact ⟨r, s₁, h, hvalues⟩

end Coinbase

end Ybtc
