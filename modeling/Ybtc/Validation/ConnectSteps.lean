import Ybtc.Validation.ConnectBlock

/-!
# What one step of `ConnectBlock` can do

Inversion lemmas: an accepted run is taken apart once, here, into the facts that every later
argument about accepted blocks starts from.
-/

namespace Ybtc

open Fallible CCoinsViewCache

variable {ctx : ChainContext} {b : BlockSettings} {st st' : LoopState ctx.C} {tx : CTransaction}

variable {block : CBlock}

lemma checkLocks_fetched {v v' : CCoinsViewCache} (h : checkLocks b tx v = .ok v') :
    Fetched v v' := by
  unfold checkLocks at h
  split_ifs at h
  · cases h
    exact Fetched.refl v
  · simp only [bind_ok, exists_const, dosIf_ok] at h
    obtain ⟨_, _, _, _, h⟩ := h
    cases h
    exact (haveInputs_fetched v tx).trans (accessCoins_fetched _ _)

/-- The fee a transaction pays, as `ConnectBlock` computes it from the view. -/
def feeOn (v : CCoinsViewCache) (tx : CTransaction) : CAmount :=
  (tx.prevouts.map v.valueAt).sum - CTransaction.outputSum tx.vout

/-- The input side of one iteration, for a transaction that is not a coinbase. -/
lemma checkFeeAndInputs_ok (hcb : tx.isCoinBase = false)
    (h : checkFeeAndInputs ctx b st tx = .ok st') :
    ∃ r : CheckedInputs ctx.C,
      InputsChecked ctx.H ctx.E ctx.C tx st.view b.fScriptChecks b.flags b.fJustCheck st.cache
        (ctx.nScriptCheckThreads != 0) r ∧
      st' = { st with
        view := r.view
        cache := r.cache
        nFees := toInt64 (st.nFees + feeOn st.view tx)
        made := st.made ++ [⟨tx, r.cacheHit, r.checks⟩] } := by
  rw [checkFeeAndInputs, hcb, if_neg Bool.false_ne_true] at h
  simp only [bind_ok, liftFault_ok] at h
  obtain ⟨nOut, hOut, nSpend, _, r, hr, hst⟩ := h
  have hspec := (checkInputs_spec hcb hr).of_fetched (getValueIn_fetched st.view tx)
  obtain ⟨rfl, _⟩ := CTransaction.getValueOut_ok hOut
  refine ⟨r, hspec, ?_⟩
  rw [feeOn, ← getValueIn_spec hcb hspec.coins]
  exact (Except.ok.inj hst).symm

/-- **One iteration of the loop**: some queries, then (unless it is the coinbase) the inputs are
    checked and spent, then the outputs are added. -/
lemma connectTx_ok (h : connectTx ctx b st tx = .ok st') :
    ∃ w w', Fetched st.view w ∧ w'.addCoins ctx.H tx b.pindex.nHeight = .ok st'.view ∧
      st'.hasContract = (st.hasContract || tx.hasCreateOrCall) ∧
      ((tx.isCoinBase = true ∧ w' = w ∧ st'.nFees = st.nFees ∧ st'.made = st.made ∧
          st'.cache = st.cache) ∨
        (tx.isCoinBase = false ∧ ∃ undo r, spendLoop tx.vin w = .ok (undo, w') ∧
          InputsChecked ctx.H ctx.E ctx.C tx st.view b.fScriptChecks b.flags b.fJustCheck st.cache
            (ctx.nScriptCheckThreads != 0) r ∧
          st'.nFees = toInt64 (st.nFees + feeOn st.view tx) ∧
          st'.made = st.made ++ [⟨tx, r.cacheHit, r.checks⟩] ∧ st'.cache = r.cache)) := by
  simp only [connectTx, bind_ok, exists_const, liftFault_ok, dosIf_ok, Prod.exists] at h
  obtain ⟨v1, hlocks, cost, v2, hcost, _, st1, hin, undo, v3, hupd, hst⟩ := h
  have hf : Fetched st.view v2 :=
    (checkLocks_fetched hlocks).trans (getTransactionSigOpCost_fetched hcost)
  simp only [updateCoins, bind_ok, Prod.exists, Except.ok.injEq, Prod.mk.injEq] at hupd
  obtain ⟨undo', w', hspend, v3', hadd, _, rfl⟩ := hupd
  cases hcb : tx.isCoinBase with
  | true =>
    rw [spendInputs, hcb, if_pos rfl] at hspend
    rw [checkFeeAndInputs, hcb, if_pos rfl] at hin
    cases hin
    obtain ⟨-, rfl⟩ := Prod.mk.inj (Except.ok.inj hspend)
    cases hst
    exact ⟨v2, v2, hf, hadd, rfl, Or.inl ⟨rfl, rfl, rfl, rfl, rfl⟩⟩
  | false =>
    rw [spendInputs, hcb, if_neg Bool.false_ne_true] at hspend
    obtain ⟨r, hr, rfl⟩ := checkFeeAndInputs_ok hcb hin
    cases hst
    refine ⟨r.view, w', hf.trans hr.fetched, hadd, rfl, Or.inr ⟨rfl, undo', r, hspend, ?_⟩⟩
    exact ⟨hr.of_fetched hf, by rw [feeOn, feeOn, hf.valueAt], rfl, rfl⟩

/-- An accepted BIP30 test: no listed outpoint shows a coin. -/
lemma checkOverwrites_ok : ∀ {os : List COutPoint} {v v' : CCoinsViewCache},
    checkOverwrites os v = .ok v' → Fetched v v' ∧ ∀ o ∈ os, v.coinAt o = none
  | [], v, v', h => by
    cases h
    exact ⟨Fetched.refl v, by simp⟩
  | o :: os, v, v', h => by
    simp only [checkOverwrites, bind_ok, exists_const, dosIf_ok, haveCoin_eq] at h
    have hf := haveCoin_fetched v o
    obtain ⟨hf', hos⟩ := checkOverwrites_ok h.2
    refine ⟨hf.trans hf', ?_⟩
    rw [List.forall_mem_cons]
    refine ⟨by simpa using h.1, ?_⟩
    intro p hp
    rw [← hf.coinAt]
    exact hos p hp

/-- The transactions of a block that are connected at all: those of the genesis block are not. -/
def connectedTxs (ctx : ChainContext) (block : CBlock) : List CTransaction :=
  if ctx.H.getHash block = ctx.params.hashGenesisBlock then [] else block.vtx

lemma finalView_utxoTotal (fJustCheck : Bool) (pindex : CBlockIndex) (v : CCoinsViewCache) :
    (finalView fJustCheck pindex v).utxoTotal = v.utxoTotal := by
  unfold finalView
  split_ifs <;> rfl

/-- What an accepted run behind the genesis case went through. -/
structure ConnectedBy (ctx : ChainContext) (fJustCheck : Bool) (block : CBlock)
    (pindex prev : CBlockIndex) (view : CCoinsViewCache) (cache : ctx.C.State)
    (s s' : ctx.L.State) (r : Connected ctx.C) (st : LoopState ctx.C) : Prop where
  txs : connectTxs ctx (blockSettings ctx fJustCheck pindex) prev block.vtx view cache = .ok st
  contracts : ∃ s₁, checkContractTx ctx.H ctx.L block st.hasContract s = .ok () s₁ ∧
    if fJustCheck then ctx.L.setRoot (stateRootOf ctx.L.emptyRoot prev.hashStateRoot) s₁ = .ok () s'
    else s' = s₁
  reward : checkReward ctx (blockSettings ctx fJustCheck pindex) block st = .ok ()
  written : fJustCheck = false → writeBlockData ctx pindex = .ok ()
  result : r = ⟨finalView fJustCheck pindex st.view, st.cache, st.nFees, st.vtxundo.tail, st.made,
    evaluatedChecks ctx.nScriptCheckThreads st.made⟩

variable {view : CCoinsViewCache} {fJustCheck : Bool} {pindex : CBlockIndex} {r : Connected ctx.C}

lemma connectAfterGenesis_ok {prev : CBlockIndex} {cache : ctx.C.State} {s s' : ctx.L.State} :
    connectAfterGenesis ctx fJustCheck block pindex prev view cache s = .ok r s' ↔
      ∃ st, ConnectedBy ctx fJustCheck block pindex prev view cache s s' r st := by
  simp only [connectAfterGenesis, Stateful.bind_ok, Stateful.liftExcept_apply_ok,
    Stateful.mapError_apply_ok]
  constructor
  · rintro ⟨st, s0, ⟨htxs, rfl⟩, ⟨⟩, s1, hc, ⟨⟩, s2, ⟨hrew, rfl⟩, hrest⟩
    refine ⟨st, ?_⟩
    cases fJustCheck with
    | true =>
      simp only [if_true, Stateful.bind_ok, Stateful.mapError_apply_ok] at hrest
      obtain ⟨⟨⟩, s3, hset, hr⟩ := hrest
      cases hr
      exact ⟨htxs, ⟨s2, hc, hset⟩, hrew, fun h => absurd h (by simp), rfl⟩
    | false =>
      simp only [Bool.false_eq_true, if_false, Stateful.bind_ok,
        Stateful.liftExcept_apply_ok] at hrest
      obtain ⟨⟨⟩, s3, ⟨hw, rfl⟩, hr⟩ := hrest
      obtain ⟨rfl, rfl⟩ := EStateM.Result.ok.inj hr
      exact ⟨htxs, ⟨s3, hc, rfl⟩, hrew, fun _ => hw, rfl⟩
  · rintro ⟨st, htxs, ⟨s1, hc, hset⟩, hrew, hw, rfl⟩
    refine ⟨st, s, ⟨htxs, rfl⟩, (), s1, hc, (), s1, ⟨hrew, rfl⟩, ?_⟩
    cases fJustCheck with
    | true =>
      simp only [if_true, Stateful.bind_ok, Stateful.mapError_apply_ok]
      exact ⟨(), s', hset, rfl⟩
    | false =>
      obtain rfl : s' = s1 := hset
      simp only [Bool.false_eq_true, if_false, Stateful.bind_ok, Stateful.liftExcept_apply_ok]
      exact ⟨(), s', ⟨hw rfl, rfl⟩, rfl⟩

/-- **When `ConnectBlock` accepts**: the genesis block, or the loop followed by the contract check
    and the reward check. -/
lemma connectBlock_ok {cache : ctx.C.State} {s s' : ctx.L.State} :
    connectBlock ctx fJustCheck block pindex view cache s = .ok r s' ↔
      ((pindex.phashBlock = none ∨ pindex.phashBlock = some (ctx.H.getHash block)) ∧
        (∃ checked, checkBlock ctx.H block (!fJustCheck) (!fJustCheck) = .ok checked) ∧
        (pindex.pprev.map CBlockIndex.getBlockHash).getD Uint256.null = view.getBestBlock) ∧
      ((ctx.H.getHash block = ctx.params.hashGenesisBlock ∧ s' = s ∧
          r = ⟨finalView fJustCheck pindex view, cache, 0, [], [], []⟩) ∨
        (ctx.H.getHash block ≠ ctx.params.hashGenesisBlock ∧ ∃ prev st, pindex.pprev = some prev ∧
          ConnectedBy ctx fJustCheck block pindex prev view cache s s' r st)) := by
  simp only [connectBlock, Stateful.bind_ok, Stateful.liftExcept_apply_ok, assertThat_ok]
  constructor
  · rintro ⟨⟨⟩, _, ⟨hp, rfl⟩, checked, _, ⟨hck, rfl⟩, ⟨⟩, _, ⟨hb, rfl⟩, hrest⟩
    refine ⟨⟨hp, ⟨checked, hck⟩, hb⟩, ?_⟩
    by_cases hg : ctx.H.getHash block = ctx.params.hashGenesisBlock
    · rw [if_pos hg] at hrest
      cases hrest
      exact Or.inl ⟨hg, rfl, rfl⟩
    · rw [if_neg hg] at hrest
      refine Or.inr ⟨hg, ?_⟩
      cases hprev : pindex.pprev with
      | none => rw [hprev] at hrest; cases hrest
      | some prev =>
        rw [hprev] at hrest
        obtain ⟨st, hst⟩ := connectAfterGenesis_ok.mp hrest
        exact ⟨prev, st, rfl, hst⟩
  · rintro ⟨⟨hp, ⟨checked, hck⟩, hb⟩, hrest⟩
    refine ⟨(), s, ⟨hp, rfl⟩, checked, s, ⟨hck, rfl⟩, (), s, ⟨hb, rfl⟩, ?_⟩
    rcases hrest with ⟨hg, rfl, rfl⟩ | ⟨hg, prev, st, hprev, hst⟩
    · rw [if_pos hg]; rfl
    · rw [if_neg hg, hprev]
      exact connectAfterGenesis_ok.mpr ⟨st, hst⟩

/-- The block has passed `CheckBlock`, now or when it was marked. -/
lemma blockChecked_of_connect (hmark : block.fChecked = true → BlockChecked block) {pow : Bool}
    (h : ∃ checked, checkBlock ctx.H block pow pow = .ok checked) : BlockChecked block := by
  cases hc : block.fChecked with
  | true => exact hmark hc
  | false =>
    obtain ⟨checked, h⟩ := h
    exact (checkBlock_ok hc h).1

/-- An accepted reward check: the coinbase stays within the (stored) fees and the subsidy, and what
    was queued passed. -/
lemma checkReward_ok : checkReward ctx b block st = .ok () ↔
      ∃ cb rest v, block.vtx = cb :: rest ∧ cb.getValueOut = .ok v ∧
        v ≤ toInt64 (st.nFees + getBlockSubsidy b.pindex.nHeight ctx.params) ∧
        (ctx.nScriptCheckThreads = 0 ∨ ∀ check ∈ queuedChecks st.made, ctx.E.Passes check) := by
  unfold checkReward
  cases block.vtx with
  | nil => simp
  | cons cb rest =>
    simp only [bind_ok, exists_const, liftFault_ok, dosIf_ok, not_lt, not_not]
    constructor
    · rintro ⟨v, hv, hle, hq⟩
      refine ⟨cb, rest, v, rfl, hv, hle, ?_⟩
      by_cases h0 : ctx.nScriptCheckThreads = 0
      · exact Or.inl h0
      · exact Or.inr (by simpa [h0] using hq)
    · rintro ⟨_, _, v, heq, hv, hle, hq⟩
      cases heq
      refine ⟨v, hv, hle, ?_⟩
      rcases hq with h0 | hq
      · simp [h0]
      · split_ifs
        · simp
        · exact hq

/-! ## The contract state -/

/-- The flag `ConnectBlock` collects. -/
lemma connectTxs_hasContract {txs : List CTransaction}
    (h : txs.foldlM (connectTx ctx b) st = .ok st') :
    st'.hasContract = (st.hasContract || txs.any CTransaction.hasCreateOrCall) := by
  induction txs generalizing st with
  | nil =>
    cases h
    simp
  | cons tx txs ih =>
    rw [List.foldlM_cons] at h
    obtain ⟨st1, htx, hrest⟩ := Fallible.bind_ok.mp h
    obtain ⟨_, _, _, _, hflag, _⟩ := connectTx_ok htx
    rw [ih hrest, hflag, List.any_cons, Bool.or_assoc]

/-- **What an accepting `CheckContractTx` has done**: nothing, or it has run the contracts of the
    block between two questions for the root, the second of which gave that of the header. -/
lemma checkContractTx_ok {H : Hashes} {L : ContractLayer} {hasContract : Bool} {s s' : L.State}
    (h : checkContractTx H L block hasContract s = .ok () s') :
    (hasContract = false ∧ s' = s) ∨ (hasContract = true ∧ ∃ old s₁ refunds s₂,
      L.rootHash s = .ok old s₁ ∧
      L.getBlockContract { block with fChecked := false } s₁ = .ok (true, refunds) s₂ ∧
      L.rootHash s₂ = .ok block.hashStateRoot s') := by
  have hreject : ∀ old reason t, rejectAndRestore L old reason t ≠ .ok () s' := by
    intro old reason t hrej
    obtain ⟨_, _, _, hthrow⟩ := Stateful.bind_ok.mp hrej
    cases hthrow
  unfold checkContractTx at h
  cases hasContract with
  | false =>
    cases h
    exact Or.inl ⟨rfl, rfl⟩
  | true =>
    simp only [Bool.not_true, Bool.false_eq_true, if_false] at h
    obtain ⟨old, s₁, hold, h⟩ := Stateful.bind_ok.mp h
    obtain ⟨⟨ok, refunds⟩, s₂, hrun, h⟩ := Stateful.bind_ok.mp h
    cases ok with
    | false => exact absurd h (hreject _ _ _)
    | true =>
      simp only [Bool.not_true, Bool.false_eq_true, if_false, checkContractRefundFee] at h
      obtain ⟨root, s₃, hroot, h⟩ := Stateful.bind_ok.mp h
      split_ifs at h with hne
      · exact absurd h (hreject _ _ _)
      · exact absurd h (hreject _ _ _)
      · cases h
        obtain rfl := not_not.mp hne
        exact Or.inr ⟨rfl, old, s₁, refunds, s₂, Stateful.mapError_apply_ok.mp hold,
          Stateful.mapError_apply_ok.mp hrun, Stateful.mapError_apply_ok.mp hroot⟩

end Ybtc
