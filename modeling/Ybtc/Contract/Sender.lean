import Ybtc.Contract.Malformed
import Ybtc.Mempool.Accept
import Ybtc.Validation.ConnectSteps

/-!
# Who is the sender of a contract call

The address a contract sees as `msg.sender` is a field of the output script.  It should be the key
that controls the coin which the transaction spends: admission to the memory pool asks for a first
coin with a sender script, and the wallet picks the coin of the sender.  But neither admission nor
`ConnectBlock` compares the two.  The main result is `contractCall_authentic_iff`.
-/

namespace Ybtc

open Stateful List CCoinsViewCache ContractEngine Crypto

/-! ## Recording calls -/

/-- The engine, with a record of all calls. -/
abbrev ContractEngine.recording (E : ContractEngine) : ContractEngine where
  State := E.State × List ScTransaction
  emptyRoot := E.emptyRoot
  rootHash := onFst E.rootHash
  setRoot r := onFst (E.setRoot r)
  execute t := fun p => onFst (E.execute t) (p.1, p.2 ++ [t])
  commit := onFst E.commit
  toCAmount := E.toCAmount

section Calls

variable (crypto : Crypto)

/-- The item of the stack that `ParseStack` takes as the address of the caller. -/
def senderField (script : CScript) : Bytes := (contractStack crypto script).getD 5 []

/-- The sender an output names. -/
def namedSender (out : CTxOut) : H160 := h160 (senderField crypto out.scriptPubKey)

/-- The senders the contract outputs name, in their order. -/
def namedSenders (outs : List CTxOut) : List H160 :=
  (outs.filter CTxOut.isContract).map (namedSender crypto)

variable {crypto}

variable {E : ContractEngine}

/-- The senders of the recorded calls. -/
def recordedSenders (p : E.recording.State) : List H160 := p.2.map ScTransaction.sender

lemma onFst_quiet {α : Type} (x : EStateM Fault E.State α) :
    Logs recordedSenders [] (onFst x : EStateM Fault E.recording.State α) :=
  Logs.quiet fun p => by rw [recordedSenders, stateAfter_onFst_snd, recordedSenders]

/-- A call is recorded before the engine starts on it, whatever it makes of it. -/
lemma tryExecute_logs (flag : SmartContractFlag) (f : ContractFields) (old : Uint256)
    (refunds : List CTxOut) :
    Logs recordedSenders [f.callerAddress] (tryExecute E.recording flag f old refunds) := by
  have hafter : ∀ p, recordedSenders (stateAfter (E.recording.execute (f.scTransaction flag) p))
      = recordedSenders p ++ [f.callerAddress] := by
    intro p
    rw [recordedSenders, stateAfter_onFst_snd, map_append]
    rfl
  have hrestore := (onFst_quiet (E.setRoot old)).bind fun _ => Logs.pure refunds
  intro p refunds' p' hrun
  have h := hafter p
  unfold tryExecute at hrun
  cases hex : E.recording.execute (f.scTransaction flag) p with
  | ok res p1 =>
    rw [hex] at h hrun
    cases hrun
    exact h
  | error fault p1 =>
    rw [hex] at h hrun
    cases fault with
    | thrown e => rw [hrestore p1 _ _ hrun, append_nil, append_nil]; exact h
    | assertion | exit | undefined | diverged => cases hrun

/-- One output: a contract output is recorded under the sender it names. -/
lemma execOutput_logs (refunds : List CTxOut) (out : CTxOut) :
    Logs recordedSenders (namedSenders crypto [out])
      (execOutput crypto E.recording refunds out) := by
  unfold execOutput namedSenders
  cases hc : out.isContract with
  | true =>
    rw [filter_singleton, hc, cond_true]
    unfold execContract
    refine Logs.liftExcept_bind fun f hf => ?_
    obtain ⟨hsixth, hcaller⟩ := parseStack_sixth hf
    rw [map_singleton, namedSender, senderField, getD_eq_getElem?_getD, hsixth, Option.getD_some,
      ← hcaller]
    exact (onFst_quiet E.rootHash).bind fun old => tryExecute_logs _ f old refunds
  | false =>
    rw [filter_singleton, hc]
    exact Logs.pure refunds

lemma flatMap_namedSenders (outs : List CTxOut) :
    outs.flatMap (fun out => namedSenders crypto [out]) = namedSenders crypto outs := by
  induction outs with
  | nil => rfl
  | cons out outs ih =>
    rw [flatMap_cons, ih, namedSenders, namedSenders, namedSenders, ← map_append, ← filter_append]
    rfl

/-- **The calls of a transaction, in the order of its outputs.** -/
lemma txContractExec_logs (tx : CTransaction) (refunds : List CTxOut) :
    Logs recordedSenders (namedSenders crypto tx.vout)
      (txContractExec crypto E.recording tx refunds) := by
  rw [← flatMap_namedSenders]
  exact Logs.foldlM _ tx.vout refunds fun out _ refunds' => execOutput_logs refunds' out

/-- A transaction that is not a contract transaction names nobody. -/
lemma namedSenders_of_not_contract {tx : CTransaction} (h : tx.hasCreateOrCall = false) :
    namedSenders crypto tx.vout = [] := by
  rw [namedSenders, map_eq_nil_iff, filter_eq_nil_iff]
  exact fun out hout => by simpa [CTxOut.isContract] using any_eq_false.mp h out hout

lemma execTx_logs (refunds : List CTxOut) (tx : CTransaction) :
    Logs recordedSenders (namedSenders crypto tx.vout) (execTx crypto E.recording refunds tx) := by
  unfold execTx
  split_ifs with hc
  · exact (onFst_quiet E.rootHash).bind fun _ => txContractExec_logs tx refunds
  · rw [namedSenders_of_not_contract (by simpa using hc)]
    exact Logs.pure refunds

/-- **The calls of a block, in the order of its outputs.** -/
lemma getBlockContract_logs (block : CBlock) :
    Logs recordedSenders (block.vtx.flatMap fun tx => namedSenders crypto tx.vout)
      (getBlockContract crypto E.recording block) := by
  have hloop : Logs recordedSenders (block.vtx.flatMap fun tx => namedSenders crypto tx.vout)
      (block.vtx.foldlM (execTx crypto E.recording) []) :=
    Logs.foldlM _ block.vtx [] fun tx _ refunds => execTx_logs refunds tx
  have htail : ∀ refunds : List CTxOut, Logs recordedSenders []
      (do E.recording.commit; pure (true, refunds) : EStateM Fault E.recording.State _) :=
    fun refunds => (onFst_quiet E.commit).bind fun _ => Logs.pure (true, refunds)
  rw [← append_nil (flatMap _ _)]
  exact hloop.bind htail

/-- **The calls made for an accepted block are those its outputs describe.** -/
lemma connectBlock_senders {ctx : ChainContext} {fJustCheck : Bool} {block : CBlock}
    {pindex : CBlockIndex} {view : CCoinsViewCache} {cache : ctx.C.State} {s : E.State}
    {r : Connected ctx.C} {p : E.recording.State}
    (h : connectBlock (ctx.withLayer (E.recording.layer crypto)) fJustCheck block pindex view cache
      (s, []) = .ok r p) :
    recordedSenders p = (connectedTxs ctx block).flatMap fun tx => namedSenders crypto tx.vout := by
  obtain ⟨-, ⟨hg, rfl, -⟩ | ⟨hg, prev, st, -, hby⟩⟩ := connectBlock_ok.mp h
  · rw [show connectedTxs ctx block = [] from if_pos hg]
    rfl
  rw [show connectedTxs ctx block = block.vtx from if_neg hg]
  obtain ⟨p1, hcheck, hset⟩ := hby.contracts
  have hp : recordedSenders p = recordedSenders p1 := by
    split_ifs at hset
    · rw [onFst_quiet _ _ _ _ hset, append_nil]
    · rw [hset]
  obtain ⟨v, -, hfold⟩ := Fallible.bind_ok.mp hby.txs
  have hflag := connectTxs_hasContract hfold
  rcases checkContractTx_ok hcheck with ⟨hc, rfl⟩ | ⟨-, old, s₁, refunds, s₂, hold, hrun, hroot⟩
  · rw [hc, Bool.false_or] at hflag
    rw [hp]
    refine (flatMap_eq_nil_iff.mpr fun tx htx => namedSenders_of_not_contract ?_).symm
    simpa using any_eq_false.mp hflag.symm tx htx
  · rw [hp, onFst_quiet _ _ _ _ hroot, getBlockContract_logs _ _ _ _ hrun,
      onFst_quiet _ _ _ _ hold, append_nil, append_nil]
    rfl

end Calls

/-! ## The first coin -/

section FirstCoin

/-- The hash of the key that controls a coin, for the two kinds of script that are about one key. -/
def controllingKeyHash (crypto : Crypto) (script : CScript) : Option Bytes :=
  if isPayToPubkeyHash script then some ((script.drop 3).take 20)
  else if isPayToPubkey script then
    some (crypto.hash .hash160 ((script.drop 1).take (script.length - 2)))
  else none

/-- The address of the key that controls the coin spent by the first input. -/
def firstCoinOwner (crypto : Crypto) (coinAt : COutPoint → Option Coin) (tx : CTransaction) :
    Option H160 := do
  let txin ← tx.vin.head?
  let coin ← coinAt txin.prevout
  let keyHash ← controllingKeyHash crypto coin.out.scriptPubKey
  some (h160 keyHash)

/-- The coin an outpoint stands for behind some transactions of a block. -/
def coinBehind (H : Hashes) (view : CCoinsViewCache) (pre : List CTransaction) (o : COutPoint) :
    Option Coin :=
  match pre.find? fun tx => H.txid tx = o.hash with
  | some tx => (tx.vout[o.n]?).map fun out => ⟨out, tx.isCoinBase, 0⟩
  | none => view.coinAt o

/-- A contract output in a block: the transactions before its own one, this one, and the output. -/
structure ContractCall where
  pre : List CTransaction
  tx : CTransaction
  out : CTxOut

/-- The contract outputs of the transactions of a block, behind those in `pre`. -/
def contractCalls : List CTransaction → List CTransaction → List ContractCall
  | _, [] => []
  | pre, tx :: post =>
    (tx.vout.filter CTxOut.isContract).map (ContractCall.mk pre tx) ++
      contractCalls (pre ++ [tx]) post

/-- The senders they name are those of `namedSenders`. -/
lemma contractCalls_senders (crypto : Crypto) (txs : List CTransaction) : ∀ pre,
    (contractCalls pre txs).map (fun call => namedSender crypto call.out) =
      txs.flatMap fun tx => namedSenders crypto tx.vout := by
  induction txs with
  | nil => exact fun _ => rfl
  | cons tx post ih =>
    intro pre
    rw [contractCalls, map_append, map_map, flatMap_cons, ih]
    rfl

/-- **A call of a block comes from a sender**: it is the owner of the coin that the first input of
    its transaction spends.  A coinbase spends none. -/
def ContractCall.ComesFrom (crypto : Crypto) (H : Hashes) (view : CCoinsViewCache)
    (call : ContractCall) (sender : H160) : Prop :=
  call.tx.isCoinBase = false →
    firstCoinOwner crypto (coinBehind H view call.pre) call.tx = some sender

variable {ctx : AcceptContext} {pool : CTxMemPool} {tx : CTransaction}

/-- The coins of the inputs are the ones the pool and the UTXO set have. -/
lemma inputCoins_lookup {o : COutPoint} {c : Coin}
    (h : (inputCoins ctx pool tx).lookup o = some c) : mempoolCoin ctx pool o = some c := by
  unfold inputCoins at h
  -- Every coin that is put in is the one found at its outpoint.
  have key : ∀ (os : List COutPoint) (m : CoinMap),
      (∀ o c, m.lookup o = some c → mempoolCoin ctx pool o = some c) →
      ∀ o c, (os.foldl (fetchInput ctx pool) m).lookup o = some c →
        mempoolCoin ctx pool o = some c := by
    intro os
    induction os with
    | nil => exact fun m hm => hm
    | cons o1 os ih =>
      intro m hm
      rw [foldl_cons]
      refine ih _ ?_
      intro o' c' h'
      unfold fetchInput at h'
      cases hc : mempoolCoin ctx pool o1 with
      | none => rw [hc] at h'; exact hm o' c' h'
      | some c1 =>
        rw [hc] at h'
        by_cases ho : o' = o1
        · subst ho
          rw [Finmap.lookup_insert] at h'
          rw [hc, h']
        · rw [Finmap.lookup_insert_of_ne _ ho] at h'
          exact hm o' c' h'
  exact key tx.prevouts ∅ (by simp) o c h

/-- **The first coin of an accepted contract transaction is controlled by a key.** -/
lemma Accepted.firstCoin (h : Accepted ctx pool tx) (hc : tx.hasCreateOrCall = true)
    (crypto : Crypto) : ∃ owner, firstCoinOwner crypto (mempoolCoin ctx pool) tx = some owner := by
  have hsender := h.sender hc
  unfold checkSenderScript at hsender
  cases hvin : tx.vin with
  | nil => rw [hvin] at hsender; cases hsender
  | cons txin rest =>
    have hmem : txin.prevout ∈ tx.prevouts := by simp [CTransaction.prevouts, hvin]
    obtain ⟨coin, hcoin⟩ : ∃ coin, (inputCoins ctx pool tx).lookup txin.prevout = some coin := by
      have := h.inputs txin.prevout hmem
      unfold haveCoin fetchCoin inputsView ofBase at this
      cases hl : (inputCoins ctx pool tx).lookup txin.prevout with
      | none => simp [hl] at this
      | some coin => exact ⟨coin, rfl⟩
    have haccess : ((inputsView ctx pool tx).accessCoin txin.prevout).1 = coin := by
      simp [accessCoin, fetchCoin, inputsView, ofBase, hcoin, fetchedEntry]
    simp only [hvin, haccess, Bool.or_eq_true] at hsender
    have hkey : ∃ keyHash, controllingKeyHash crypto coin.out.scriptPubKey = some keyHash := by
      unfold controllingKeyHash
      split_ifs with h1 h2
      · exact ⟨_, rfl⟩
      · exact ⟨_, rfl⟩
      · exact absurd hsender (by simp [h1, h2])
    obtain ⟨keyHash, hkey⟩ := hkey
    exact ⟨h160 keyHash, by simp [firstCoinOwner, hvin, inputCoins_lookup hcoin, hkey]⟩

end FirstCoin

/-! ## A sample

A coin of one key, and transactions that spend it and name this key or another one as the sender. -/

/-- Twenty equal bytes. -/
def sampleAddress (b : UInt8) : Bytes := List.replicate 20 b

/-- The coin of the owner of the key `0a…`. -/
def ownedCoin : Coin :=
  ⟨⟨10 * coin, [OP_DUP, OP_HASH160, 0x14] ++ sampleAddress 0x0a ++ [OP_EQUALVERIFY, OP_CHECKSIG]⟩,
    false, 0⟩

def ownedView : CCoinsViewCache := ofBase (Finmap.singleton smallOutpoint ownedCoin) 1000#256

/-- A creation that names some sender. -/
def senderTx (b : UInt8) : CTransaction :=
  smallSpend [smallOutpoint] ⟨10 * coin, pushBytes (pushBytes [] (sampleAddress b)
    ++ [OP_1, OP_1]) [0x00] ++ pushBytes [] (sampleAddress 0x0c) ++ [OP_CREATE]⟩

def senderBlock (b : UInt8) : CBlock := { smallBlock [senderTx b] with hashStateRoot := 1#256 }

/-- A node that records the calls. -/
abbrev recordingChain : ChainContext :=
  (ChainContext.small 0 ⟨fun _ => none⟩).withLayer (counting.recording.layer zeros)

/-- A node on top of genesis that asks for no fees. -/
def AcceptContext.small (view : CCoinsViewCache) : AcceptContext where
  H := Hashes.small
  params := ConsensusParams.regtest
  E := ⟨fun _ => none⟩
  C := ScriptCache.list
  tip := genesisEntry.toIndex []
  pcoinsTip := view
  fRequireStandard := false
  prematureWitness := false
  fEnableReplacement := true
  isStandardTx _ _ := none
  areInputsStandard _ _ := true
  isWitnessStandard _ _ := true
  getMinFee _ := ⟨0⟩
  minRelayTxFee := ⟨0⟩
  incrementalRelayFee := ⟨0⟩
  limits := ⟨25, 101000, 25, 101000⟩
  scriptVerifyFlags := standardScriptVerifyFlags
  limitMempoolSize := id

def AcceptArgs.small : AcceptArgs := ⟨true, 1600000010, false, 0⟩

/-- Whoever is named, the transaction enters the memory pool. -/
lemma senderTx_accepted {b : UInt8} (hb : b = 0x0a ∨ b = 0x0b) :
    ∃ st', acceptToMemoryPoolWorker (.small ownedView) .small (senderTx b) ⟨.empty, []⟩ =
      .ok true st' := by
  have hrun : returnsWith (fun b _ => b) (acceptToMemoryPoolWorker (.small ownedView) .small
      (senderTx b) ⟨.empty, []⟩) = true := by
    rcases hb with rfl | rfl <;> decide +kernel
  obtain ⟨b, st', h, hb⟩ := returnsWith_iff.mp hrun
  exact ⟨st', by rw [h, hb]⟩

/-- And its block is connected, with a call by the sender that is named. -/
lemma senderBlock_connected {b : UInt8} (hb : b = 0x0a ∨ b = 0x0b) :
    ∃ r p, connectBlock recordingChain false (senderBlock b) smallIndex ownedView [] (0#256, []) =
      .ok r p ∧ recordedSenders (E := .counting) p = [h160 (sampleAddress b)] := by
  have hblock : returnsWith
      (fun _ p => decide (recordedSenders (E := .counting) p = [h160 (sampleAddress b)]))
      (connectBlock recordingChain false (senderBlock b) smallIndex ownedView [] (0#256, [])) =
        true := by
    rcases hb with rfl | rfl <;> decide +kernel
  obtain ⟨r, p, h, hp⟩ := returnsWith_iff.mp hblock
  exact ⟨r, p, h, of_decide_eq_true hp⟩

/-! ## The sender of a call -/

/-- **The sender of a contract call is the owner of the first coin exactly if the output script
    names that owner.**  For a transaction that the memory pool has accepted there is such an owner,
    and all its calls have it as their sender if and only if all contract outputs name it.  The
    calls of a block that is connected come from their senders, one by one, if and only if they come
    from the ones that the contract outputs name. -/
theorem contractCall_authentic_iff (crypto : Crypto) (E : ContractEngine) :
    (∀ (ctx : AcceptContext) (args : AcceptArgs) (tx : CTransaction) (st st' : PoolState ctx.C),
      acceptToMemoryPoolWorker ctx args tx st = .ok true st' →
        (tx.hasCreateOrCall = true →
          ∃ owner, firstCoinOwner crypto (mempoolCoin ctx st.pool) tx = some owner) ∧
        ∀ (refunds refunds' : List CTxOut) (s : E.State) (p : E.recording.State),
          txContractExec crypto E.recording tx refunds (s, []) = .ok refunds' p →
            ((∀ sender ∈ recordedSenders p,
                firstCoinOwner crypto (mempoolCoin ctx st.pool) tx = some sender) ↔
              ∀ out ∈ tx.vout, out.isContract = true →
                firstCoinOwner crypto (mempoolCoin ctx st.pool) tx =
                  some (namedSender crypto out))) ∧
    ∀ (ctx : ChainContext) (fJustCheck : Bool) (block : CBlock) (pindex : CBlockIndex)
      (view : CCoinsViewCache) (cache : ctx.C.State) (s : E.State) (r : Connected ctx.C)
      (p : E.recording.State),
      connectBlock (ctx.withLayer (E.recording.layer crypto)) fJustCheck block pindex view cache
          (s, []) = .ok r p →
        (Forall₂ (ContractCall.ComesFrom crypto ctx.H view)
            (contractCalls [] (connectedTxs ctx block)) (recordedSenders p) ↔
          ∀ call ∈ contractCalls [] (connectedTxs ctx block),
            call.ComesFrom crypto ctx.H view (namedSender crypto call.out)) := by
  refine ⟨fun ctx args tx st st' h => ⟨fun hc => ?_, fun refunds refunds' s p hp => ?_⟩, ?_⟩
  · exact (acceptToMemoryPoolWorker_ok h).firstCoin hc crypto
  · have hlog : recordedSenders p = namedSenders crypto tx.vout :=
      txContractExec_logs tx refunds _ _ _ hp
    rw [hlog, namedSenders, forall_mem_map]
    simp only [mem_filter, and_imp]
  · intro ctx fJustCheck block pindex view cache s r p h
    rw [connectBlock_senders h, ← contractCalls_senders crypto _ [], forall₂_map_right_iff,
      forall₂_same]

/-- The owner of the coin calls, in a block of its own. -/
theorem contractCall_authentic_owner : ∃ r p,
    connectBlock recordingChain false (senderBlock 0x0a) smallIndex ownedView [] (0#256, []) =
        .ok r p ∧
      recordedSenders (E := .counting) p = [h160 (sampleAddress 0x0a)] ∧
      Forall₂ (ContractCall.ComesFrom zeros .small ownedView)
        (contractCalls [] (connectedTxs (.small 0 ⟨fun _ => none⟩) (senderBlock 0x0a)))
        (recordedSenders (E := .counting) p) := by
  obtain ⟨r, p, h, hp⟩ := senderBlock_connected (Or.inl rfl)
  refine ⟨r, p, h, hp, ((contractCall_authentic_iff zeros .counting).2
    (.small 0 ⟨fun _ => none⟩) _ _ _ _ _ _ _ _ h).mpr ?_⟩
  have hcalls : contractCalls [] (connectedTxs (.small 0 ⟨fun _ => none⟩) (senderBlock 0x0a)) =
      (senderTx 0x0a).vout.map (ContractCall.mk [smallCoinbase] (senderTx 0x0a)) := by
    rw [show connectedTxs (.small 0 ⟨fun _ => none⟩) (senderBlock 0x0a) = _ from if_neg (by decide)]
    rfl
  have howner : ∀ out ∈ (senderTx 0x0a).vout, firstCoinOwner zeros
      (coinBehind .small ownedView [smallCoinbase]) (senderTx 0x0a) =
        some (namedSender zeros out) := by decide +kernel
  rw [hcalls, forall_mem_map]
  exact fun out hout _ => howner out hout

/-- **A forged sender is accepted.**  The coin belongs to `0a…` and the contract sees `0b…`: the
    transaction enters the memory pool, and the block that contains it is connected. -/
theorem contractCall_forged :
    firstCoinOwner zeros (mempoolCoin (.small ownedView) .empty) (senderTx 0x0b) =
      some (h160 (sampleAddress 0x0a)) ∧
    (∃ st', acceptToMemoryPoolWorker (.small ownedView) .small (senderTx 0x0b) ⟨.empty, []⟩
      = .ok true st') ∧
    (∃ r p, connectBlock recordingChain false (senderBlock 0x0b) smallIndex ownedView []
        (0#256, []) = .ok r p ∧
      recordedSenders (E := .counting) p = [h160 (sampleAddress 0x0b)]) ∧
    h160 (sampleAddress 0x0b) ≠ h160 (sampleAddress 0x0a) :=
  ⟨by decide +kernel, senderTx_accepted (Or.inr rfl), senderBlock_connected (Or.inr rfl),
    by decide +kernel⟩

end Ybtc
