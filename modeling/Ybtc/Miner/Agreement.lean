import Ybtc.Miner.Coinbase

/-!
# The miner and the validators reach the same root

The miner executes the casino output before the coinbase is complete, and the contract transactions
one by one as it selects them.  A validator executes the finished block.  Both do the same to the
contract state, because the outputs that are added to the coinbase later are no contract outputs.
-/

namespace Ybtc

open Stateful List

/-! ## Execution depends on the root alone -/

section Respects

variable {E : ContractEngine} (det : ExecutionDetermined E) {crypto : Crypto}

lemma rootHash_respects : Respects det.Alike E.rootHash := by
  rintro s t ⟨hs, ht, hroot⟩ a s' h
  rw [det.rootHash_ok hs.2] at h
  cases h
  exact ⟨t, by rw [det.rootHash_ok ht.2, hroot], hs, ht, hroot⟩

/-- Setting a root that both know. -/
lemma setRoot_respects {s t s' : E.State} {r : Uint256} (hs : det.Known s r) (ht : det.Known t r)
    (h : E.setRoot r s = .ok () s') : ∃ t', E.setRoot r t = .ok () t' ∧ det.Alike s' t' := by
  obtain ⟨s1, hs1, hr1, hv1⟩ := EngineLaws.setRoot_valid hs
  obtain ⟨t1, ht1, hr2, hv2⟩ := EngineLaws.setRoot_valid ht
  rw [hs1] at h
  cases h
  exact ⟨t1, ht1, ⟨det.settled_setRoot hs1, hv1⟩, ⟨det.settled_setRoot ht1, hv2⟩,
    hr1.trans hr2.symm⟩

lemma known_after_error {s s' : E.State} {t : ScTransaction} {fault : Fault} (hs : det.Valid s)
    (h : E.execute t s = .error fault s') : det.Known s' (det.root s) := by
  have hk := det.known_execute (t := t) hs
  rw [h] at hk
  exact hk

/-- One call, with the root it started from. -/
lemma tryExecute_respects {flag : SmartContractFlag} {f : ContractFields} {refunds a : List CTxOut}
    {s t s' : E.State} (hR : det.Alike s t)
    (h : tryExecute E flag f (det.root s) refunds s = .ok a s') :
    ∃ t', tryExecute E flag f (det.root s) refunds t = .ok a t' ∧ det.Alike s' t' := by
  obtain ⟨hs, ht, hroot⟩ := hR
  rcases tryExecute_ok.mp h with ⟨res, hex, rfl⟩ | ⟨e, s1, hex, hset, rfl⟩
  · obtain ⟨t1, hext, hr⟩ := det.execute_ok hs.1 ht.1 hs.2 ht.2 hroot hex
    exact ⟨t1, tryExecute_ok.mpr (Or.inl ⟨res, hext, rfl⟩),
      ⟨det.settled_execute hex, det.execute_known hs.2 hex⟩,
      ⟨det.settled_execute hext, det.execute_known ht.2 hext⟩, hr.symm⟩
  · obtain ⟨t1, hext⟩ := det.execute_error hs.1 ht.1 hs.2 ht.2 hroot hex
    have hks := known_after_error det hs.2 hex
    have hkt := known_after_error det ht.2 hext
    rw [← hroot] at hkt
    obtain ⟨t2, hsett, hR⟩ := setRoot_respects det hks hkt hset
    exact ⟨t2, tryExecute_ok.mpr (Or.inr ⟨e, t1, hext, hsett, rfl⟩), hR⟩

variable (refunds : List CTxOut)

lemma execOutput_respects (out : CTxOut) :
    Respects det.Alike (execOutput crypto E refunds out) := by
  refine Respects.ite (fun _ => ?_) (fun _ => Respects.pure refunds)
  refine (Respects.liftExcept _).bind fun f => ?_
  intro s t hR a s' h
  obtain ⟨old, s1, hold, hrest⟩ := bind_ok.mp h
  rw [det.rootHash_ok hR.1.2] at hold
  cases hold
  obtain ⟨t', htry, hR'⟩ := tryExecute_respects det hR hrest
  refine ⟨t', bind_ok.mpr ⟨det.root s, t, ?_, htry⟩, hR'⟩
  rw [det.rootHash_ok hR.2.1.2, hR.2.2]

lemma execTx_respects (tx : CTransaction) : Respects det.Alike (execTx crypto E refunds tx) :=
  Respects.ite (fun _ => (rootHash_respects det).bind fun _ =>
      Respects.foldlM (execOutput_respects det) tx.vout refunds)
    (fun _ => Respects.pure refunds)

/-- **What the transactions of a block do depends only on the root.** -/
lemma execTxs_respects (txs : List CTransaction) (refunds : List CTxOut) :
    Respects det.Alike (txs.foldlM (execTx crypto E) refunds) :=
  Respects.foldlM (execTx_respects det) txs refunds

end Respects

/-! ## Queries leave the root where it was -/

section Queries

variable {E : ContractEngine} (det : ExecutionDetermined E) {c : CasinoParams}

/-- A ready state at a given root. -/
def AtRoot (r : Uint256) (s : E.State) : Prop := det.Ready s ∧ det.root s = r

variable {s s' : E.State} {r : Uint256}

lemma setRoot_atRoot (hk : det.Known s r) (h : E.setRoot r s = .ok () s') : AtRoot det r s' := by
  obtain ⟨s1, hs1, hr, hv⟩ := EngineLaws.setRoot_valid hk
  rw [hs1] at h
  cases h
  exact ⟨⟨det.settled_setRoot hs1, hv⟩, hr⟩

/-- `CallContract` without a state change. -/
lemma callContract_atRoot {scAddr : H160} {opcode output : Bytes} {res : Bool × Bytes}
    (hs : AtRoot det r s) (h : callContract E c scAddr opcode output false s = .ok res s') :
    AtRoot det r s' := by
  obtain ⟨hready, rfl⟩ := hs
  obtain ⟨old, s0, hold, hset, -⟩ := callContract_ok h
  rw [det.rootHash_ok hready.2] at hold
  cases hold
  exact setRoot_atRoot det (det.known_execute hready.2) hset

lemma casinoQuery_atRoot {data : Bytes} {n : ℕ} (hs : AtRoot det r s)
    (h : casinoQuery E c data s = .ok n s') : AtRoot det r s' := by
  obtain ⟨res, s1, hcall, hrest⟩ := bind_ok.mp h
  obtain ⟨_, rfl⟩ := liftExcept_apply_ok.mp hrest
  exact callContract_atRoot det hs hcall

/-- Making up the casino script only asks questions. -/
lemma casinoScript_atRoot {nHeight : ℕ} {o : Option CScript} (hs : AtRoot det r s)
    (h : casinoScript E c nHeight s = .ok o s') : AtRoot det r s' := by
  unfold casinoScript at h
  split_ifs at h
  · cases h
    exact hs
  · obtain ⟨script, s1, hscript, hend⟩ := bind_ok.mp h
    cases hend
    obtain ⟨total, s2, htotal, h2⟩ := bind_ok.mp hscript
    obtain ⟨phase, _, h3⟩ := liftExcept_bind_ok.mp h2
    obtain ⟨seed, s4, hseed, h4⟩ := bind_ok.mp h3
    obtain ⟨data, _, hlast⟩ := liftExcept_bind_ok.mp h4
    cases hlast
    exact casinoQuery_atRoot det (casinoQuery_atRoot det hs htotal) hseed
  · cases h
    exact hs

end Queries

/-! ## Outputs that are no contract outputs -/

section Plain

variable {crypto : Crypto} {E : ContractEngine}

/-- No output of the list is a contract output. -/
def Plain (outs : List CTxOut) : Prop := ∀ out ∈ outs, out.isContract = false

/-- Such outputs are passed over. -/
lemma foldlM_plain : ∀ {outs : List CTxOut}, Plain outs → ∀ refunds,
    outs.foldlM (execOutput crypto E) refunds = pure refunds
  | [], _, _ => rfl
  | out :: outs, h, refunds => by
    have hout : execOutput crypto E refunds out = pure refunds := by
      rw [execOutput, h out mem_cons_self, if_neg Bool.false_ne_true]
    rw [foldlM_cons, hout, pure_bind]
    exact foldlM_plain (fun o ho => h o (mem_cons_of_mem out ho)) refunds

variable {tx : CTransaction}

/-- Executing a transaction is executing its middle part, if the rest is plain. -/
lemma txContractExec_middle (first middle last : List CTxOut)
    (hvout : tx.vout = first ++ middle ++ last) (hfirst : Plain first) (hlast : Plain last)
    (refunds : List CTxOut) :
    txContractExec crypto E tx refunds = middle.foldlM (execOutput crypto E) refunds := by
  rw [txContractExec, hvout, foldlM_append, foldlM_append, foldlM_plain hfirst, pure_bind]
  refine Eq.trans ?_ (bind_pure _)
  exact congrArg _ (funext fun r => foldlM_plain hlast r)

lemma plain_of_not_contract (h : tx.hasCreateOrCall = false) : Plain tx.vout := by
  intro out hout
  simpa [CTxOut.isContract] using any_eq_false.mp h out hout

/-- A script without either opcode. -/
lemma not_isContract_of_find {out : CTxOut} (hcreate : find out.scriptPubKey OP_CREATE = 0)
    (hcall : find out.scriptPubKey OP_CALL = 0) : out.isContract = false := by
  simp [CTxOut.isContract, hasOpCreate, hasOpCall, hcreate, hcall]

/-- The script of a refund contains no contract opcode, whoever it goes to. -/
lemma find_refundScript {b : Bytes} (hb : b.length < 2 ^ 32) {op : UInt8}
    (hop : op = OP_CREATE ∨ op = OP_CALL) : find (refundScript b) op = 0 := by
  have hlt : OP_PUSHDATA4 < op := by rcases hop with rfl | rfl <;> decide
  have hne : OP_DUP ≠ op ∧ OP_HASH160 ≠ op ∧ OP_EQUALVERIFY ≠ op ∧ OP_CHECKSIG ≠ op := by
    rcases hop with rfl | rfl <;> decide
  rw [refundScript, pushBytes_eq]
  simp only [cons_append, nil_append]
  rw [find_op (by decide), find_op (by decide), find_push hb _ hlt, find_op (by decide),
    find_op (by decide), find_nil]
  simp [hne.1, hne.2.1, hne.2.2.1, hne.2.2.2]

/-- Nor does the script of a commitment. -/
lemma find_commitmentScript (H : Hashes) (block : CBlock) {op : UInt8}
    (hop : op = OP_CREATE ∨ op = OP_CALL) : find (commitmentScript H block) op = 0 := by
  have hlt : OP_PUSHDATA4 < op := by rcases hop with rfl | rfl <;> decide
  have hne : OP_RETURN ≠ op := by rcases hop with rfl | rfl <;> decide
  obtain ⟨hash, hlen, hscript⟩ : ∃ hash : Bytes, hash.length = 32 ∧ commitmentScript H block
      = [OP_RETURN, 0x24, 0xaa, 0x21, 0xa9, 0xed] ++ hash := by
    refine ⟨_, ?_, rfl⟩
    rw [length_take, length_append, zeroNonce, length_replicate]
    omega
  have hpush : (0x24 : UInt8) :: 0xaa :: 0x21 :: 0xa9 :: 0xed :: hash
      = pushBytes [] ([0xaa, 0x21, 0xa9, 0xed] ++ hash) ++ [] := by
    have hlen' : ([0xaa, 0x21, 0xa9, 0xed] ++ hash : Bytes).length = 36 := by simp [hlen]
    rw [pushBytes, hlen', if_pos (by decide), append_nil]
    rfl
  rw [hscript, cons_append, find_op (by decide), if_neg hne]
  simp only [cons_append, nil_append]
  rw [hpush, find_push (by simp [hlen]) _ hlt, find_nil]

/-- **A refund is no contract output.** -/
lemma IsRefund.plain {txs : List CTransaction} {g : CTxOut} (h : IsRefund crypto E txs g) :
    g.isContract = false := by
  obtain ⟨f, _, tx, _, out, _, _, hf, _, _, _, _, _, rfl⟩ := h
  have hlen : f.fabCallerAddress.length < 2 ^ 32 := by
    have hle := evalScript_stackBounded (contractEnv crypto) out.scriptPubKey f.fabCallerAddress
      (mem_of_getElem? (parseStack_sixth hf).1)
    exact lt_of_le_of_lt hle (by decide)
  exact not_isContract_of_find (find_refundScript hlen (Or.inl rfl))
    (find_refundScript hlen (Or.inr rfl))

/-! ## The refunds collected so far do not matter -/

lemma execOutput_appends (out : CTxOut) : Appends fun b => execOutput crypto E b out := by
  intro b s a s' h
  by_cases hc : out.isContract = true
  · obtain ⟨f, old, s1, hf, hold, htry⟩ := (execOutput_contract_ok hc).mp h
    obtain ⟨new, ha, hnew⟩ : ∃ new, a = b ++ new ∧
        ∀ b2, tryExecute E (contractFlag out.scriptPubKey) f old b2 s1 = .ok (b2 ++ new) s' := by
      rcases tryExecute_ok.mp htry with ⟨res, hex, rfl⟩ | ⟨e, s2, hex, hset, rfl⟩
      · exact ⟨_, rfl, fun b2 => tryExecute_ok.mpr (Or.inl ⟨res, hex, rfl⟩)⟩
      · exact ⟨[], (append_nil _).symm,
          fun b2 => tryExecute_ok.mpr (Or.inr ⟨e, s2, hex, hset, append_nil b2⟩)⟩
    exact ⟨new, ha, fun b2 => (execOutput_contract_ok hc).mpr ⟨f, old, s1, hf, hold, hnew b2⟩⟩
  · simp only [execOutput, if_neg hc] at h ⊢
    exact Appends.pure b s a s' h

lemma execTx_appends (tx : CTransaction) : Appends fun b => execTx crypto E b tx := by
  intro b s a s' h
  unfold execTx at h ⊢
  split_ifs at h ⊢ with hc
  · obtain ⟨old, s1, hold, hrest⟩ := bind_ok.mp h
    obtain ⟨new, ha, hnew⟩ := Appends.foldlM execOutput_appends tx.vout b s1 a s' hrest
    exact ⟨new, ha, fun b2 => bind_ok.mpr ⟨old, s1, hold, hnew b2⟩⟩
  · exact Appends.pure b s a s' h

end Plain

/-! ## The finished block -/

section Agreement

variable {ctx : MinerContext} (det : ExecutionDetermined ctx.E) {s s' t : ctx.E.State}
  {fuel : ℕ} {script : CScript} {w : Bool} {template : CBlockTemplate}

/-- The output of the casino, if there is one. -/
def casinoOutputs (o : Option CScript) : List CTxOut := (o.map fun script => ⟨0, script⟩).toList

variable {coinbase : CTransaction} {E : ContractEngine} {crypto : Crypto}

/-- **What the casino does**: its queries lead to a state with the same root, and from there its
    output is executed.  The refunds of that execution are dropped. -/
lemma addCasinoToCoinBaseTx_run (det : ExecutionDetermined E)
    {c : CasinoParams} {tx tx' : CTransaction} {nHeight : ℕ} {q q' : E.State} (hq : det.Ready q)
    (htx : Plain tx.vout) (h : addCasinoToCoinBaseTx crypto E c tx nHeight q = .ok tx' q') :
    ∃ o p refunds, casinoScript E c nHeight q = .ok o p ∧ det.Alike q p ∧
      tx'.vout = tx.vout ++ casinoOutputs o ∧
      (casinoOutputs o).foldlM (execOutput crypto E) [] p = .ok refunds q' := by
  obtain ⟨o, p, hscript, hmore⟩ := bind_ok.mp h
  obtain ⟨hp, hroot⟩ := casinoScript_atRoot det ⟨hq, rfl⟩ hscript
  refine ⟨o, p, ?_⟩
  cases o with
  | none =>
    cases hmore
    exact ⟨[], hscript, ⟨hq, hp, hroot.symm⟩, (append_nil _).symm, rfl⟩
  | some sc =>
    obtain ⟨old, p1, hold, h1⟩ := bind_ok.mp hmore
    rw [det.rootHash_ok hp.2] at hold
    cases hold
    obtain ⟨refunds, p2, hexec, hend⟩ := bind_ok.mp h1
    cases hend
    rw [txContractExec_middle tx.vout [⟨0, sc⟩] [] (by rw [append_nil]) htx
      (fun o ho => by cases ho)] at hexec
    exact ⟨refunds, hscript, ⟨hq, hp, hroot.symm⟩, rfl, hexec⟩

/-- **The coinbase**: a finished coinbase is executed like the casino output alone. -/
lemma execTx_coinbase (det : ExecutionDetermined E) {p : E.State} {out : CTxOut}
    {casino rest : List CTxOut} (hp : det.Ready p) (hout : out.isContract = false)
    (hrest : Plain rest) (hvout : coinbase.vout = out :: (casino ++ rest)) :
    execTx crypto E [] coinbase p = casino.foldlM (execOutput crypto E) [] p := by
  have hmiddle : txContractExec crypto E coinbase [] = casino.foldlM (execOutput crypto E) [] := by
    refine txContractExec_middle [out] casino rest ?_ ?_ hrest []
    · rw [hvout, singleton_append, cons_append]
    · intro o ho
      rwa [mem_singleton.mp ho]
  unfold execTx
  split_ifs with hc
  · rw [bind_of_ok (det.rootHash_ok hp.2), hmiddle]
  · have hplain : Plain casino := by
      intro o ho
      refine plain_of_not_contract (by simpa using hc) o ?_
      rw [hvout]
      simp [ho]
    rw [foldlM_plain hplain]

/-- The extra nonce changes neither the outputs nor the root. -/
lemma incrementExtraNonce_ok {n : ℕ} {block block' : CBlock} {rest : List CTransaction}
    (hvtx : block.vtx = coinbase :: rest) (h : incrementExtraNonce ctx n block = .ok block') :
    block'.hashStateRoot = block.hashStateRoot ∧
      ∃ coinbase', block'.vtx = coinbase' :: rest ∧ coinbase'.vout = coinbase.vout := by
  unfold incrementExtraNonce at h
  rw [hvtx] at h
  cases hvin : coinbase.vin with
  | nil =>
    simp only [hvin] at h
    cases h
  | cons txin vin =>
    simp only [hvin] at h
    split_ifs at h
    cases h
    exact ⟨rfl, _, rfl, rfl⟩

/-- The refunds of the casino output, which `AddCasinoToCoinBaseTx` drops. -/
def CasinoRefunds (ctx : MinerContext) (s : ctx.E.State) (o : Option CScript)
    (refunds : List CTxOut) : Prop :=
  ∃ p p', casinoScript ctx.E ctx.casino ctx.nHeight s = .ok o p ∧
    (casinoOutputs o).foldlM (execOutput ctx.crypto ctx.E) [] p = .ok refunds p'

/-- The block has the selected transactions, and its coinbase has the casino output and otherwise no
    contract outputs. -/
def Follows (r : Selected) (o : Option CScript) (block : CBlock) : Prop :=
  ∃ coinbase out rest, block.vtx = coinbase :: r.assembler.vtx.tail ∧
    coinbase.vout = out :: (casinoOutputs o ++ rest) ∧ out.isContract = false ∧ Plain rest

variable {s1 : ctx.E.State} {r : Selected}

/-- **A validator repeats what the miner did**: such a block gives the refunds of the casino output
    followed by those the miner has collected, and ends at the root the miner reached. -/
lemma getBlockContract_repeats (hs : det.Ready s) (hscript : hasOpCreate script = false)
    (hscript' : hasOpCall script = false) (hsel : selectTransactions ctx fuel script w s = .ok r s1)
    (ht : det.Ready t) (hroot : det.root t = det.root s) :
    ∃ o refunds0, CasinoRefunds ctx s o refunds0 ∧
      r.originalRewardTx.vout = (coinbaseTemplate ctx script).vout ++ casinoOutputs o ∧
      det.Ready s1 ∧ ∀ block, Follows r o block → ∃ t', getBlockContract ctx.crypto ctx.E block t
        = .ok (true, refunds0 ++ r.assembler.vRefundGasFee) t' ∧ det.root t' = det.root s1 := by
  obtain ⟨q, q', entries, hold, hcasino, hA⟩ := selectTransactions_ok hsel
  rw [det.rootHash_ok hs.2, EStateM.Result.ok.injEq] at hold
  obtain ⟨_, rfl⟩ := hold
  have htemplateTx : Plain (coinbaseTemplate ctx script).vout := by
    intro out hout
    rw [mem_singleton.mp hout]
    simp [CTxOut.isContract, hscript, hscript']
  obtain ⟨o, p, refunds0, hquery, hsp, hvout, hexec⟩ :=
    addCasinoToCoinBaseTx_run det hs htemplateTx hcasino
  -- From `p` such a block leads to the state the miner ended in.
  have hrun : ∀ block, Follows r o block → block.vtx.foldlM (execTx ctx.crypto ctx.E) [] p
      = .ok (refunds0 ++ r.assembler.vRefundGasFee) s1 := by
    rintro block ⟨coinbase, out, rest, hvtx, hcb, hout, hrest⟩
    obtain ⟨new, hnew, hmore⟩ := Appends.foldlM execTx_appends _ _ _ _ _ hA.run
    rw [nil_append] at hnew
    rw [hvtx, hA.vtx, tail_cons, foldlM_cons, hnew]
    exact bind_ok.mpr ⟨refunds0, q', (execTx_coinbase det hsp.2.1 hout hrest hcb).trans hexec,
      hmore refunds0⟩
  have hpt : det.Alike p t := ⟨hsp.2.1, ht, hsp.2.2.symm.trans hroot.symm⟩
  refine ⟨o, refunds0, ⟨p, q', hquery, hexec⟩, hvout, ?_, ?_⟩
  · obtain ⟨_, _, hq'⟩ := Respects.foldlM (execOutput_respects det) _ _ p p
      ⟨hsp.2.1, hsp.2.1, rfl⟩ _ _ hexec
    obtain ⟨_, _, hs1⟩ := execTxs_respects det _ _ q' q' ⟨hq'.1, hq'.1, rfl⟩ _ _ hA.run
    exact hs1.1
  · intro block hblock
    obtain ⟨t1, hrunt, hst⟩ := execTxs_respects det block.vtx [] p t hpt _ s1 (hrun block hblock)
    obtain ⟨t2, hcommit, _⟩ := det.commit_ok hst.2.1.2
    refine ⟨t2, bind_ok.mpr ⟨_, t1, hrunt, bind_ok.mpr ⟨(), t2, hcommit, rfl⟩⟩, ?_⟩
    rw [(det.commit_settled hst.2.1.1 hcommit).2, ← hst.2.2]

/-- **The coinbase of the finished block**: behind the output of the casino stand the refunds of its
    transactions and outputs that are no contract outputs. -/
lemma template_coinbase {o : Option CScript}
    (hsel : selectTransactions ctx fuel script w s = .ok r s1)
    (h : createNewBlock ctx fuel script w s = .ok template s')
    (ho : r.originalRewardTx.vout = (coinbaseTemplate ctx script).vout ++ casinoOutputs o) :
    ∃ coinbase extra, template.block.vtx = coinbase :: r.assembler.vtx.tail ∧
      CoinbaseShape ctx script r coinbase (casinoOutputs o) extra ∧
        (∀ g ∈ r.assembler.vRefundGasFee, IsRefund ctx.crypto ctx.E r.assembler.vtx.tail g) ∧
          Plain extra := by
  obtain ⟨_, _, _, coinbase, casino, extra, hvtx, hshape⟩ := template_of_selection hsel h
  obtain rfl : casino = casinoOutputs o := append_cancel_left (hshape.original.symm.trans ho)
  obtain ⟨_, _, _, _, _, hA⟩ := selectTransactions_ok hsel
  refine ⟨coinbase, extra, hvtx, hshape, ?_, ?_⟩
  · rw [hA.vtx, tail_cons]
    exact execTxs_refunds hA.run
  · intro out hout
    obtain ⟨b, rfl⟩ := hshape.commitment out hout
    exact not_isContract_of_find (find_commitmentScript _ b (Or.inl rfl))
      (find_commitmentScript _ b (Or.inr rfl))

/-- **The miner and the validators agree on the root.**  Whatever state with the same root a
    validator starts from, executing the block that was returned ends at the root in its header. -/
theorem createNewBlock_root (hs : det.Ready s) (hscript : hasOpCreate script = false)
    (hscript' : hasOpCall script = false) (h : createNewBlock ctx fuel script w s = .ok template s')
    {n : ℕ} {block : CBlock} (hn : incrementExtraNonce ctx n template.block = .ok block)
    (ht : det.Ready t) (hroot : det.root t = det.root s) :
    ∃ refunds t', getBlockContract ctx.crypto ctx.E block t = .ok (true, refunds) t' ∧
      det.root t' = block.hashStateRoot ∧
      block.hashStateRoot = template.block.hashStateRoot := by
  obtain ⟨r, s1, root, s2, hsel, hrootHash, htemplate, _⟩ := createNewBlock_ok h
  obtain ⟨o, refunds0, _, horig, hready, hrepeat⟩ :=
    getBlockContract_repeats det hs hscript hscript' hsel ht hroot
  obtain ⟨coinbase, extra, hvtx, hshape, hrefunds, hextra⟩ :=
    template_coinbase hsel h horig
  obtain ⟨hheader, coinbase', hvtx', hvout'⟩ := incrementExtraNonce_ok hvtx hn
  obtain ⟨t', hrun, ht'⟩ := hrepeat block
    ⟨coinbase', _, r.assembler.vRefundGasFee ++ extra, hvtx',
      by rw [hvout', hshape.vout, append_assoc], by simp [CTxOut.isContract, hscript, hscript'],
      fun out hout => (mem_append.mp hout).elim (fun hg => (hrefunds out hg).plain) (hextra out)⟩
  have hheaderRoot : template.block.hashStateRoot = det.root s1 := by
    obtain ⟨_, hblock, _⟩ := assembledBlock_eq ctx r root
    rw [det.rootHash_ok hready.2, EStateM.Result.ok.injEq] at hrootHash
    rw [htemplate, hrootHash.1]
    simp only [blockTemplate, hblock]
    rfl
  refine ⟨_, t', hrun, ?_, hheader⟩
  rw [ht', hheader, hheaderRoot]

end Agreement

lemma counting_ready (s : Uint256) : ExecutionDetermined.counting.Ready s := ⟨trivial, trivial⟩

theorem createNewBlock_root_sample : ∃ template s' block refunds t',
      createNewBlock (.small (poolWith gasTx)) 10 [OP_1] true 0#256 = .ok template s' ∧
      incrementExtraNonce (.small (poolWith gasTx)) 1 template.block = .ok block ∧
      getBlockContract Crypto.zeros .counting block 0#256 = .ok (true, refunds) t' ∧
      t' = template.block.hashStateRoot := by
  have hrun : returnsWith (fun template _ =>
      (incrementExtraNonce (.small (poolWith gasTx)) 1 template.block).isOk)
      (createNewBlock (.small (poolWith gasTx)) 10 [OP_1] true 0#256) = true := by decide +kernel
  obtain ⟨template, s', h, hok⟩ := returnsWith_iff.mp hrun
  cases hn : incrementExtraNonce (.small (poolWith gasTx)) 1 template.block with
  | error e => rw [hn] at hok; cases hok
  | ok block =>
    obtain ⟨refunds, t', hexec, hroot, hheader⟩ := createNewBlock_root
      ExecutionDetermined.counting (counting_ready 0#256) (by decide +kernel) (by decide +kernel)
      h hn (counting_ready 0#256) rfl
    exact ⟨template, s', block, refunds, t', h, hn, hexec, hroot.trans hheader⟩

end Ybtc
