import Ybtc.Miner.CasinoCalls

/-!
# The contract in the state

The storage of the genesis contract is a part of the contract state.  It changes when the contract
is called, by a transaction that is sent to it or by a contract that such a transaction runs, and
when somebody creates a contract at its address.
-/

namespace Ybtc

open Stateful

/-! ## Calls that keep the phase -/

namespace Casino

/-- The same phase with the same winners; the register may be another one. -/
structure SamePhases (c c' : Casino) : Prop where
  phaseHeight : c'.phaseHeight = c.phaseHeight
  winners : c'.winners = c.winners
  winnerSeeds : c'.winnerSeeds = c.winnerSeeds

/-- None of the calls sets the winners of the phase that is next. -/
def Silent (c : Casino) (ms : List Message) : Prop :=
  ∀ m ∈ ms, ∀ winnerList, m.call ≠ .setNextWinners c.phaseHeight winnerList

lemma SamePhases.refl (c : Casino) : SamePhases c c := ⟨rfl, rfl, rfl⟩

lemma SamePhases.trans {a b c : Casino} (h : SamePhases a b) (h' : SamePhases b c) :
    SamePhases a c :=
  ⟨h'.phaseHeight.trans h.phaseHeight, h'.winners.trans h.winners,
    h'.winnerSeeds.trans h.winnerSeeds⟩

lemma SamePhases.entryOf {c c' : Casino} (h : SamePhases c c') (phase : U256) (j : ℕ) :
    c'.entryOf phase j = c.entryOf phase j := by
  rw [Casino.entryOf, h.winners]
  rfl

/-- One call that sets no winners of the next phase. -/
lemma perform_samePhases {c : Casino} {m : Message}
    (h : ∀ winnerList, m.call ≠ .setNextWinners c.phaseHeight winnerList) :
    SamePhases c (c.perform m) := by
  obtain ⟨sender, call⟩ := m
  cases call with
  | refill =>
    show SamePhases c (refill sender c).2
    rcases refill_cases sender c with ⟨i, -, hr⟩ | ⟨-, i, -, hr⟩ | ⟨-, hr⟩
    · rw [hr]
      exact ⟨rfl, rfl, rfl⟩
    · rw [hr]
      exact ⟨rfl, rfl, rfl⟩
    · rw [hr]
      exact SamePhases.refl c
  | setNextWinners phase winnerList =>
    rcases perform_setNextWinners c sender phase winnerList with ⟨rfl, _⟩ | ⟨_, hr⟩
    · exact absurd rfl (h winnerList)
    · rw [hr]
      exact SamePhases.refl c

/-- **Silent calls keep the phase.** -/
lemma run_samePhases : ∀ {c : Casino} {ms : List Message}, c.Silent ms → SamePhases c (c.run ms)
  | c, [], _ => SamePhases.refl c
  | c, m :: ms, h => by
    have hm : SamePhases c (c.perform m) := perform_samePhases (h m List.mem_cons_self)
    have hms : (c.perform m).Silent ms := by
      intro m' hm' winnerList
      rw [hm.phaseHeight]
      exact h m' (List.mem_cons_of_mem m hm') winnerList
    exact hm.trans (run_samePhases hms)

/-- A call for the current phase opens the next one. -/
lemma perform_openPhase {c : Casino} (sender : H160) {phase : U256} (winnerList : U256)
    (h : phase = c.phaseHeight) :
    c.perform ⟨sender, .setNextWinners phase winnerList⟩ = c.openPhase winnerList := by
  show ((setNextWinners phase winnerList c).map Prod.snd).getD c = _
  rw [setNextWinners_eq, if_pos h]
  rfl

end Casino

/-! ## The host -/

/-- The transaction creates a contract at the address of the casino. -/
def CreatesCasino (t : ScTransaction) : Prop :=
  t.isCreation = true ∧ t.receiveAddress = h160 genesisContractAddress

/-- The transaction is a call of the casino. -/
def CallsCasino (t : ScTransaction) : Prop :=
  t.isCreation = false ∧ t.receiveAddress = h160 genesisContractAddress

/-- **A contract state with the casino in it.**  `casinoAt` reads its storage from the trie, and
    `calls` are the calls the casino gets while a transaction is executed. -/
structure CasinoHost (E : ContractEngine) extends ExecutionDetermined E where
  /-- `GENESIS_CONTRACT_CODE`. -/
  code : Bytes
  casinoAt : Uint256 → Option Casino
  calls : Uint256 → ScTransaction → List Casino.Message
  /-- The constructor. -/
  execute_create : ∀ {s t res s'}, Settled s → Known s (root s) → CreatesCasino t → t.data = code →
    casinoAt (root s) = none → E.execute t s = .ok res s' →
      casinoAt (root s') = some (Casino.create t.sender)
  /-- Nothing but its own code writes to the storage of the casino. -/
  execute_calls : ∀ {s t res s' cs}, Settled s → Known s (root s) → ¬ CreatesCasino t →
    casinoAt (root s) = some cs → E.execute t s = .ok res s' →
      casinoAt (root s') = some (cs.run (calls (root s) t))
  calls_setNextWinners : ∀ {r t phase winnerList}, CallsCasino t →
    WellFormedCall casinoSetNextWinners [phase, winnerList] t.data →
      calls r t = [⟨t.sender, .setNextWinners phase winnerList⟩]
  output_getTotalPlayer : ∀ {s t res s' cs}, Settled s → Known s (root s) → CallsCasino t →
    t.data = casinoGetTotalPlayer → casinoAt (root s) = some cs → E.execute t s = .ok res s' →
      res.output.length = 32 ∧ fieldWord res.output = cs.getTotalPlayer
  output_getWinnerSeed : ∀ {s t res s' cs phase}, Settled s → Known s (root s) → CallsCasino t →
    WellFormedCall casinoGetWinnerSeed [phase] t.data → casinoAt (root s) = some cs →
      E.execute t s = .ok res s' →
      res.output.length = 32 ∧ fieldWord res.output = cs.getWinnerSeed phase
  /-- Without a value to transfer nothing is thrown before the program runs, and what the program
      throws ends the process. -/
  execute_not_thrown : ∀ {s t e s'}, Settled s → Known s (root s) → t.value = 0 →
    E.execute t s ≠ .error (.thrown e) s'

section Host

variable {E : ContractEngine} (host : CasinoHost E) (crypto : Crypto)

/-- A ready state whose casino has the phases of another one. -/
def KeepsPhases (cs : Casino) (s : E.State) : Prop :=
  host.Ready s ∧ ∃ cs', host.casinoAt (host.root s) = some cs' ∧ Casino.SamePhases cs cs'

/-! ## Quiet transactions -/

/-- **An output that leaves the phase alone**: what it runs neither creates a contract at the
    address of the casino, nor sets the winners of the next phase. -/
def Quiet (s : E.State) (out : CTxOut) : Prop :=
  out.isContract = true → ∀ f cs,
    parseStack (contractFlag out.scriptPubKey) (contractStack crypto out.scriptPubKey) = .ok f →
      host.casinoAt (host.root s) = some cs →
        ¬ CreatesCasino (f.scTransaction (contractFlag out.scriptPubKey)) ∧
          cs.Silent (host.calls (host.root s) (f.scTransaction (contractFlag out.scriptPubKey)))

/-- The outputs of a transaction are quiet when their turn comes. -/
def QuietTx (s : E.State) (tx : CTransaction) : Prop :=
  Along (execOutput crypto E) (Quiet host crypto) tx.vout s

/-- **So are transactions**, one after the other. -/
def QuietTxs (txs : List CTransaction) (s : E.State) : Prop :=
  Along (execTx crypto E) (QuietTx host crypto) txs s

variable {host crypto}

variable {refunds a : List CTxOut} {out : CTxOut} {s s' : E.State} {cs : Casino} {c : CasinoParams}
  {rnd : RandomSource}

lemma execOutput_ready (hs : host.Ready s) (h : execOutput crypto E refunds out s = .ok a s') :
    host.Ready s' := by
  obtain ⟨_, _, halike⟩ := execOutput_respects host.toExecutionDetermined refunds out s s
    ⟨hs, hs, rfl⟩ a s' h
  exact halike.1

/-- A contract output that has returned: its transaction was executed, or an exception was caught
    and nothing has changed. -/
lemma execOutput_contract (hs : host.Ready s) (hout : out.isContract = true)
    (h : execOutput crypto E refunds out s = .ok a s') :
    ∃ f, parseStack (contractFlag out.scriptPubKey) (contractStack crypto out.scriptPubKey) =
        .ok f ∧
      ((∃ res, E.execute (f.scTransaction (contractFlag out.scriptPubKey)) s = .ok res s') ∨
        host.root s' = host.root s ∧
          ∃ e s1, E.execute (f.scTransaction (contractFlag out.scriptPubKey)) s =
            .error (.thrown e) s1) := by
  obtain ⟨f, old, s1, hf, hold, htry⟩ := (execOutput_contract_ok hout).mp h
  rw [host.rootHash_ok hs.2] at hold
  cases hold
  refine ⟨f, hf, ?_⟩
  rcases tryExecute_ok.mp htry with ⟨res, hex, -⟩ | ⟨e, s2, hex, hset, -⟩
  · exact Or.inl ⟨res, hex⟩
  · have hk := known_after_error host.toExecutionDetermined hs.2 hex
    exact Or.inr ⟨(setRoot_atRoot host.toExecutionDetermined hk hset).2, e, s2, hex⟩

/-- One quiet output. -/
lemma execOutput_quiet (hs : KeepsPhases host cs s) (hquiet : Quiet host crypto s out)
    (h : execOutput crypto E refunds out s = .ok a s') : KeepsPhases host cs s' := by
  obtain ⟨hready, cs1, hcs1, hsame⟩ := hs
  by_cases hout : out.isContract = true
  · obtain ⟨f, hf, ⟨res, hex⟩ | ⟨hroot, -⟩⟩ := execOutput_contract hready hout h
    · obtain ⟨hcreate, hsilent⟩ := hquiet hout f cs1 hf hcs1
      exact ⟨execOutput_ready hready h, _, host.execute_calls hready.1 hready.2 hcreate hcs1 hex,
        hsame.trans (Casino.run_samePhases hsilent)⟩
    · exact ⟨execOutput_ready hready h, cs1, by rw [hroot, hcs1], hsame⟩
  · rw [execOutput, if_neg hout] at h
    cases h
    exact ⟨hready, cs1, hcs1, hsame⟩

/-- One quiet transaction. -/
lemma execTx_quiet {tx : CTransaction} (hs : KeepsPhases host cs s)
    (hquiet : QuietTx host crypto s tx) (h : execTx crypto E refunds tx s = .ok a s') :
    KeepsPhases host cs s' := by
  unfold execTx at h
  split_ifs at h
  · obtain ⟨old, s1, hold, hrest⟩ := bind_ok.mp h
    rw [host.rootHash_ok hs.1.2] at hold
    cases hold
    exact Along.foldlM (fun out => execOutput_appends out)
      (fun _ _ _ _ _ hP hgood hrun => execOutput_quiet hP hgood hrun) tx.vout hs hquiet hrest
  · cases h
    exact hs

/-- **Quiet transactions keep the phase and its winners.** -/
lemma execTxs_quiet {txs : List CTransaction} (hs : KeepsPhases host cs s)
    (hquiet : QuietTxs host crypto txs s) (h : txs.foldlM (execTx crypto E) refunds s = .ok a s') :
    KeepsPhases host cs s' :=
  Along.foldlM (fun tx => execTx_appends tx)
    (fun _ _ _ _ _ hP hgood hrun => execTx_quiet hP hgood hrun) txs hs hquiet h

/-! ## What the miner asks -/

/-- The number that is cut out of a word. -/
lemma outputNumber_word {output : Bytes} (h : output.length = 32) :
    outputNumber output = (fieldWord output).toNat % 65536 := by
  have hlen : (output.drop 30).length = 2 := by rw [List.length_drop, h]
  have hsplit := readBE_append (output.take 30) (output.drop 30)
  rw [List.take_append_drop, hlen] at hsplit
  have hlt : outputNumber output < 2 ^ 16 := outputNumber_lt output
  rw [outputNumber, List.take_of_length_le hlen.le] at hlt ⊢
  rw [fieldWord, BitVec.toNat_ofNat, hsplit]
  omega

/-- A query that returns has executed its call, and reads the output. -/
lemma casinoQuery_ok {data : Bytes} {n : ℕ} (hs : host.Ready s)
    (h : casinoQuery E c data s = .ok n s') :
    host.Ready s' ∧ host.root s' = host.root s ∧
      ∃ res s1, E.execute (queryTransaction c (h160 genesisContractAddress) data) s = .ok res s1 ∧
        n = outputNumber res.output := by
  obtain ⟨hready, hroot⟩ := casinoQuery_atRoot host.toExecutionDetermined ⟨hs, rfl⟩ h
  refine ⟨hready, hroot, ?_⟩
  obtain ⟨res, s1, hcall, hlift⟩ := bind_ok.mp h
  obtain ⟨hconvert, rfl⟩ := liftExcept_apply_ok.mp hlift
  obtain ⟨old, s2, hold, -, hex⟩ := callContract_ok hcall
  rw [host.rootHash_ok hs.2] at hold
  cases hold
  obtain ⟨res1, s3, hex, rfl⟩ | ⟨e, s3, hex⟩ := hex
  · refine ⟨res1, s3, hex, ?_⟩
    unfold convertHexStringToUnsignedInt at hconvert
    split_ifs at hconvert
    exact (Except.ok.inj hconvert).symm
  · exact absurd hex (host.execute_not_thrown hs.1 hs.2 rfl)

/-- **The list the miner draws** at the end of a phase: from so many players as have tokens, with
    the seed of the phase before. -/
def Casino.nextList (rnd : RandomSource) (cs : Casino) (phase : ℕ) : List ℕ :=
  Ybtc.generateCasinoList rnd Ybtc.chainPhasePlayer
    (playersOr (cs.getTotalPlayer.toNat % 65536))
    ((cs.getWinnerSeed (BitVec.ofNat 256 (phase - 1))).toNat % 65536)

/-- The call the miner makes at the end of a phase, from the storage of the contract. -/
lemma casinoScript_call (hc : c.Genuine rnd) {nHeight : ℕ} (hheight : CasinoHeight nHeight)
    {o : Option CScript} {p : E.State} (hs : host.Ready s)
    (h : casinoScript E c nHeight s = .ok o p) :
    phaseOf nHeight < 2 ^ 16 ∧ ∃ data, o = some (casinoCallScript c data) ∧ data.length = 68 ∧
      ∀ cs, host.casinoAt (host.root s) = some cs → WellFormedCall casinoSetNextWinners
        [BitVec.ofNat 256 (phaseOf nHeight), winnersWord (cs.nextList rnd (phaseOf nHeight))]
        data := by
  rw [casinoScript_of_height hheight] at h
  obtain ⟨script, s0, hscript, hend⟩ := bind_ok.mp h
  cases hend
  obtain ⟨total, s1, htotal, h1⟩ := bind_ok.mp hscript
  obtain ⟨digits, hdigits, h2⟩ := liftExcept_bind_ok.mp h1
  obtain ⟨seed, s2, hseed, h3⟩ := bind_ok.mp h2
  obtain ⟨data, hdata, h4⟩ := liftExcept_bind_ok.mp h3
  cases h4
  obtain ⟨hs1, hroot1, res, _, hex, rfl⟩ := casinoQuery_ok hs htotal
  obtain ⟨hs2, hroot2, res', _, hex', rfl⟩ := casinoQuery_ok hs1 hseed
  have hphase : phaseOf nHeight < 2 ^ 16 := by
    by_contra hbig
    rw [setWinnersData, convertUnsignedIntToHexString, if_neg (by exact hbig)] at hdata
    cases hdata
  have hfits : convertUnsignedIntToHexString (phaseOf nHeight - 1) = _ :=
    convertUnsignedIntToHexString_of_lt (by omega)
  cases hdigits.symm.trans hfits
  obtain ⟨w0, w1, hw, h0, h1⟩ := drawnWinners_pair hc res.output res'.output
  obtain ⟨data', hdata', hlen, hwell⟩ := setWinnersData_wellFormed hphase h0 h1
  rw [← hw] at hdata' hwell
  cases hdata.symm.trans hdata'
  refine ⟨hphase, data, rfl, hlen, fun cs hcs => ?_⟩
  obtain ⟨hlen1, hword1⟩ := host.output_getTotalPlayer hs.1 hs.2 ⟨rfl, rfl⟩ rfl hcs hex
  obtain ⟨hlen2, hword2⟩ := host.output_getWinnerSeed hs1.1 hs1.2 ⟨rfl, rfl⟩
    (phaseCall_wellFormed casinoGetWinnerSeed (show phaseOf nHeight - 1 < 2 ^ 16 by omega))
    (by rw [hroot1, hcs]) hex'
  have hlist : drawnWinners c res.output res'.output = cs.nextList rnd (phaseOf nHeight) := by
    rw [drawnWinners, hc.lottery, outputNumber_word hlen1, outputNumber_word hlen2, hword1, hword2]
    rfl
  rwa [hlist] at hwell

/-- There is no output at the other heights. -/
lemma casinoScript_other {nHeight : ℕ} (hone : nHeight ≠ 1) (hheight : ¬ CasinoHeight nHeight)
    (s : E.State) : casinoScript E c nHeight s = .ok none s := by
  rw [casinoScript, if_neg hone]
  exact congrFun (if_neg hheight) s

/-! ## What the output of the casino does -/

/-- A casino output that has returned was executed. -/
lemma execOutput_casino {script : CScript} {flag : SmartContractFlag} {f : ContractFields}
    (hflag : contractFlag script = flag)
    (hparse : parseStack flag (contractStack crypto script) = .ok f)
    (hcontract : (⟨0, script⟩ : CTxOut).isContract = true) (hvalue : f.value = 0)
    (hs : host.Ready s)
    (h : (casinoOutputs (some script)).foldlM (execOutput crypto E) [] s = .ok a s') :
    host.Ready s' ∧ ∃ res, E.execute (f.scTransaction flag) s = .ok res s' := by
  have hone : (casinoOutputs (some script)).foldlM (execOutput crypto E) [] =
      execOutput crypto E [] ⟨0, script⟩ := bind_pure _
  rw [hone] at h
  obtain ⟨f', hf', hrun⟩ := execOutput_contract hs hcontract h
  rw [hflag] at hf' hrun
  cases hparse.symm.trans hf'
  refine ⟨execOutput_ready hs h, ?_⟩
  rcases hrun with hok | ⟨-, e, s1, hthrown⟩
  · exact hok
  · exact absurd hthrown (host.execute_not_thrown hs.1 hs.2 hvalue)

/-- **The first block creates the contract.** -/
lemma casinoOutputs_create (hc : c.Genuine rnd) (hcode : c.genesisContractCode = host.code)
    (hs : host.Ready s) (hnone : host.casinoAt (host.root s) = none)
    (h : (casinoOutputs (some (casinoCreateScript c))).foldlM (execOutput crypto E) [] s =
      .ok a s') :
    KeepsPhases host (Casino.create (h160 c.minerAddress)) s' := by
  obtain ⟨hflag, hparse, hcontract⟩ := casinoCreateScript_fields crypto hc.address hc.code
  obtain ⟨hready, res, hex⟩ := execOutput_casino hflag hparse hcontract rfl hs h
  exact ⟨hready, _, host.execute_create hs.1 hs.2 ⟨rfl, rfl⟩ hcode hnone hex,
    Casino.SamePhases.refl _⟩

/-- **The call opens the next phase**, if it names the current one. -/
lemma casinoOutputs_call (hc : c.Genuine rnd) {data : Bytes} (hlen : data.length = 68)
    {phase winnerList : U256} (hwell : WellFormedCall casinoSetNextWinners [phase, winnerList] data)
    (hs : host.Ready s) (hcs : host.casinoAt (host.root s) = some cs)
    (hphase : phase = cs.phaseHeight)
    (h : (casinoOutputs (some (casinoCallScript c data))).foldlM (execOutput crypto E) [] s =
      .ok a s') :
    KeepsPhases host (cs.openPhase winnerList) s' := by
  obtain ⟨hflag, hparse, hcontract⟩ := casinoCallScript_fields crypto hc.address
    (show data.length ≤ 100000 by omega)
  obtain ⟨hready, res, hex⟩ := execOutput_casino hflag hparse hcontract rfl hs h
  have hcalls := host.calls_setNextWinners (r := host.root s)
    (t := (casinoFields c data).scTransaction .isMessageCall) ⟨rfl, rfl⟩ hwell
  refine ⟨hready, cs.openPhase winnerList, ?_, Casino.SamePhases.refl _⟩
  rw [host.execute_calls hs.1 hs.2 (by rintro ⟨hcreation, -⟩; cases hcreation) hcs hex, hcalls]
  exact congrArg some (Casino.perform_openPhase (h160 c.minerAddress) winnerList hphase)

end Host

end Ybtc
