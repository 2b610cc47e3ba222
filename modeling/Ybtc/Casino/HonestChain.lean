import Ybtc.Casino.Host

/-!
# Chains of honest blocks

An honest miner puts the output of `AddCasinoToCoinBaseTx` into the coinbase, and no other contract
output.  The transactions behind the coinbase are arbitrary.  The contract counts its phases by the
calls of `setNextWinners`, the miner counts them by the height; nothing but the good behaviour of
all others keeps these two numbers together, because everybody may make that call.  The main result
is `honest_chain_aligned`.
-/

namespace Ybtc

open BitVec (ofNat)

open Stateful List Casino CasinoParams

/-- A block of a chain, between the contract states before and behind it. -/
structure Link (E : ContractEngine) where
  nHeight : ℕ
  before : E.State
  block : CBlock
  after : E.State

section Chain

variable {E : ContractEngine} (host : CasinoHost E) (crypto : Crypto) (rnd : RandomSource)

/-! ## Chains -/

/-- The state behind a block is one that its execution leads to. -/
def Link.Executes (l : Link E) : Prop :=
  ∃ refunds t, getBlockContract crypto E l.block l.before = .ok (true, refunds) t ∧
    host.Alike t l.after

/-- **A chain**, newest block first, from a state without the contract. -/
inductive Linked : List (Link E) → E.State → Prop
  | genesis {s : E.State} : host.Ready s → host.casinoAt (host.root s) = none → Linked [] s
  | block {ls : List (Link E)} {l : Link E} : Linked ls l.before → l.nHeight = ls.length + 1 →
      l.Executes host crypto → Linked (l :: ls) l.after

/-- **An honest block**: its coinbase has the output that `AddCasinoToCoinBaseTx` makes at this
    state, and otherwise no contract outputs. -/
def HonestBlock (c : CasinoParams) (nHeight : ℕ) (s : E.State) (block : CBlock) : Prop :=
  ∃ coinbase users out o p rest, block.vtx = coinbase :: users ∧
    casinoScript E c nHeight s = .ok o p ∧ coinbase.vout = out :: (casinoOutputs o ++ rest) ∧
    out.isContract = false ∧ Plain rest

/-- An honest block of some miner. -/
def HonestLink (l : Link E) : Prop :=
  ∃ c : CasinoParams, c.Genuine rnd ∧ c.genesisContractCode = host.code ∧
    HonestBlock c l.nHeight l.before l.block

/-- **The transactions behind the coinbase leave the phase alone.** -/
def QuietLink (l : Link E) : Prop :=
  ∀ coinbase users, l.block.vtx = coinbase :: users → ∀ refunds s₁,
    execTx crypto E [] coinbase l.before = .ok refunds s₁ → QuietTxs host crypto users s₁

variable {host crypto rnd}

/-! ## One block -/

variable {l : Link E}

section

variable (hhonest : HonestLink host rnd l) (hquiet : QuietLink host crypto l)
  (hex : l.Executes host crypto) (hready : host.Ready l.before)

include hhonest hquiet hex hready

/-- **An honest block with quiet transactions**: what the casino output has done is what the block
    has done to the phases. -/
lemma link_effect : ∃ (c : CasinoParams) (o : Option CScript) (p s1 : E.State) (a : List CTxOut),
      c.Genuine rnd ∧ c.genesisContractCode = host.code ∧
      casinoScript E c l.nHeight l.before = .ok o p ∧
      (casinoOutputs o).foldlM (execOutput crypto E) [] l.before = .ok a s1 ∧
      ∀ cs, KeepsPhases host cs s1 → KeepsPhases host cs l.after := by
  obtain ⟨c, hc, hcode, coinbase, users, out, o, p, rest, hvtx, hscript, hvout, hout, hrest⟩ :=
    hhonest
  obtain ⟨refunds, t, hrun, -, hafter, hroot⟩ := hex
  obtain ⟨v, t1, hfold, hcommit⟩ := bind_ok.mp hrun
  obtain ⟨_, t2, hcommit, hend⟩ := bind_ok.mp hcommit
  cases hend
  rw [hvtx, foldlM_cons] at hfold
  obtain ⟨a, s1, hcoinbase, husers⟩ := bind_ok.mp hfold
  refine ⟨c, o, p, s1, a, hc, hcode, hscript,
    (execTx_coinbase host.toExecutionDetermined hready hout hrest hvout).symm.trans hcoinbase,
    fun cs hcs => ?_⟩
  obtain ⟨ht1, cs', hcs', hsame⟩ :=
    execTxs_quiet hcs (hquiet coinbase users hvtx a s1 hcoinbase) husers
  refine ⟨hafter, cs', ?_, hsame⟩
  rw [← hroot, (host.commit_settled ht1.1 hcommit).2, hcs']

/-- The first block. -/
lemma link_first (hone : l.nHeight = 1) (hnone : host.casinoAt (host.root l.before) = none) :
    ∃ sender, KeepsPhases host (create sender) l.after := by
  obtain ⟨c, o, p, s1, a, hc, hcode, hscript, hrun, hafter⟩ := link_effect hhonest hquiet hex hready
  have hcreate : casinoScript E c l.nHeight l.before =
      .ok (some (casinoCreateScript c)) l.before := by
    rw [casinoScript, if_pos hone]
    rfl
  rw [hcreate] at hscript
  cases hscript
  exact ⟨_, hafter _ (casinoOutputs_create hc hcode hready hnone hrun)⟩

/-- The last block of a phase. -/
lemma link_casino (hheight : CasinoHeight l.nHeight)
    {cs : Casino} (hcs : host.casinoAt (host.root l.before) = some cs)
    (hphase : ofNat 256 (phaseOf l.nHeight) = cs.phaseHeight) :
    phaseOf l.nHeight < 2 ^ 16 ∧
      KeepsPhases host (cs.openPhase (winnersWord (cs.nextList rnd (phaseOf l.nHeight))))
        l.after := by
  obtain ⟨c, o, p, s1, a, hc, -, hscript, hrun, hafter⟩ := link_effect hhonest hquiet hex hready
  obtain ⟨hlt, data, rfl, hlen, hwell⟩ := casinoScript_call hc hheight hready hscript
  exact ⟨hlt, hafter _ (casinoOutputs_call hc hlen (hwell cs hcs) hready hcs hphase hrun)⟩

/-- Any other block. -/
lemma link_other (hone : l.nHeight ≠ 1) (hheight : ¬ CasinoHeight l.nHeight) {cs : Casino}
    (hcs : host.casinoAt (host.root l.before) = some cs) : KeepsPhases host cs l.after := by
  obtain ⟨c, o, p, s1, a, -, -, hscript, hrun, hafter⟩ := link_effect hhonest hquiet hex hready
  rw [casinoScript_other hone hheight] at hscript
  cases hscript
  cases hrun
  exact hafter cs ⟨hready, cs, hcs, Casino.SamePhases.refl cs⟩

end

/-! ## The contract along a chain -/

variable (host rnd)

/-- The entries of a phase are those that the call of the miner has left, with the list computed
    from the contract before the last block of the phase before. -/
def KeepsEntries (ls : List (Link E)) (cs : Casino) (p : ℕ) : Prop :=
  ∃ l ∈ ls, l.nHeight = chainPhaseSize * p ∧
    ∃ cs₀, host.casinoAt (host.root l.before) = some cs₀ ∧ cs₀.phaseHeight + 1 = ofNat 256 p ∧
      ∀ j < chainPhasePlayer, cs.entryOf (ofNat 256 p) j =
        (cs₀.openPhase (winnersWord (cs₀.nextList rnd (p - 1)))).entryOf (ofNat 256 p) j

/-- The phases the ring still has after so many blocks. -/
def InBuffer (n p : ℕ) : Prop :=
  1 ≤ p ∧ p ≤ n / chainPhaseSize ∧ n / chainPhaseSize < p + winnerBufferSize

instance inBufferDecidable (n p : ℕ) : Decidable (InBuffer n p) := instDecidableAnd

/-- The contract after a chain: its phase is that of the height, for which a call has sixteen bits,
    and it keeps the entries of all phases for which it has room. -/
structure AlignedCasino (ls : List (Link E)) (cs : Casino) : Prop where
  bound : ls.length / chainPhaseSize ≤ 2 ^ 16
  phase : cs.phaseHeight = ofNat 256 (ls.length / chainPhaseSize)
  winners : ∀ p, InBuffer ls.length p → KeepsEntries host rnd ls cs p

/-- The state after a chain. -/
structure AlignedState (ls : List (Link E)) (s : E.State) : Prop where
  ready : host.Ready s
  start : ls = [] → host.casinoAt (host.root s) = none
  casino : ls ≠ [] → ∃ cs, host.casinoAt (host.root s) = some cs ∧ AlignedCasino host rnd ls cs

variable {host rnd}

/-! The arithmetic of heights and phases. -/

variable {n : ℕ} {ls : List (Link E)} {cs cs' : Casino} {l : Link E}

lemma phaseOf_succ (n : ℕ) : phaseOf (n + 1) = n / chainPhaseSize := by
  rw [phaseOf, Nat.add_sub_cancel]

/-- The last block of a phase. -/
lemma CasinoHeight.div (h : CasinoHeight (n + 1)) :
    (n + 1) / chainPhaseSize = n / chainPhaseSize + 1 ∧
      n + 1 = chainPhaseSize * (n / chainPhaseSize + 1) := by
  obtain ⟨-, h⟩ := h
  simp only [Nat.add_sub_cancel, chainPhaseSize] at h ⊢
  omega

/-- Any other block. -/
lemma div_of_not_casinoHeight (h : ¬ CasinoHeight (n + 1)) :
    (n + 1) / chainPhaseSize = n / chainPhaseSize := by
  simp only [CasinoHeight, Nat.add_sub_cancel, chainPhaseSize] at h ⊢
  omega

lemma ofNat_succ (n : ℕ) : ofNat 256 n + 1 = ofNat 256 (n + 1) := by
  apply BitVec.eq_of_toNat_eq
  simp [BitVec.toNat_add]

lemma phaseIndex_ofNat (p : ℕ) : (phaseIndex (ofNat 256 p) : ℕ) = p % 128 := by
  rw [phaseIndex, Fin.val_ofNat, BitVec.toNat_ofNat]
  exact Nat.mod_mod_of_dvd p (by decide)

/-- A phase that is kept has another place in the ring than the one that is opened. -/
lemma InBuffer.phaseIndex_ne {p : ℕ} (h : InBuffer n p)
    (hroom : n / chainPhaseSize + 1 < p + winnerBufferSize) :
    phaseIndex (ofNat 256 p) ≠ phaseIndex (ofNat 256 (n / chainPhaseSize) + 1) := by
  intro heq
  have hval := congrArg Fin.val heq
  rw [ofNat_succ, phaseIndex_ofNat, phaseIndex_ofNat] at hval
  obtain ⟨-, hle, -⟩ := h
  simp only [winnerBufferSize] at hroom
  omega

/-- They are kept by a longer chain, if the entries have not changed. -/
lemma KeepsEntries.cons {p : ℕ} (h : KeepsEntries host rnd ls cs p) (l : Link E)
    (hentry : ∀ j < chainPhasePlayer, cs'.entryOf (ofNat 256 p) j = cs.entryOf (ofNat 256 p) j) :
    KeepsEntries host rnd (l :: ls) cs' p := by
  obtain ⟨l', hl', hheight, cs0, hcs0, hphase, hold⟩ := h
  exact ⟨l', mem_cons_of_mem l hl', hheight, cs0, hcs0, hphase,
    fun j hj => (hentry j hj).trans (hold j hj)⟩

/-- The first block: a contract in phase 0. -/
lemma aligned_first {sender : H160} (hsame : Casino.SamePhases (create sender) cs) :
    AlignedCasino host rnd [l] cs where
  bound := by
    rw [length_singleton]
    decide
  phase := by
    rw [hsame.phaseHeight, length_singleton, show 1 / chainPhaseSize = 0 by decide]
    rfl
  winners := by
    rintro p ⟨hp, hle, -⟩
    simp only [length_singleton, chainPhaseSize] at hle
    omega

/-- A block inside a phase. -/
lemma aligned_other (h : AlignedCasino host rnd ls cs) (hsame : Casino.SamePhases cs cs')
    (hheight : ¬ CasinoHeight (ls.length + 1)) : AlignedCasino host rnd (l :: ls) cs' where
  bound := by
    rw [length_cons, div_of_not_casinoHeight hheight]
    exact h.bound
  phase := by
    rw [hsame.phaseHeight, h.phase, length_cons, div_of_not_casinoHeight hheight]
  winners := by
    rintro p ⟨hp, hle, hroom⟩
    rw [length_cons, div_of_not_casinoHeight hheight] at hle hroom
    exact (h.winners p ⟨hp, hle, hroom⟩).cons l fun j _ => hsame.entryOf _ j

/-- The last block of a phase. -/
lemma aligned_casino (h : AlignedCasino host rnd ls cs)
    (hcs : host.casinoAt (host.root l.before) = some cs) (hl : l.nHeight = ls.length + 1)
    (hheight : CasinoHeight (ls.length + 1)) (hlt : ls.length / chainPhaseSize < 2 ^ 16)
    (hsame : Casino.SamePhases
      (cs.openPhase (winnersWord (cs.nextList rnd (ls.length / chainPhaseSize)))) cs') :
    AlignedCasino host rnd (l :: ls) cs' where
  bound := by
    rw [length_cons, hheight.div.1]
    exact hlt
  phase := by
    rw [hsame.phaseHeight, openPhase_phaseHeight, h.phase, ofNat_succ, length_cons, hheight.div.1]
  winners := by
    rintro p ⟨hp, hle, hroom⟩
    rw [length_cons, hheight.div.1] at hle hroom
    rcases Nat.lt_or_ge (ls.length / chainPhaseSize) p with hlt | hge
    · -- the phase that was just opened
      obtain rfl : p = ls.length / chainPhaseSize + 1 := by omega
      exact ⟨l, mem_cons_self, hl.trans hheight.div.2, cs, hcs, by rw [h.phase, ofNat_succ],
        fun j _ => hsame.entryOf _ j⟩
    · -- an older one, whose entries are not touched
      have hbuffer : InBuffer ls.length p := ⟨hp, hge, by omega⟩
      refine (h.winners p hbuffer).cons l fun j hj => ?_
      rw [hsame.entryOf, openPhase_entryOf hj, if_neg]
      rw [h.phase]
      exact hbuffer.phaseIndex_ne hroom

/-- **The contract along a chain of honest blocks with quiet transactions**: its phase, and the
    entries of all phases it still has. -/
lemma linked_aligned {s : E.State} (h : Linked host crypto ls s)
    (hgood : ∀ l ∈ ls, HonestLink host rnd l ∧ QuietLink host crypto l) :
    AlignedState host rnd ls s := by
  induction h with
  | genesis hready hnone => exact ⟨hready, fun _ => hnone, fun hne => absurd rfl hne⟩
  | @block ls l hlinked hl hex ih =>
    obtain ⟨hhonest, hquiet⟩ := hgood l mem_cons_self
    have ih := ih fun l' hl' => hgood l' (mem_cons_of_mem l hl')
    have hafter : host.Ready l.after := by
      obtain ⟨_, _, _, halike⟩ := hex
      exact halike.2.1
    refine ⟨hafter, fun hnil => absurd hnil (by simp), fun _ => ?_⟩
    rcases eq_nil_or_concat ls with rfl | ⟨_, _, hls⟩
    · obtain ⟨sender, -, cs, hcs, hsame⟩ := link_first hhonest hquiet hex ih.ready hl (ih.start rfl)
      exact ⟨cs, hcs, aligned_first hsame⟩
    have hne : ls ≠ [] := by simp [hls]
    have hlen : ls.length ≠ 0 := by simpa using hne
    obtain ⟨cs, hcs, haligned⟩ := ih.casino hne
    by_cases hheight : CasinoHeight (ls.length + 1)
    · have hphase : phaseOf l.nHeight = ls.length / chainPhaseSize := by rw [hl, phaseOf_succ]
      obtain ⟨hlt, -, cs', hcs', hsame⟩ := link_casino hhonest hquiet hex ih.ready (hl ▸ hheight)
        hcs (by rw [hphase, haligned.phase])
      rw [hphase] at hlt hsame
      exact ⟨cs', hcs', aligned_casino haligned hcs hl hheight hlt hsame⟩
    · obtain ⟨-, cs', hcs', hsame⟩ := link_other hhonest hquiet hex ih.ready (by omega)
        (hl ▸ hheight) hcs
      exact ⟨cs', hcs', aligned_other haligned hsame hheight⟩

/-! ## The phase of the contract and the phase of the height -/

variable (host) in
/-- What is expected of a block: at the end of a phase the contract is in the phase of the height
    before the block is executed, so that the call of the miner is not reverted, and at all other
    heights the phase of the contract stays. -/
structure PhaseStep (l : Link E) : Prop where
  aligned : CasinoHeight l.nHeight → ∃ cs, host.casinoAt (host.root l.before) = some cs ∧
    cs.phaseHeight = ofNat 256 (phaseOf l.nHeight) ∧
    ∀ winnerList,
      (cs.setNextWinners (ofNat 256 (phaseOf l.nHeight)) winnerList).isSome = true
  unchanged : ¬ CasinoHeight l.nHeight → l.nHeight ≠ 1 →
    (host.casinoAt (host.root l.after)).map phaseHeight =
      (host.casinoAt (host.root l.before)).map phaseHeight

/-- One block on top of a chain. -/
lemma phaseStep_of_aligned (h : AlignedState host rnd ls l.before) (hl : l.nHeight = ls.length + 1)
    (hex : l.Executes host crypto) (hhonest : HonestLink host rnd l)
    (hquiet : QuietLink host crypto l) : PhaseStep host l := by
  constructor
  · intro hheight
    have hne : ls ≠ [] := by
      rintro rfl
      have := hheight.1
      simp only [hl, length_nil] at this
      omega
    obtain ⟨cs, hcs, haligned⟩ := h.casino hne
    have hphase : cs.phaseHeight = ofNat 256 (phaseOf l.nHeight) := by
      rw [haligned.phase, hl, phaseOf_succ]
    refine ⟨cs, hcs, hphase, fun winnerList => ?_⟩
    rw [setNextWinners_eq, if_pos hphase.symm]
    rfl
  · intro hheight hone
    have hne : ls ≠ [] := by
      rintro rfl
      exact hone hl
    obtain ⟨cs, hcs, -⟩ := h.casino hne
    obtain ⟨-, cs', hcs', hsame⟩ := link_other hhonest hquiet hex h.ready hone hheight hcs
    rw [hcs, hcs', Option.map_some, Option.map_some, hsame.phaseHeight]

/-- **The phase of the contract follows the height** in every chain of honest blocks whose other
    transactions neither set the winners of the next phase nor create a contract at the address of
    the casino. -/
theorem honest_chain_aligned {ls : List (Link E)} {s : E.State} (h : Linked host crypto ls s)
    (hhonest : ∀ l ∈ ls, HonestLink host rnd l) (hquiet : ∀ l ∈ ls, QuietLink host crypto l) :
    ∀ l ∈ ls, PhaseStep host l := by
  induction h with
  | genesis => exact fun _ h => absurd h not_mem_nil
  | @block ls l hlinked hl hex ih =>
    rw [forall_mem_cons] at hhonest hquiet
    have haligned : AlignedState host rnd ls l.before :=
      linked_aligned hlinked fun l' hl' => ⟨hhonest.2 l' hl', hquiet.2 l' hl'⟩
    rw [forall_mem_cons]
    exact ⟨phaseStep_of_aligned haligned hl hex hhonest.1 hquiet.1, ih hhonest.2 hquiet.2⟩

end Chain

/-! ## The miner -/

/-- **The blocks of the miner are honest**, if it is paid to a script without contract opcodes.
    Behind its own output and that of the casino stand the refunds of the transactions of the block,
    and the witness commitment where the block gets one; none of these is a contract output. -/
theorem createNewBlock_honest {ctx : MinerContext} (det : ExecutionDetermined ctx.E)
    {s s' : ctx.E.State} {fuel : ℕ} {script : CScript} {w : Bool} {template : CBlockTemplate}
    (hs : det.Ready s) (hscript : hasOpCreate script = false) (hscript' : hasOpCall script = false)
    (h : createNewBlock ctx fuel script w s = .ok template s') :
    HonestBlock ctx.casino ctx.nHeight s template.block ∧
    ∃ r s₁, selectTransactions ctx fuel script w s = .ok r s₁ ∧
      ∃ coinbase users nValue o p extra, template.block.vtx = coinbase :: users ∧
        casinoScript ctx.E ctx.casino ctx.nHeight s = .ok o p ∧
        coinbase.vout
          = ⟨nValue, script⟩ :: (casinoOutputs o ++ r.assembler.vRefundGasFee ++ extra) ∧
        (∀ g ∈ r.assembler.vRefundGasFee, IsRefund ctx.crypto ctx.E users g) ∧
        extra.length = (if commits ctx r then 1 else 0) ∧
        (∀ out ∈ extra, ∃ block, out = ⟨0, commitmentScript ctx.chain.H block⟩) ∧
        Plain (⟨nValue, script⟩ :: (r.assembler.vRefundGasFee ++ extra)) := by
  obtain ⟨r, s₁, root, s2, hsel, -⟩ := createNewBlock_ok h
  obtain ⟨o, refunds0, ⟨p, -, hquery, -⟩, horig, -⟩ :=
    getBlockContract_repeats det hs hscript hscript' hsel hs rfl
  obtain ⟨coinbase, extra, hvtx, hshape, hrefunds, hextra⟩ := template_coinbase hsel h horig
  have hminer : CTxOut.isContract ⟨minerValue ctx r.assembler, script⟩ = false := by
    simp [CTxOut.isContract, hscript, hscript']
  have hrest : Plain (r.assembler.vRefundGasFee ++ extra) := fun out hout =>
    (mem_append.mp hout).elim (fun hg => (hrefunds out hg).plain) (hextra out)
  refine ⟨⟨coinbase, _, _, o, p, _, hvtx, hquery, ?_, hminer, hrest⟩, r, s₁, hsel,
    coinbase, _, _, o,
    p, extra, hvtx, hquery, hshape.vout, hrefunds, hshape.extra_length, hshape.commitment, ?_⟩
  · rw [hshape.vout, append_assoc]
  · exact forall_mem_cons.mpr ⟨hminer, hrest⟩

/-- A block with a contract transaction. -/
theorem createNewBlock_honest_sample : ∃ template s' r s₁ coinbase users,
    createNewBlock (.small (poolWith gasTx)) 10 [OP_1] true 0#256 = .ok template s' ∧
    selectTransactions (.small (poolWith gasTx)) 10 [OP_1] true 0#256 = .ok r s₁ ∧
      template.block.vtx = coinbase :: users ∧ r.assembler.vRefundGasFee <+ coinbase.vout ∧
      ∀ g ∈ r.assembler.vRefundGasFee,
        IsRefund (MinerContext.small (poolWith gasTx)).crypto .counting users g := by
  obtain ⟨template, s', h, _⟩ := gasTx_created
  obtain ⟨-, r, s₁, hsel, coinbase, users, _, _, _, extra, hvtx, -, hvout, hrefunds, -⟩ :=
    createNewBlock_honest .counting (counting_ready 0#256) (by decide +kernel) (by decide +kernel) h
  refine ⟨template, s', r, s₁, coinbase, users, h, hsel, hvtx, ?_, hrefunds⟩
  rw [hvout, append_assoc]
  exact .cons _ (sublist_append_of_sublist_right (sublist_append_left _ _))

/-! ## A small host

A contract state with three kinds of roots: no contract, the contract as it was created, and the
contract after the first call of `setNextWinners`, with the list in the root. -/

namespace SmallHost

/-- The creator. -/
def creator : H160 := h160 ones.minerAddress

/-- Where the roots behind a call begin. -/
def calledRoot : ℕ := 2 ^ 32

/-- The storage at a root. -/
def casinoAt (r : Uint256) : Option Casino :=
  if r = 1 then some (create creator)
  else if calledRoot ≤ r.toNat ∧ r.toNat < 2 * calledRoot then
    some ((create creator).openPhase (ofNat 256 (r.toNat - calledRoot)))
  else none

/-- The words of a call of `setNextWinners`. -/
def phaseWord (data : Bytes) : U256 := fieldWord ((data.drop 4).take 32)

def listWord (data : Bytes) : U256 := fieldWord (data.drop 36)

/-- A call of the contract as it was created. -/
def call (data : Bytes) : EStateM Fault Uint256 ExecutionResult :=
  if data = casinoGetTotalPlayer then
    pure { ExecutionResult.initial with output := List.replicate 31 0 ++ [1] }
  else if data.take 4 = casinoGetWinnerSeed then
    pure { ExecutionResult.initial with output := List.replicate 32 0 }
  else if data.take 4 = casinoSetNextWinners ∧ phaseWord data = 0 ∧
      (listWord data).toNat < calledRoot then do
    set (ofNat 256 (calledRoot + (listWord data).toNat))
    pure ExecutionResult.initial
  else throw .exit

instance createsCasinoDecidable (t : ScTransaction) : Decidable (CreatesCasino t) :=
  instDecidableAnd

instance callsCasinoDecidable (t : ScTransaction) : Decidable (CallsCasino t) := instDecidableAnd

def execute (t : ScTransaction) : EStateM Fault Uint256 ExecutionResult := fun s =>
  if CreatesCasino t ∧ t.data = ones.genesisContractCode ∧ t.sender = creator ∧
      s = 0 then
    .ok .initial 1
  else if CallsCasino t ∧ s = 1 then call t.data s
  else .error .exit s

abbrev engine : ContractEngine := .ofExecute execute

def calls (t : ScTransaction) : List Casino.Message :=
  if CallsCasino t ∧ t.data.take 4 = casinoSetNextWinners then
    [⟨t.sender, .setNextWinners (phaseWord t.data) (listWord t.data)⟩]
  else []

/-- How an execution can end well. -/
inductive Ran (t : ScTransaction) (s : Uint256) (res : ExecutionResult) (s' : Uint256) : Prop
  | created (h : CreatesCasino t) (hsender : t.sender = creator) (hs : s = 0) (hs' : s' = 1)
  | total (h : CallsCasino t) (hs : s = 1) (hs' : s' = s) (hdata : t.data = casinoGetTotalPlayer)
      (hout : res.output = List.replicate 31 0 ++ [1])
  | seed (h : CallsCasino t) (hs : s = 1) (hs' : s' = s)
      (hdata : t.data.take 4 = casinoGetWinnerSeed) (hout : res.output = List.replicate 32 0)
  | set (h : CallsCasino t) (hs : s = 1) (hdata : t.data.take 4 = casinoSetNextWinners)
      (hphase : phaseWord t.data = 0) (hlist : (listWord t.data).toNat < calledRoot)
      (hs' : s' = ofNat 256 (calledRoot + (listWord t.data).toNat))

variable {t : ScTransaction} {l : Link engine}

lemma execute_ran {s s' : Uint256} {res : ExecutionResult} (h : execute t s = .ok res s') :
    Ran t s res s' := by
  unfold execute at h
  split_ifs at h with hcreate hcall
  · cases h
    exact .created hcreate.1 hcreate.2.2.1 hcreate.2.2.2 rfl
  · unfold call at h
    split_ifs at h with htotal hseed hset
    · cases h
      exact .total hcall.1 hcall.2 rfl htotal rfl
    · cases h
      exact .seed hcall.1 hcall.2 rfl hseed rfl
    · cases h
      exact .set hcall.1 hcall.2 hset.1 hset.2.1 hset.2.2 rfl
    · cases h

/-- Every failure ends the process. -/
lemma execute_exits {s s' : Uint256} {f : Fault} (h : execute t s = .error f s') : f = .exit := by
  unfold execute at h
  split_ifs at h
  · unfold call at h
    split_ifs at h
    · cases h
    · cases h
    · cases h
    · cases h
      rfl
  · cases h
    rfl

lemma not_creates_of_calls (h : CallsCasino t) : ¬ CreatesCasino t := by
  rintro ⟨hcreation, -⟩
  rw [h.1] at hcreation
  cases hcreation

/-- The fields of a well-formed call with two words. -/
lemma words_of_wellFormed {phase winnerList : U256} {data : Bytes}
    (h : WellFormedCall casinoSetNextWinners [phase, winnerList] data) :
    data.take 4 = casinoSetNextWinners ∧ phaseWord data = phase ∧ listWord data = winnerList := by
  obtain ⟨fields, rfl, hfields⟩ := h
  obtain ⟨f0, rest, ⟨hlen0, hword0⟩, hrest, rfl⟩ := forall₂_cons_right_iff.mp hfields
  obtain ⟨f1, last, ⟨hlen1, hword1⟩, hlast, rfl⟩ := forall₂_cons_right_iff.mp hrest
  obtain rfl := forall₂_nil_right_iff.mp hlast
  have hselector : casinoSetNextWinners.length = 4 := rfl
  refine ⟨by simp [hselector], ?_, ?_⟩
  · rw [phaseWord, ← hword0]
    congr 1
    rw [drop_left' hselector]
    simp [hlen0]
  · rw [listWord, ← hword1]
    congr 1
    rw [show 36 = casinoSetNextWinners.length + 32 from rfl, ← drop_drop, drop_left]
    simp [hlen0]

lemma seed_of_wellFormed {phase : U256} {data : Bytes}
    (h : WellFormedCall casinoGetWinnerSeed [phase] data) : data.take 4 = casinoGetWinnerSeed := by
  obtain ⟨fields, rfl, -⟩ := h
  simp [casinoGetWinnerSeed]

lemma create_getWinnerSeed (phase : U256) : (create creator).getWinnerSeed phase = 0 := by
  rw [getWinnerSeed]
  split_ifs <;> rfl

/-- The storage behind the call. -/
lemma casinoAt_called {winnerList : U256} (h : winnerList.toNat < calledRoot) :
    casinoAt (ofNat 256 (calledRoot + winnerList.toNat)) =
      some ((create creator).openPhase winnerList) := by
  simp only [calledRoot] at h
  have hnat : (ofNat 256 (calledRoot + winnerList.toNat)).toNat =
      calledRoot + winnerList.toNat := by
    rw [BitVec.toNat_ofNat, calledRoot]
    omega
  have hne : ofNat 256 (calledRoot + winnerList.toNat) ≠ 1 := by
    intro heq
    rw [heq] at hnat
    simp only [calledRoot] at hnat
    exact absurd hnat (by rw [show (1 : Uint256).toNat = 1 from rfl]; omega)
  rw [casinoAt, if_neg hne, hnat, if_pos (by simp only [calledRoot]; omega),
    Nat.add_sub_cancel_left, BitVec.ofNat_toNat, BitVec.setWidth_eq]

/-- The small host. -/
def host : CasinoHost engine where
  toExecutionDetermined := .ofExecute fun h => absurd (execute_exits h) (by simp)
  code := ones.genesisContractCode
  casinoAt := casinoAt
  calls := fun _ => calls
  execute_create := by
    intro s t res s' _ _ hcreate _ _ h
    cases execute_ran h with
    | created _ hsender _ hs' =>
      change casinoAt s' = _
      rw [hs', hsender]
      rfl
    | total hcall | seed hcall | set hcall => exact absurd hcreate (not_creates_of_calls hcall)
  execute_calls := by
    intro s t res s' cs _ _ hnot hcs h
    have hsilent : ∀ selector, t.data.take 4 = selector → selector ≠ casinoSetNextWinners →
        calls t = [] := by
      intro selector hdata hne
      exact if_neg fun hset => hne (hdata.symm.trans hset.2)
    cases execute_ran h with
    | created hcreate => exact absurd hcreate hnot
    | total _ _ hs' hdata =>
      rw [hsilent _ (by rw [hdata]; rfl) (by decide : casinoGetTotalPlayer ≠ _), hs']
      exact hcs
    | seed _ _ hs' hdata =>
      rw [hsilent _ hdata (by decide), hs']
      exact hcs
    | set hcall hs hdata hphase hlist hs' =>
      obtain rfl : create creator = cs := by
        rw [hs] at hcs
        exact Option.some.inj hcs
      change casinoAt s' = _
      rw [hs', casinoAt_called hlist, calls, if_pos ⟨hcall, hdata⟩]
      exact congrArg some (perform_openPhase t.sender (listWord t.data) hphase).symm
  calls_setNextWinners := by
    intro r t phase winnerList hcall hwell
    obtain ⟨hselector, hphase, hlist⟩ := words_of_wellFormed hwell
    rw [calls, if_pos ⟨hcall, hselector⟩, hphase, hlist]
  output_getTotalPlayer := by
    intro s t res s' cs _ _ hcall hdata hcs h
    cases execute_ran h with
    | created hcreate => exact absurd hcreate (not_creates_of_calls hcall)
    | total _ hs _ _ hout =>
      obtain rfl : create creator = cs := by
        rw [hs] at hcs
        exact Option.some.inj hcs
      rw [hout, show (create creator).getTotalPlayer = 1 by decide +kernel]
      exact ⟨rfl, by decide +kernel⟩
    | seed _ _ _ hdata' | set _ _ hdata' => rw [hdata] at hdata'; exact absurd hdata' (by decide)
  output_getWinnerSeed := by
    intro s t res s' cs phase _ _ hcall hwell hcs h
    have hselector := seed_of_wellFormed hwell
    cases execute_ran h with
    | created hcreate => exact absurd hcreate (not_creates_of_calls hcall)
    | total _ _ _ hdata' => rw [hdata'] at hselector; exact absurd hselector (by decide)
    | seed _ hs _ _ hout =>
      obtain rfl : create creator = cs := by
        rw [hs] at hcs
        exact Option.some.inj hcs
      rw [hout, create_getWinnerSeed]
      exact ⟨rfl, by decide +kernel⟩
    | set _ _ hdata' => rw [hselector] at hdata'; exact absurd hdata' (by decide)
  execute_not_thrown := by
    intro s t e s' _ _ _ h
    exact absurd (execute_exits h) (by simp)

/-! A chain on this host. -/

/-- A block with a coinbase that has some more outputs, and other transactions. -/
def block (nHeight : ℕ) (hashStateRoot : Uint256) (outs : List CTxOut) (users : List CTransaction) :
    CBlock :=
  { nVersion := 4, hashPrevBlock := ofNat 256 (999 + nHeight),
    hashMerkleRoot := Uint256.null, hashStateRoot := hashStateRoot, nTime := 1600000010 + nHeight,
    nBits := 0, nHeight := nHeight,
    vtx := { smallCoinbase with vout := smallCoinbase.vout ++ outs } :: users, fChecked := false }

/-- The data of a call of `setNextWinners` for phase 0, with a short list. -/
def setData (list : Bytes) : Bytes :=
  casinoSetNextWinners ++ str60zero ++ [0, 0] ++ (List.replicate 28 0 ++ list)

def callOutput (list : Bytes) : CTxOut := ⟨0, casinoCallScript .ones (setData list)⟩

/-- A transaction with such a call, which anybody can make. -/
def userTx (list : Bytes) : CTransaction := smallSpend [smallOutpoint] (callOutput list)

/-- The block that creates the contract. -/
def firstLink : Link engine := ⟨1, 0, block 1 1 [⟨0, casinoCreateScript .ones⟩] [], 1⟩

/-- A block in which nothing happens. -/
def plainLink (nHeight : ℕ) : Link engine := ⟨nHeight, 1, block nHeight 1 [] [], 1⟩

/-- The last block of the first phase, of an honest miner. -/
def lastLink : Link engine :=
  ⟨256, 1, block 256 (ofNat 256 (calledRoot + 65536)) [callOutput [0, 1, 0, 0]] [],
    ofNat 256 (calledRoot + 65536)⟩

/-- The second block, with a user who sets the winners. -/
def userLink : Link engine :=
  ⟨2, 1, block 2 (ofNat 256 (calledRoot + 7)) [] [userTx [0, 0, 0, 7]],
    ofNat 256 (calledRoot + 7)⟩

/-- The chain of the first block and so many plain ones. -/
def plainChain : ℕ → List (Link engine)
  | 0 => [firstLink]
  | k + 1 => plainLink (k + 2) :: plainChain k

lemma ready (s : Uint256) : host.Ready s := ⟨trivial, trivial⟩

/-- A link that is executed. -/
lemma executes_of_run (h : returnsWith (fun r (t : Uint256) => r.1 && t == l.after)
      (getBlockContract Crypto.zeros engine l.block l.before) = true) :
    l.Executes host .zeros := by
  obtain ⟨⟨b, refunds⟩, t, hrun, hr⟩ := returnsWith_iff.mp h
  simp only [Bool.and_eq_true, beq_iff_eq] at hr
  obtain ⟨rfl, rfl⟩ := hr
  exact ⟨refunds, _, hrun, ready _, ready _, rfl⟩

lemma plainChain_length : ∀ k, (plainChain k).length = k + 1
  | 0 => rfl
  | k + 1 => by rw [plainChain, length_cons, plainChain_length k]

lemma plainChain_linked : ∀ k, Linked host .zeros (plainChain k) (1 : Uint256)
  | 0 => .block (l := firstLink) (.genesis (ready _) rfl) rfl (executes_of_run (by decide +kernel))
  | k + 1 => .block (l := plainLink (k + 2)) (plainChain_linked k)
      (by rw [plainChain_length]; rfl) ⟨[], (1 : Uint256), rfl, ready _, ready _, rfl⟩

/-- An honest block of the miner with the fixed generator. -/
lemma honest_of_script {outs : List CTxOut} {o : Option CScript} {p : Uint256}
    {users : List CTransaction}
    (hvtx : l.block.vtx = { smallCoinbase with vout := smallCoinbase.vout ++ outs } :: users)
    (hscript : casinoScript engine .ones l.nHeight l.before = .ok o p)
    (houts : outs = casinoOutputs o) : HonestLink host .ones l :=
  ⟨.ones, ones_genuine, rfl, _, _, _, o, p, [], hvtx, hscript,
    by rw [houts, append_nil]; rfl, by decide +kernel, fun _ h => absurd h not_mem_nil⟩

lemma firstLink_honest : HonestLink host .ones firstLink := honest_of_script rfl rfl rfl

lemma plainLink_honest {n : ℕ} (hone : n ≠ 1) (hheight : ¬ CasinoHeight n) :
    HonestLink host .ones (plainLink n) :=
  honest_of_script rfl (casinoScript_other hone hheight _) rfl

lemma lastLink_honest : HonestLink host .ones lastLink := by
  have hrun : returnsWith (fun o (_ : Uint256) => o == some (casinoCallScript .ones
      (setData [0, 1, 0, 0]))) (casinoScript engine .ones 256 1) = true := by decide +kernel
  obtain ⟨o, p, hscript, ho⟩ := returnsWith_iff.mp hrun
  obtain rfl := beq_iff_eq.mp ho
  exact honest_of_script rfl hscript rfl

/-- Blocks without other transactions are quiet. -/
lemma quiet_of_no_users {coinbase : CTransaction} (h : l.block.vtx = [coinbase]) :
    QuietLink host .zeros l := by
  intro coinbase' users hvtx _ _ _
  rw [h] at hvtx
  cases hvtx
  trivial

lemma plainChain_honest : ∀ {k : ℕ}, k ≤ 254 → ∀ l ∈ plainChain k, HonestLink host .ones l
  | 0, _ => by
    intro l hl
    rw [mem_singleton.mp hl]
    exact firstLink_honest
  | k + 1, hk => by
    rw [plainChain, forall_mem_cons]
    refine ⟨plainLink_honest (by omega) ?_, plainChain_honest (by omega)⟩
    rintro ⟨-, h⟩
    simp only [chainPhaseSize] at h
    omega

lemma plainChain_quiet : ∀ (k : ℕ), ∀ l ∈ plainChain k, QuietLink host .zeros l
  | 0 => by
    intro l hl
    rw [mem_singleton.mp hl]
    exact quiet_of_no_users rfl
  | k + 1 => by
    rw [plainChain, forall_mem_cons]
    exact ⟨quiet_of_no_users rfl, plainChain_quiet k⟩

end SmallHost

open SmallHost

open SmallHost in
/-- A whole phase of honest blocks: before the last of them the contract is in phase 0. -/
theorem honest_chain_phase : PhaseStep host lastLink :=
  @honest_chain_aligned _ host .zeros .ones _ _
    (.block (plainChain_linked 254) (by rw [plainChain_length]; rfl)
      (executes_of_run (by decide +kernel)))
    (forall_mem_cons.mpr ⟨lastLink_honest, plainChain_honest (le_refl _)⟩)
    (forall_mem_cons.mpr ⟨quiet_of_no_users rfl, plainChain_quiet 254⟩) lastLink
    mem_cons_self

open SmallHost in
/-- **A user opens the next phase in the second block**: all miners are honest, and the contract is
    in phase 1 at height 2. -/
theorem honest_chain_disturbed : Linked host .zeros [userLink, firstLink] userLink.after ∧
      (∀ l ∈ [userLink, firstLink], HonestLink host .ones l) ∧
      ¬ PhaseStep host userLink := by
  refine ⟨.block (l := userLink) (plainChain_linked 0) rfl (executes_of_run (by decide +kernel)),
    ?_, fun h => ?_⟩
  · rw [forall_mem_cons, forall_mem_singleton]
    exact ⟨honest_of_script rfl (casinoScript_other (by decide) (by decide) _) rfl,
      firstLink_honest⟩
  · have hsame := h.unchanged (by decide) (by decide)
    have hafter : host.casinoAt (host.root userLink.after) =
        some ((create creator).openPhase 7) :=
      casinoAt_called (show (7 : U256).toNat < calledRoot by decide)
    have hbefore : host.casinoAt (host.root userLink.before) = some (create creator) := rfl
    rw [hafter, hbefore] at hsame
    exact absurd (Option.some.inj hsame) (by decide)

end Ybtc
