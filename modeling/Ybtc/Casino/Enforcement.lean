import Ybtc.Casino.HonestChain

/-!
# What validation says about the winners

`ConnectBlock` executes the contract transactions of a block and compares the root with the one in
the header.  It does not look at what they are: `CheckCasino` returns `true`, and a block without
the call of `setNextWinners`, or with a call that names other winners, is as good as one with it.
The main result is `accepted_draw`.
-/

namespace Ybtc

open Stateful List

section Accepted

variable {E : ContractEngine} (host : CasinoHost E) (crypto : Crypto) (rnd : RandomSource)
  (ctx : ChainContext)

/-- **A chain that `ConnectBlock` accepts**, newest block first, with the coins and the cache it
    leaves.  The special case of `ConnectBlock` for the genesis block applies to no other block. -/
inductive AcceptedChain : List (Link E) → CCoinsViewCache → ctx.C.State → E.State → Prop
  | genesis {view : CCoinsViewCache} {cache : ctx.C.State} {s : E.State} : host.Ready s →
      host.casinoAt (host.root s) = none → AcceptedChain [] view cache s
  | block {ls : List (Link E)} {l : Link E} {pindex : CBlockIndex} {view : CCoinsViewCache}
      {cache : ctx.C.State} {r : Connected ctx.C} : AcceptedChain ls view cache l.before →
      l.nHeight = ls.length + 1 → pindex.nHeight = l.nHeight →
      ctx.H.getHash l.block ≠ ctx.params.hashGenesisBlock →
      connectBlock (ctx.withLayer (E.layer crypto)) false l.block pindex view cache l.before =
        .ok r l.after →
      AcceptedChain (l :: ls) r.view r.cache l.after

/-- **The contract holds the winners of a phase**: it has reached the phase and still has room for
    it, and its entries are the players on the list that `AddCasinoToCoinBaseTx` draws from the
    contract before the last block of the phase before. -/
def HoldsWinners (ls : List (Link E)) (cs : Casino) (p : ℕ) : Prop :=
  cs.outside (BitVec.ofNat 256 p) = false ∧ ∃ l ∈ ls, l.nHeight = chainPhaseSize * p ∧
    ∃ cs₀, host.casinoAt (host.root l.before) = some cs₀ ∧
      cs₀.HoldsDrawn cs (BitVec.ofNat 256 p) (cs₀.nextList rnd (p - 1))

/-- **What validation should enforce**: the winners that the contract holds are the players that
    were drawn. -/
def DrawEnforced (ls : List (Link E)) (s : E.State) : Prop :=
  ∀ p, InBuffer ls.length p →
    ∃ cs, host.casinoAt (host.root s) = some cs ∧ HoldsWinners host rnd ls cs p

/-- **The list of a block at the end of a phase is decoded rightly**: the entries that the call will
    not write are left over, and hold the player that is first on the list. -/
def DecodedLink (l : Link E) : Prop :=
  CasinoHeight l.nHeight → ∀ cs, host.casinoAt (host.root l.before) = some cs →
    cs.OthersLeftOver (cs.nextList rnd (phaseOf l.nHeight))

variable {host crypto rnd ctx}

/-! ## Accepted blocks are executed -/

variable {block : CBlock} {s : E.State}

/-- A block that is executed leads to a ready state. -/
lemma getBlockContract_ready {t : E.State} {r : Bool × List CTxOut} (hs : host.Ready s)
    (h : getBlockContract crypto E block s = .ok r t) : r.1 = true ∧ host.Ready t := by
  obtain ⟨v, t1, hfold, hrest⟩ := bind_ok.mp h
  obtain ⟨_, t2, hcommit, hend⟩ := bind_ok.mp hrest
  cases hend
  obtain ⟨_, _, halike⟩ := execTxs_respects host.toExecutionDetermined block.vtx [] s s
    ⟨hs, hs, rfl⟩ _ _ hfold
  obtain ⟨t3, hcommit', hknown⟩ := host.commit_ok halike.1.2
  rw [hcommit] at hcommit'
  cases hcommit'
  exact ⟨rfl, (host.commit_settled halike.1.1 hcommit).1, hknown⟩

/-- A block without contract transactions can be executed, and nothing happens. -/
lemma getBlockContract_plain (hs : host.Ready s)
    (h : block.vtx.any CTransaction.hasCreateOrCall = false) :
    ∃ t, getBlockContract crypto E block s = .ok (true, []) t ∧ host.Alike t s := by
  have hfold : block.vtx.foldlM (execTx crypto E) [] = pure [] := by
    have htxs : ∀ tx ∈ block.vtx, tx.hasCreateOrCall = false := by
      simpa [any_eq_false] using h
    generalize block.vtx = txs at htxs
    induction txs with
    | nil => rfl
    | cons tx txs ih =>
      rw [forall_mem_cons] at htxs
      have htx : execTx crypto E [] tx = pure [] := by
        rw [execTx, htxs.1, if_neg Bool.false_ne_true]
      rw [foldlM_cons, htx, pure_bind, ih htxs.2]
  obtain ⟨t, hcommit, hknown⟩ := host.commit_ok hs.2
  obtain ⟨hsettled, hroot⟩ := host.commit_settled hs.1 hcommit
  refine ⟨t, ?_, ⟨hsettled, hknown⟩, hs, hroot⟩
  rw [getBlockContract, hfold, pure_bind]
  exact bind_ok.mpr ⟨(), t, hcommit, rfl⟩

/-- What an accepting `CheckContractTx` has done. -/
lemma checkContractTx_executes {hasContract : Bool} {s' : E.State} (hs : host.Ready s)
    (hflag : hasContract = block.vtx.any CTransaction.hasCreateOrCall)
    (h : checkContractTx ctx.H (E.layer crypto) block hasContract s = .ok () s') :
    ∃ refunds t, getBlockContract crypto E block s = .ok (true, refunds) t ∧ host.Alike t s' := by
  rcases checkContractTx_ok h with ⟨hc, rfl⟩ | ⟨-, old, s₁, refunds, t, hold, hrun, hroot⟩
  · obtain ⟨t, hrun, halike⟩ : ∃ t, getBlockContract crypto E block s' = .ok (true, []) t ∧
        host.Alike t s' := getBlockContract_plain hs (hflag.symm.trans hc)
    exact ⟨[], t, hrun, halike⟩
  · have hrootHash : ∀ {s : E.State}, host.Ready s → E.rootHash s = .ok (host.root s) s :=
      fun hs => host.rootHash_ok hs.2
    cases (hrootHash hs).symm.trans hold
    obtain ⟨-, ht⟩ := getBlockContract_ready hs hrun
    injection (hrootHash ht).symm.trans hroot with _ hstate
    subst hstate
    exact ⟨refunds, t, hrun, ht, ht, rfl⟩

variable {ls : List (Link E)}

/-- **An accepted chain is executed block by block.** -/
lemma AcceptedChain.linked {view : CCoinsViewCache} {cache : ctx.C.State}
    (h : AcceptedChain host crypto ctx ls view cache s) :
    Linked host crypto ls s ∧ host.Ready s := by
  induction h with
  | genesis hready hnone => exact ⟨.genesis hready hnone, hready⟩
  | @block ls l pindex view cache r _ hheight _ hgenesis hconnect ih =>
    obtain ⟨hlinked, hready⟩ := ih
    obtain ⟨-, ⟨hg, -⟩ | ⟨-, prev, st, -, hby⟩⟩ := connectBlock_ok.mp hconnect
    · exact absurd hg hgenesis
    obtain ⟨s1, hcheck, hsame⟩ := hby.contracts
    obtain rfl : l.after = s1 := hsame
    obtain ⟨v, _, hfold⟩ := Fallible.bind_ok.mp hby.txs
    have hflag := connectTxs_hasContract hfold
    rw [Bool.false_or] at hflag
    obtain ⟨refunds, t, hrun, halike⟩ := checkContractTx_executes hready hflag hcheck
    exact ⟨.block hlinked hheight ⟨refunds, t, hrun, halike⟩, halike.2.1⟩

/-! ## The winners -/

/-- The phases in the ring are not outside. -/
lemma AlignedCasino.inside {cs : Casino} (h : AlignedCasino host rnd ls cs) {p : ℕ}
    (hp : InBuffer ls.length p) : cs.outside (BitVec.ofNat 256 p) = false := by
  obtain ⟨hpos, hle, hroom⟩ := hp
  have hbound := h.bound
  simp only [Casino.winnerBufferSize] at hroom
  have hreached : ¬ BitVec.ofNat 256 (ls.length / chainPhaseSize) < BitVec.ofNat 256 p := by
    rw [BitVec.lt_def, BitVec.toNat_ofNat, BitVec.toNat_ofNat]
    omega
  have hkept : ¬ BitVec.ofNat 256 p + BitVec.ofNat 256 Casino.winnerBufferSize ≤
      BitVec.ofNat 256 (ls.length / chainPhaseSize) := by
    rw [BitVec.le_def, ← BitVec.ofNat_add, BitVec.toNat_ofNat, BitVec.toNat_ofNat,
      Casino.winnerBufferSize]
    omega
  rw [Casino.outside, h.phase, decide_eq_false hreached, decide_eq_false hkept]
  rfl

/-- **What is kept of a list that is decoded rightly are the players that were drawn.** -/
lemma KeepsEntries.holdsDrawn {cs : Casino} {p : ℕ} (hpos : 1 ≤ p)
    (h : KeepsEntries host rnd ls cs p) (hdecoded : ∀ l ∈ ls, DecodedLink host rnd l) :
    ∃ l ∈ ls, l.nHeight = chainPhaseSize * p ∧ ∃ cs₀,
      host.casinoAt (host.root l.before) = some cs₀ ∧
        cs₀.HoldsDrawn cs (BitVec.ofNat 256 p) (cs₀.nextList rnd (p - 1)) := by
  obtain ⟨l, hl, hheight, cs₀, hcs₀, hphase, hentry⟩ := h
  have hcasino : CasinoHeight l.nHeight ∧ phaseOf l.nHeight = p - 1 := by
    simp only [hheight, CasinoHeight, phaseOf, chainPhaseSize]
    omega
  have hleft := hdecoded l hl hcasino.1 cs₀ hcs₀
  obtain ⟨w0, w1, hw, h0, h1⟩ := generateCasinoList_pair rnd
    (Nat.mod_lt cs₀.getTotalPlayer.toNat (by decide : 0 < 65536))
    ((cs₀.getWinnerSeed (BitVec.ofNat 256 (p - 1 - 1))).toNat % 65536)
  have hlist : cs₀.nextList rnd (p - 1) = [w0, w1] := hw
  rw [hcasino.2, hlist] at hleft
  rw [hlist] at hentry
  refine ⟨l, hl, hheight, cs₀, hcs₀, ?_⟩
  rw [hlist]
  refine Casino.holdsDrawn_of_leftOver h0 h1 hphase hleft fun j hj => ?_
  rw [hentry j hj, winnersWord, foldl_cons, foldl_cons, foldl_nil, Nat.zero_mul, Nat.zero_add]

/-- **The contract holds the drawn winners** in every accepted chain whose coinbases carry the
    output of `AddCasinoToCoinBaseTx` and no other contract output, whose other transactions neither
    set the winners of the next phase nor create a contract at the address of the casino, and whose
    packed lists are decoded rightly. -/
theorem accepted_draw {ls : List (Link E)} {view : CCoinsViewCache} {cache : ctx.C.State}
    {s : E.State} (h : AcceptedChain host crypto ctx ls view cache s)
    (hhonest : ∀ l ∈ ls, HonestLink host rnd l) (hquiet : ∀ l ∈ ls, QuietLink host crypto l)
    (hdecoded : ∀ l ∈ ls, DecodedLink host rnd l) : DrawEnforced host rnd ls s := by
  obtain ⟨hlinked, -⟩ := h.linked
  intro p hp
  have hne : ls ≠ [] := by
    rintro rfl
    obtain ⟨hpos, hle, -⟩ := hp
    simp only [length_nil, Nat.zero_div] at hle
    omega
  obtain ⟨cs, hcs, haligned⟩ :=
    (linked_aligned hlinked fun l hl => ⟨hhonest l hl, hquiet l hl⟩).casino hne
  exact ⟨cs, hcs, haligned.inside hp, (haligned.winners p hp).holdsDrawn hp.1 hdecoded⟩

end Accepted

/-! ## Chains on the small host -/

namespace SmallHost

/-- The surroundings: no coinbase is compared with older ones, and the subsidy is never halved. -/
def chainContext : ChainContext :=
  { ChainContext.small 0 ⟨fun _ => none⟩ with
    params := { ConsensusParams.regtest with
      bip34Height := 0, bip34Hash := 1000#256, nSubsidyHalvingInterval := 210000 } }

def indexEntry (nHeight : ℕ) : IndexEntry :=
  ⟨BitVec.ofNat 256 (1000 + nHeight), nHeight, 1600000010 + nHeight, Uint256.null⟩

/-- The index of a block on its chain. -/
def index (nHeight : ℕ) : CBlockIndex :=
  (indexEntry nHeight).toIndex ((List.range nHeight).reverse.map indexEntry)

def sameRoot (r r' : Uint256) : Bool := r == r'

lemma sameRoot_iff {r r' : Uint256} : sameRoot r r' = true ↔ r = r' := beq_iff_eq

/-- The coins and the cache after a block, if it is accepted and leads to its state. -/
def connect (l : Link engine) (view : CCoinsViewCache) (cache : List Uint256) :
    Option (CCoinsViewCache × List Uint256) :=
  match connectBlock (chainContext.withLayer (engine.layer .zeros)) false l.block (index l.nHeight)
      view cache l.before with
  | .ok r s' => if sameRoot s' l.after then some (r.view, r.cache) else none
  | .error _ _ => none

/-- The coins and the cache after the first block and so many plain ones. -/
def plainCoins : ℕ → Option (CCoinsViewCache × List Uint256)
  | 0 => connect firstLink (CCoinsViewCache.ofBase ∅ 1000#256) []
  | k + 1 => (plainCoins k).bind fun r => connect (plainLink (k + 2)) r.1 r.2

variable {r : CCoinsViewCache × List Uint256}

/-- One accepted block on top. -/
lemma accepted_connect {ls : List (Link engine)} {l : Link engine} {view : CCoinsViewCache}
    {cache : List Uint256} (h : AcceptedChain host .zeros chainContext ls view cache l.before)
    (hheight : l.nHeight = ls.length + 1)
    (hhash : chainContext.H.getHash l.block ≠ chainContext.params.hashGenesisBlock)
    (hr : connect l view cache = some r) :
    AcceptedChain host .zeros chainContext (l :: ls) r.1 r.2 l.after := by
  unfold connect at hr
  cases hrun : connectBlock (chainContext.withLayer (engine.layer .zeros)) false l.block
      (index l.nHeight) view cache l.before with
  | error e s' => rw [hrun] at hr; cases hr
  | ok res s' =>
    rw [hrun] at hr
    simp only at hr
    split_ifs at hr with hs'
    cases hr
    obtain rfl : s' = l.after := sameRoot_iff.mp hs'
    exact .block h hheight rfl hhash hrun

/-- Hashes tell heights apart. -/
lemma hash_ne_genesis {nHeight : ℕ} (hpos : 1 ≤ nHeight) (hle : nHeight ≤ 256) (root : Uint256)
    (outs : List CTxOut) (users : List CTransaction) :
    chainContext.H.getHash (block nHeight root outs users) ≠
      chainContext.params.hashGenesisBlock := by
  show BitVec.ofNat 256 (nHeight + 1000) ≠ 1000#256
  intro h
  have := congrArg BitVec.toNat h
  simp only [BitVec.toNat_ofNat] at this
  omega

/-- **Blocks in which nothing happens are accepted**, also at the end of a phase. -/
lemma plainChain_accepted {k : ℕ} (hk : k ≤ 255) (hr : plainCoins k = some r) :
    AcceptedChain host .zeros chainContext (plainChain k) r.1 r.2 (1 : Uint256) := by
  induction k generalizing r with
  | zero =>
    exact accepted_connect (l := firstLink) (.genesis (ready _) rfl) rfl
      (hash_ne_genesis (le_refl _) (by decide) _ _ _) hr
  | succ k ih =>
    obtain ⟨r1, hr1, hconnect⟩ := Option.bind_eq_some_iff.mp hr
    exact accepted_connect (l := plainLink (k + 2)) (ih (by omega) hr1)
      (by rw [plainChain_length]; rfl) (hash_ne_genesis (by omega) (by omega) _ _ _) hconnect

end SmallHost

namespace SmallHost

/-- The creator is the only player: it is the first on every list, and unused entries stand for it.
    -/
lemma create_leftOver (phase : ℕ) :
    (Casino.create creator).OthersLeftOver ((Casino.create creator).nextList .ones phase) := by
  rw [Casino.nextList, create_getWinnerSeed]
  unfold Casino.OthersLeftOver
  decide +kernel

lemma plainLink_decoded (n : ℕ) : DecodedLink host .ones (plainLink n) := by
  intro _ cs hcs
  obtain rfl : Casino.create creator = cs := Option.some.inj hcs
  exact create_leftOver _

lemma plainChain_decoded : ∀ (k : ℕ), ∀ l ∈ plainChain k, DecodedLink host .ones l
  | 0 => forall_mem_singleton.mpr fun hheight => absurd hheight (by decide)
  | k + 1 => forall_mem_cons.mpr ⟨plainLink_decoded _, plainChain_decoded k⟩

end SmallHost

open SmallHost in
/-- A whole phase of honest blocks is accepted, and the contract holds the winners of phase 1. -/
theorem accepted_draw_phase :
    InBuffer (lastLink :: plainChain 254).length 1 ∧
      DrawEnforced SmallHost.host .ones (lastLink :: plainChain 254) lastLink.after := by
  have hrun : ((plainCoins 254).bind fun r => connect lastLink r.1 r.2).isSome = true := by
    decide +kernel
  obtain ⟨r, hr⟩ := Option.isSome_iff_exists.mp hrun
  obtain ⟨r1, hr1, hconnect⟩ := Option.bind_eq_some_iff.mp hr
  have haccepted := accepted_connect (l := lastLink) (plainChain_accepted (by decide) hr1)
    (by rw [plainChain_length]; rfl) (hash_ne_genesis (by decide) (by decide) _ _ _) hconnect
  refine ⟨by rw [length_cons, plainChain_length]; decide, accepted_draw haccepted
    (forall_mem_cons.mpr ⟨lastLink_honest, plainChain_honest (le_refl _)⟩)
    (forall_mem_cons.mpr ⟨quiet_of_no_users rfl, plainChain_quiet 254⟩)
    (forall_mem_cons.mpr ⟨?_, plainChain_decoded 254⟩)⟩
  intro _ cs hcs
  obtain rfl : Casino.create creator = cs := Option.some.inj hcs
  exact create_leftOver _

open SmallHost in
/-- **A block without a draw is accepted** at the end of the first phase, and the contract holds no
    winners for the next one. -/
theorem accepted_without_draw :
    ∃ view cache, AcceptedChain SmallHost.host .zeros chainContext (plainChain 255) view cache
        (1 : Uint256) ∧
      CasinoHeight (plainLink 256).nHeight ∧ plainLink 256 ∈ plainChain 255 ∧
      (∀ tx ∈ (plainLink 256).block.vtx, tx.hasCreateOrCall = false) ∧
      ¬ DrawEnforced SmallHost.host .ones (plainChain 255) (1 : Uint256) := by
  have hrun : (plainCoins 255).isSome = true := by decide +kernel
  obtain ⟨r, hr⟩ := Option.isSome_iff_exists.mp hrun
  refine ⟨r.1, r.2, plainChain_accepted (le_refl _) hr, by decide, mem_cons_self, by decide +kernel,
    fun h => ?_⟩
  obtain ⟨cs, hcs, hinside, -⟩ := h 1 (by rw [plainChain_length]; decide)
  obtain rfl : Casino.create creator = cs := Option.some.inj hcs
  exact absurd hinside (by decide)

end Ybtc
