import Ybtc.Miner.BlockAssembler
import Ybtc.Script.Push

/-!
# What assembling a block does

Inversion lemmas for the assembler, and the invariant that they carry through the loop.
-/

namespace Ybtc

open Stateful List CTxMemPoolEntry

/-- The block a turn leaves. -/
def Turn.assembler : Turn → Assembler
  | .finished A => A
  | .next A _ => A

/-- The entries of the pool a turn leaves to be looked at. -/
def Turn.mi : Turn → List CTxMemPoolEntry
  | .finished _ => []
  | .next _ sel => sel.mi

lemma CTxMemPool.mem_of_deref {pool : CTxMemPool} {hash : Uint256} {e : CTxMemPoolEntry}
    (h : pool.deref hash = .ok e) : e ∈ pool.mapTx := by
  unfold CTxMemPool.deref at h
  cases hf : pool.find hash with
  | none => rw [hf] at h; cases h
  | some e' =>
    rw [hf] at h
    cases h
    exact mem_of_find?_eq_some hf

section Steps

variable {ctx : MinerContext} {fIncludeWitness : Bool} {A A' : Assembler} {sel : Selection}
  {t : Turn} {s s' s0 : ctx.E.State} {cb : CTransaction}

/-- **What one turn can do**: it leaves the block alone, or adds a package of pool entries. -/
structure TurnEffect (ctx : MinerContext) (A : Assembler) (sel : Selection) (s : ctx.E.State)
    (t : Turn) (s' : ctx.E.State) : Prop where
  mi : ∀ e ∈ t.mi, e ∈ sel.mi
  block : (t.assembler = A ∧ s' = s) ∨ ∃ package, (∀ e ∈ package, e ∈ ctx.pool.mapTx) ∧
    (sortForBlock package).foldlM (addEntry ctx) A s = .ok t.assembler s'

variable {iter : CTxMemPoolEntry} {package : List CTxMemPoolEntry}

lemma addPackage_effect (hmem : ∀ e ∈ package, e ∈ ctx.pool.mapTx)
    (h : addPackage ctx A sel package s = .ok t s') : TurnEffect ctx A sel s t s' := by
  obtain ⟨A1, s1, hfold, hrest⟩ := bind_ok.mp h
  obtain ⟨m, _, hend⟩ := liftExcept_bind_ok.mp hrest
  cases hend
  exact ⟨fun _ he => he, Or.inr ⟨package, hmem, hfold⟩⟩

/-- A package consists of entries of the pool. -/
lemma packageOf_mem (hiter : iter ∈ ctx.pool.mapTx) (h : packageOf ctx A iter = .ok package) :
    ∀ e ∈ package, e ∈ ctx.pool.mapTx := by
  obtain ⟨ancestors, _, hrest⟩ := Fallible.bind_ok.mp h
  obtain ⟨unconfirmed, hun, hend⟩ := Fallible.bind_ok.mp hrest
  have hmem : ∀ e ∈ unconfirmed, e ∈ ctx.pool.mapTx := by
    intro e he
    obtain ⟨hash, _, hd⟩ := Fallible.mapM_ok_mem hun e he
    exact CTxMemPool.mem_of_deref hd
  cases hend
  split_ifs
  · exact hmem
  · exact forall_mem_cons.mpr ⟨hiter, hmem⟩

lemma Selection.drop_mi (sel : Selection) (used : Bool) (hash : Uint256) :
    (sel.drop used hash).mi = sel.mi := by
  unfold Selection.drop
  split_ifs <;> rfl

variable {m : CTxMemPoolModifiedEntry}

lemma consider_effect {used : Bool} (hiter : iter ∈ ctx.pool.mapTx)
    (h : consider ctx fIncludeWitness A sel iter m used s = .ok t s') :
    TurnEffect ctx A sel s t s' := by
  unfold consider at h
  split_ifs at h with h1 h2 h3
  · cases h
  · cases h
    exact ⟨(fun _ he => by cases he), Or.inl ⟨rfl, rfl⟩⟩
  · cases h
    unfold packageTooBig
    split_ifs
    · exact ⟨(fun _ he => by cases he), Or.inl ⟨rfl, rfl⟩⟩
    · refine ⟨fun e he => ?_, Or.inl ⟨rfl, rfl⟩⟩
      rwa [← sel.drop_mi used iter.hash]
  · obtain ⟨package, hp, hrest⟩ := liftExcept_bind_ok.mp h
    split_ifs at hrest with h4
    · cases hrest
      refine ⟨fun e he => ?_, Or.inl ⟨rfl, rfl⟩⟩
      rwa [← sel.drop_mi used iter.hash]
    · exact addPackage_effect (packageOf_mem hiter hp) hrest

lemma considerModified_effect (h : considerModified ctx fIncludeWitness A sel m s = .ok t s') :
    TurnEffect ctx A sel s t s' := by
  obtain ⟨iter, hi, hrest⟩ := liftExcept_bind_ok.mp h
  exact consider_effect (CTxMemPool.mem_of_deref hi) hrest

/-- **One turn** leaves the block alone or adds the entries of a package one by one, if the entries
    that are left are those of the pool. -/
lemma turn_effect (hmi : ∀ e ∈ sel.mi, e ∈ ctx.pool.mapTx)
    (h : turn ctx fIncludeWitness A sel s = .ok t s') : TurnEffect ctx A sel s t s' := by
  cases hsel : sel.mi with
  | nil =>
    cases hb : bestModified ctx sel.mapModifiedTx with
    | none =>
      simp only [turn, hsel, hb] at h
      cases h
      exact ⟨(fun _ he => by cases he), Or.inl ⟨rfl, rfl⟩⟩
    | some m =>
      simp only [turn, hsel, hb] at h
      exact considerModified_effect h
  | cons iter mi =>
    have hrest : ∀ e ∈ mi, e ∈ sel.mi := fun e he => by
      rw [hsel]
      exact mem_cons_of_mem iter he
    have hiter : iter ∈ ctx.pool.mapTx := hmi iter (by rw [hsel]; exact mem_cons_self)
    simp only [turn, hsel] at h
    split_ifs at h with hskip
    · cases h
      exact ⟨hrest, Or.inl ⟨rfl, rfl⟩⟩
    · generalize (bestModified ctx sel.mapModifiedTx).filter
        (fun m => ctx.compareModified m (.ofEntry iter)) = best at h
      cases best with
      | some m => exact considerModified_effect h
      | none =>
        have heff := consider_effect hiter h
        exact ⟨fun e he => hrest e (heff.mi e he), heff.block⟩

/-! ## The invariant -/

/-- **The block is made of the given pool entries**, added one after the other from the contract
    state `s0`. -/
structure Assembled (ctx : MinerContext) (cb : CTransaction) (s0 : ctx.E.State) (A : Assembler)
    (s : ctx.E.State) (entries : List CTxMemPoolEntry) : Prop where
  vtx : A.vtx = cb :: entries.map tx
  vTxFees : A.vTxFees = -1 :: entries.map nFee
  nFees : A.nFees = (entries.map nFee).sum
  /-- The refunds and the state are those of `GetBlockContract` on these transactions. -/
  run : (entries.map tx).foldlM (execTx ctx.crypto ctx.E) [] s0 = .ok A.vRefundGasFee s
  hasContract : A.hasContract = entries.any fun e => e.tx.hasCreateOrCall
  pool : ∀ e ∈ entries, e ∈ ctx.pool.mapTx

variable {entries : List CTxMemPoolEntry}

/-- **One entry**: adding it executes it as `GetBlockContract` would. -/
lemma Assembled.addEntry (hA : Assembled ctx cb s0 A s entries) (hiter : iter ∈ ctx.pool.mapTx)
    (h : addEntry ctx A iter s = .ok A' s') : Assembled ctx cb s0 A' s' (entries ++ [iter]) := by
  have hexec : execTx ctx.crypto ctx.E A.vRefundGasFee iter.tx s = .ok A'.vRefundGasFee s' ∧
      A'.vtx = A.vtx ++ [iter.tx] ∧ A'.vTxFees = A.vTxFees ++ [iter.nFee] ∧
      A'.nFees = A.nFees + iter.nFee ∧
      A'.hasContract = (A.hasContract || iter.tx.hasCreateOrCall) := by
    unfold Ybtc.addEntry at h
    unfold execTx
    split_ifs at h ⊢ with hc
    · obtain ⟨r, s1, hr, hrest⟩ := bind_ok.mp h
      obtain ⟨refunds, s2, hrun, hend⟩ := bind_ok.mp hrest
      cases hend
      refine ⟨bind_ok.mpr ⟨r, s1, hr, hrun⟩, rfl, rfl, rfl, ?_⟩
      simp [hc]
    · cases h
      refine ⟨rfl, rfl, rfl, rfl, ?_⟩
      simp only [Assembler.push]
      simp [hc]
  obtain ⟨hrun, hvtx, hfees, hn, hcontract⟩ := hexec
  refine ⟨?_, ?_, ?_, ?_, ?_, ?_⟩
  · rw [hvtx, hA.vtx, map_append, cons_append]
    rfl
  · rw [hfees, hA.vTxFees, map_append, cons_append]
    rfl
  · rw [hn, hA.nFees, map_append, sum_append]
    simp
  · rw [map_append, foldlM_append]
    refine bind_ok.mpr ⟨A.vRefundGasFee, s, hA.run, ?_⟩
    simp only [map_cons, map_nil, foldlM_cons, foldlM_nil]
    exact bind_ok.mpr ⟨A'.vRefundGasFee, s', hrun, rfl⟩
  · rw [hcontract, hA.hasContract, any_append]
    simp
  · intro e he
    rcases mem_append.mp he with he | he
    · exact hA.pool e he
    · rwa [mem_singleton.mp he]

/-- The entries of a package. -/
lemma Assembled.addEntries : ∀ {package entries : List CTxMemPoolEntry} {A : Assembler}
    {s : ctx.E.State}, Assembled ctx cb s0 A s entries → (∀ e ∈ package, e ∈ ctx.pool.mapTx) →
      package.foldlM (Ybtc.addEntry ctx) A s = .ok A' s' →
        Assembled ctx cb s0 A' s' (entries ++ package)
  | [], entries, A, s, hA, _, h => by
    cases h
    rw [append_nil]
    exact hA
  | iter :: package, entries, A, s, hA, hmem, h => by
    rw [foldlM_cons] at h
    rw [forall_mem_cons] at hmem
    obtain ⟨A1, s1, hadd, hrest⟩ := bind_ok.mp h
    have hA1 := (hA.addEntry hmem.1 hadd).addEntries hmem.2 hrest
    rwa [append_assoc] at hA1

/-- **One turn** keeps the invariant. -/
lemma Assembled.turn (hA : Assembled ctx cb s0 A s entries) (heff : TurnEffect ctx A sel s t s') :
    ∃ entries', Assembled ctx cb s0 t.assembler s' entries' := by
  rcases heff.block with ⟨ht, rfl⟩ | ⟨package, hmem, hp⟩
  · exact ⟨entries, by rw [ht]; exact hA⟩
  · refine ⟨entries ++ sortForBlock package, hA.addEntries ?_ hp⟩
    exact fun e he => hmem e ((mem_insertionSort _).mp he)

/-- **The loop**, by induction on the turns it may take. -/
lemma Assembled.packageLoop : ∀ {fuel : ℕ} {A : Assembler} {sel : Selection} {s : ctx.E.State}
    {entries : List CTxMemPoolEntry}, Assembled ctx cb s0 A s entries →
      (∀ e ∈ sel.mi, e ∈ ctx.pool.mapTx) →
      Ybtc.packageLoop ctx fIncludeWitness fuel A sel s = .ok A' s' →
        ∃ entries', Assembled ctx cb s0 A' s' entries'
  | 0, _, _, _, _, _, _, h => by cases h
  | fuel + 1, A, sel, s, entries, hA, hmi, h => by
    rw [Ybtc.packageLoop] at h
    obtain ⟨t, s1, ht, hrest⟩ := bind_ok.mp h
    have heff := turn_effect hmi ht
    obtain ⟨entries1, hA1⟩ := hA.turn heff
    cases t with
    | finished A1 =>
      cases hrest
      exact ⟨entries1, hA1⟩
    | next A1 sel1 => exact hA1.packageLoop (fun e he => hmi e (heff.mi e he)) hrest

/-! ## The whole block -/

/-- **The finished block**: the commitment adds outputs without value to the coinbase. -/
lemma assembledBlock_eq (ctx : MinerContext) (r : Selected) (root : Uint256) :
    ∃ coinbase, assembledBlock ctx r root
        = { uncommittedBlock ctx r root with vtx := coinbase :: r.assembler.vtx.tail } ∧
      coinbase.vout = (rewardTx ctx r).vout
        ++ commitmentOutputs ctx.chain.H ctx.segwitTimeout (uncommittedBlock ctx r root) :=
  generateCoinbaseCommitment_spec ctx.chain.H ctx.chain.params ctx.segwitTimeout ctx.tip rfl

variable {script : CScript} {fuel : ℕ} {w : Bool}

/-- **The first half of `CreateNewBlock`.** -/
lemma selectTransactions_ok {r : Selected} (h : selectTransactions ctx fuel script w s = .ok r s') :
    ∃ s1 s2 entries, ctx.E.rootHash s = .ok r.oldHashStateRoot s1 ∧
      addCasinoToCoinBaseTx ctx.crypto ctx.E ctx.casino (coinbaseTemplate ctx script) ctx.nHeight s1
        = .ok r.originalRewardTx s2 ∧
      Assembled ctx r.originalRewardTx s2 r.assembler s' entries := by
  obtain ⟨old, s1, hroot, h1⟩ := bind_ok.mp h
  obtain ⟨tx, s2, hcasino, h2⟩ := bind_ok.mp h1
  obtain ⟨A, s3, hadd, hend⟩ := bind_ok.mp h2
  cases hend
  obtain ⟨m, _, hloop⟩ := liftExcept_bind_ok.mp hadd
  have hpool : ∀ e ∈ ctx.ancestorScore, e ∈ ctx.pool.mapTx :=
    fun e he => (mem_insertionSort _).mp he
  have hreset : Assembled ctx tx s2 (Assembler.reset tx) s2 [] := ⟨rfl, rfl, rfl, rfl, rfl, by simp⟩
  obtain ⟨entries, hA⟩ := hreset.packageLoop hpool hloop
  exact ⟨s1, s2, entries, hroot, hcasino, hA⟩

/-- **A block that is returned** comes from a selection, and has passed the test. -/
lemma createNewBlock_ok {template : CBlockTemplate}
    (h : createNewBlock ctx fuel script w s = .ok template s') :
    ∃ r s1 root s2, selectTransactions ctx fuel script w s = .ok r s1 ∧
      ctx.E.rootHash s1 = .ok root s2 ∧
      template = blockTemplate ctx r (assembledBlock ctx r root) ∧
      BlockChecked (assembledBlock ctx r root) := by
  obtain ⟨r, s1, hsel, h1⟩ := bind_ok.mp h
  obtain ⟨root, s2, hroot, h2⟩ := bind_ok.mp h1
  obtain ⟨_, s3, _, h3⟩ := bind_ok.mp h2
  obtain ⟨_, s4, htest, hend⟩ := bind_ok.mp h3
  cases hend
  refine ⟨r, s1, root, s2, hsel, hroot, rfl, ?_⟩
  obtain ⟨_, hblock, _⟩ := assembledBlock_eq ctx r root
  exact testBlockValidity_ok (by rw [hblock]; rfl) (mapError_apply_ok.mp htest)

end Steps

end Ybtc
