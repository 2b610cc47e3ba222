import Ybtc.Coins.Inputs

/-!
# The UTXO set a view stands for

A view is used for what it answers, so what `UpdateCoins` does is best said about the answers: a set
of unspent coins as a function from outpoints.  A transaction takes some outpoints out (`spendAll`)
and puts its outputs in (`addAll`); the outputs nobody can spend are never stored, so what it puts
in is the partial function `created`.  The main result is `updateCoins_coinAt`.
-/

namespace Ybtc

open CCoinsViewCache List

/-- A set of unspent coins. -/
abbrev UtxoSet := COutPoint → Option Coin

/-! ## Transactions as functions -/

/-- The coins of the outputs `vout`, numbered from `i` on. -/
def createdFrom (txid : Uint256) (fCoinBase : Bool) (nHeight : ℕ) (i : ℕ) (vout : List CTxOut) :
    UtxoSet := fun o =>
  if o.hash = txid ∧ i ≤ o.n then
    ((vout[o.n - i]?).filter fun out => !isUnspendable out.scriptPubKey).map
      fun out => ⟨out, fCoinBase, nHeight⟩
  else none

/-- The coins a transaction creates. -/
def created (H : Hashes) (nHeight : ℕ) (tx : CTransaction) : UtxoSet :=
  createdFrom (H.txid tx) tx.isCoinBase nHeight 0 tx.vout

/-- The outpoints a transaction spends. -/
def CTransaction.spends (tx : CTransaction) : List COutPoint :=
  if tx.isCoinBase then [] else tx.prevouts

namespace UtxoSet

/-- Some outpoints taken out. -/
def spendAll (os : List COutPoint) (f : UtxoSet) : UtxoSet := fun o => if o ∈ os then none else f o

/-- Some coins put in. -/
def addAll (new f : UtxoSet) : UtxoSet := fun o => (new o).or (f o)

/-- The outpoints of some coins taken out. -/
def removeAll (old f : UtxoSet) : UtxoSet := fun o => if (old o).isSome then none else f o

/-- What a transaction does. -/
def applyTx (H : Hashes) (nHeight : ℕ) (tx : CTransaction) (f : UtxoSet) : UtxoSet :=
  addAll (created H nHeight tx) (spendAll tx.spends f)

/-- Taking out what was put in where nothing was. -/
lemma removeAll_addAll {new f : UtxoSet} (h : ∀ o, (new o).isSome → f o = none) :
    removeAll new (addAll new f) = f := by
  funext o
  unfold removeAll addAll
  cases hn : new o with
  | none => rfl
  | some c => exact (h o (by rw [hn]; rfl)).symm

end UtxoSet

open UtxoSet

/-! ## The created coins, output by output -/

variable {txid : Uint256} {cb : Bool} {nHeight i : ℕ} {vout : List CTxOut}

lemma createdFrom_nil (txid : Uint256) (cb : Bool) (nHeight i : ℕ) (o : COutPoint) :
    createdFrom txid cb nHeight i [] o = none := by
  simp [createdFrom]

lemma createdFrom_self (txid : Uint256) (cb : Bool) (nHeight i : ℕ) (out : CTxOut)
    (vout : List CTxOut) : createdFrom txid cb nHeight i (out :: vout) ⟨txid, i⟩
      = if isUnspendable out.scriptPubKey then none else some ⟨out, cb, nHeight⟩ := by
  unfold createdFrom
  cases h : isUnspendable out.scriptPubKey <;> simp [Option.filter, h]

variable {out : CTxOut} {o : COutPoint}

lemma createdFrom_of_ne (h : o ≠ ⟨txid, i⟩) :
    createdFrom txid cb nHeight i (out :: vout) o = createdFrom txid cb nHeight (i + 1) vout o := by
  unfold createdFrom
  by_cases hh : o.hash = txid
  · have hne : o.n ≠ i := by
      rintro rfl
      exact h (by cases o; simp_all)
    by_cases hi : i ≤ o.n
    · rw [if_pos ⟨hh, hi⟩, if_pos ⟨hh, by omega⟩, show o.n - i = (o.n - (i + 1)) + 1 by omega,
        getElem?_cons_succ]
    · rw [if_neg (fun hc => hi hc.2), if_neg (fun hc => hi (by omega))]
  · rw [if_neg (fun hc => hh hc.1), if_neg (fun hc => hh hc.1)]

/-- Later outputs have other outpoints. -/
lemma createdFrom_succ_self (txid : Uint256) (cb : Bool) (nHeight i : ℕ) (vout : List CTxOut) :
    createdFrom txid cb nHeight (i + 1) vout ⟨txid, i⟩ = none := by
  unfold createdFrom
  rw [if_neg (by simp)]

/-- An output nobody can spend creates no coin. -/
lemma createdFrom_skip (h : isUnspendable out.scriptPubKey = true) :
    createdFrom txid cb nHeight i (out :: vout) = createdFrom txid cb nHeight (i + 1) vout := by
  funext o
  by_cases ho : o = ⟨txid, i⟩
  · subst ho
    rw [createdFrom_self, if_pos h, createdFrom_succ_self]
  · exact createdFrom_of_ne ho

/-- An output that can be spent creates its coin. -/
lemma addAll_createdFrom {f g : UtxoSet} (hu : isUnspendable out.scriptPubKey = false)
    (hself : g ⟨txid, i⟩ = some ⟨out, cb, nHeight⟩) (hother : ∀ o, o ≠ ⟨txid, i⟩ → g o = f o) :
    addAll (createdFrom txid cb nHeight (i + 1) vout) g
      = addAll (createdFrom txid cb nHeight i (out :: vout)) f := by
  funext o
  unfold addAll
  by_cases ho : o = ⟨txid, i⟩
  · subst ho
    rw [createdFrom_self, hu, createdFrom_succ_self, hself]
    rfl
  · rw [createdFrom_of_ne ho, hother o ho]

/-- A created coin belongs to an output of the transaction that can be spent. -/
lemma createdFrom_some {c : Coin} (h : createdFrom txid cb nHeight i vout o = some c) :
    o.hash = txid ∧ i ≤ o.n ∧ o.n < i + vout.length ∧ c.nHeight = nHeight ∧
      isUnspendable c.out.scriptPubKey = false ∧ c.out ∈ vout := by
  unfold createdFrom at h
  split_ifs at h with hc
  rw [Option.map_eq_some_iff] at h
  obtain ⟨out, hout, rfl⟩ := h
  rw [Option.filter_eq_some_iff] at hout
  obtain ⟨hget, hsp⟩ := hout
  obtain ⟨hlt, hmem⟩ := List.getElem?_eq_some_iff.mp hget
  refine ⟨hc.1, hc.2, by omega, rfl, by simpa using hsp, ?_⟩
  rw [← hmem]
  exact getElem_mem hlt

/-! ## `UpdateCoins` -/

/-- **The undo data of distinct inputs are the coins that were there.** -/
lemma spendLoop_undo : ∀ {vin : List CTxIn} {v v' : CCoinsViewCache} {undo : List Coin},
    v.WF → (vin.map CTxIn.prevout).Nodup → (∀ o ∈ vin.map CTxIn.prevout, v.coinAt o ≠ none) →
    spendLoop vin v = .ok (undo, v') →
      undo.map some = (vin.map CTxIn.prevout).map v.coinAt
  | [], v, v', undo, _, _, _, h => by
    obtain ⟨rfl, -⟩ := Prod.mk.inj (Except.ok.inj h)
    rfl
  | txin :: vin, v, v', undo, hw, hnd, hcoins, h => by
    rw [map_cons, nodup_cons] at hnd
    rw [map_cons, forall_mem_cons] at hcoins
    obtain ⟨c, hc⟩ := Option.ne_none_iff_exists'.mp hcoins.1
    obtain ⟨c', undo', v1, hsp, rfl, hup, hrec⟩ := spendLoop_cons hw h
    cases (spendCoin_of_coinAt hc).symm.trans hsp
    -- The remaining outpoints are other ones, so their coins have not changed yet.
    have hsame : ∀ o ∈ vin.map CTxIn.prevout, v1.coinAt o = v.coinAt o :=
      fun o ho => hup.other o (fun he => hnd.1 (he ▸ ho))
    have ih :=
      spendLoop_undo hup.wf hnd.2 (fun o ho => by rw [hsame o ho]; exact hcoins.2 o ho) hrec
    rw [map_cons, map_cons, map_cons, ih, hc]
    exact congrArg _ (map_congr_left hsame)

/-- What adding outputs does, coin by coin: nothing it creates was there before. -/
lemma addCoinsLoop_coinAt : ∀ {vout : List CTxOut} {i : ℕ} {v v' : CCoinsViewCache},
    Addable txid cb i vout.length v → addCoinsLoop txid cb nHeight i vout v = .ok v' →
      Evolves v v' ∧ v'.coinAt = addAll (createdFrom txid cb nHeight i vout) v.coinAt ∧
      ∀ o, (createdFrom txid cb nHeight i vout o).isSome → v.coinAt o = none
  | [], i, v, v', ha, h => by
    cases h
    refine ⟨Evolves.refl ha.wf, ?_, ?_⟩
    · funext o
      simp [addAll, createdFrom_nil]
    · intro o ho
      simp [createdFrom_nil] at ho
  | out :: vout, i, v, v', ha, h => by
    obtain ⟨v1, hrec, ha1, hcase⟩ := addCoinsLoop_cons ha h
    obtain ⟨hev, hsame, hfree⟩ := addCoinsLoop_coinAt ha1 hrec
    rcases hcase with ⟨hu, rfl⟩ | ⟨hu, hn, hup⟩
    · rw [createdFrom_skip hu]
      exact ⟨hev, hsame, hfree⟩
    · refine ⟨hup.evolves.trans hev, hsame.trans (addAll_createdFrom hu hup.self hup.other), ?_⟩
      intro o ho
      by_cases hoi : o = ⟨txid, i⟩
      · rw [hoi]
        exact hn
      · rw [createdFrom_of_ne hoi] at ho
        rw [← hup.other o hoi]
        exact hfree o ho

/-- **`UpdateCoins` is `applyTx` on the answers.**  The undo data are the coins at the spent
    outpoints, and what is created was not there before. -/
lemma updateCoins_coinAt {H : Hashes} {tx : CTransaction} {v v' : CCoinsViewCache}
    {undo : List Coin} (hw : v.WF) (hs : ∀ i, i < tx.vout.length → v.NoShadow ⟨H.txid tx, i⟩)
    (hcb : tx.isCoinBase = true → ∀ i, i < tx.vout.length → v.coinAt ⟨H.txid tx, i⟩ = none)
    (hnd : tx.spends.Nodup) (hcoins : ∀ o ∈ tx.spends, v.coinAt o ≠ none)
    (h : updateCoins H tx v nHeight = .ok (undo, v')) :
    Evolves v v' ∧ v'.coinAt = applyTx H nHeight tx v.coinAt ∧
      undo.map some = tx.spends.map v.coinAt ∧
      ∀ o, (created H nHeight tx o).isSome → spendAll tx.spends v.coinAt o = none := by
  simp only [updateCoins, Fallible.bind_ok, Prod.exists, Except.ok.injEq, Prod.mk.injEq] at h
  obtain ⟨undo', v1, hspend, v2, hadd, rfl, rfl⟩ := h
  -- The inputs first.
  have hspent : Evolves v v1 ∧ v1.coinAt = spendAll tx.spends v.coinAt ∧
      undo'.map some = tx.spends.map v.coinAt := by
    unfold spendInputs at hspend
    unfold CTransaction.spends at hnd hcoins ⊢
    split_ifs at hspend hnd hcoins ⊢ with hc
    · cases Except.ok.inj hspend
      exact ⟨Evolves.refl hw, by funext o; simp [spendAll], rfl⟩
    · obtain ⟨hev, hin, hout⟩ := spendLoop_spec hw hspend
      refine ⟨hev, ?_, spendLoop_undo hw hnd hcoins hspend⟩
      funext o
      unfold spendAll
      split_ifs with ho
      · exact hin o ho
      · exact hout o ho
  obtain ⟨hev, hcoinAt, hundo⟩ := hspent
  obtain ⟨hev', hadded, hfree⟩ := addCoinsLoop_coinAt ⟨hev.wf,
    fun j _ hj => hev.noShadow _ (hs j (by omega)), fun hc j _ hj => by
      rw [hcoinAt]
      unfold spendAll
      split_ifs
      · rfl
      · exact hcb hc j (by omega)⟩ hadd
  rw [hcoinAt] at hadded hfree
  exact ⟨hev.trans hev', hadded, hundo, hfree⟩

end Ybtc
