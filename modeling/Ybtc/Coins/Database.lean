import Ybtc.Core.Overwrite
import Ybtc.Coins.Refinement
import Ybtc.Coins.UtxoSet

/-!
# The coins database

`CCoinsViewDB` from `txdb.cpp`: the coins, the best block, and — while a flush is under way — the
two head blocks between which the database is in transition.  `BatchWrite` writes the modified
entries in several batches: the first one erases the best block and records the heads, the last one
does the opposite, and a crash in between leaves some of the entries written.
-/

namespace Ybtc

open CCoinsViewCache

/-- `CCoinsViewDB`: the coins and the records `DB_BEST_BLOCK` and `DB_HEAD_BLOCKS`. -/
structure CCoinsViewDB where
  coins : CoinMap
  bestBlock : Option Uint256
  headBlocks : Option (List Uint256)

namespace CCoinsViewDB

variable (db : CCoinsViewDB)

/-- `CCoinsViewDB::GetBestBlock`. -/
def getBestBlock : Uint256 := db.bestBlock.getD Uint256.null

/-- `CCoinsViewDB::GetHeadBlocks`. -/
def getHeadBlocks : List Uint256 := db.headBlocks.getD []

/-- The block the transition starts from; in the middle of a replay it is read from the heads. -/
def oldTip (hashBlock : Uint256) : Except Fault Uint256 :=
  if db.getBestBlock = Uint256.null then
    match db.getHeadBlocks with
    | [h0, h1] => if h0 = hashBlock then .ok h1 else .error .assertion
    | _ => .ok Uint256.null
  else .ok db.getBestBlock

/-- `CCoinsViewDB::BatchWrite`. -/
def batchWrite (entries : List (Σ _ : COutPoint, CCoinsCacheEntry))
    (hashBlock : Uint256) : Except Fault CCoinsViewDB := do
  Fallible.failIf (hashBlock = Uint256.null) .assertion
  let _ ← db.oldTip hashBlock
  .ok ⟨entries.foldl writeCoin db.coins, some hashBlock, none⟩

/-- `BatchWrite` cut off after the batches with the entries `written`. -/
def interruptedBatchWrite
    (written : List (Σ _ : COutPoint, CCoinsCacheEntry)) (hashBlock : Uint256) :
    Except Fault CCoinsViewDB := do
  Fallible.failIf (hashBlock = Uint256.null) .assertion
  let old ← db.oldTip hashBlock
  .ok ⟨written.foldl writeCoin db.coins, none, some [hashBlock, old]⟩

/-- A cache over the database. -/
def newCache : CCoinsViewCache := ofBase db.coins db.getBestBlock

end CCoinsViewDB

/-- **A database in the middle of a transition** from the coins of one tip to those of another. -/
structure Interrupted (db : CCoinsViewDB) (new old : Uint256) (newCoins oldCoins : UtxoSet) :
    Prop where
  known : new ≠ Uint256.null
  heads : db.headBlocks = some [new, old]
  best : db.bestBlock = none
  coins : Overwrite.Mixture oldCoins newCoins fun o => db.coins.lookup o

/-- The coins a database may hold: none of them is spent. -/
def CCoinsViewDB.Unspent (db : CCoinsViewDB) : Prop :=
  ∀ o c, db.coins.lookup o = some c → c.isSpent = false

variable {db db' : CCoinsViewDB} {l written : List (Σ _ : COutPoint, CCoinsCacheEntry)}

/-- **What a cut-off flush leaves is a mixture** of the coins from before and after. -/
lemma interrupted_mixture (hn : (l.map Sigma.fst).Nodup) (hsub : written.Sublist l) :
    Overwrite.Mixture (fun o => db.coins.lookup o) (fun o => (l.foldl writeCoin db.coins).lookup o)
      fun o => (written.foldl writeCoin db.coins).lookup o := by
  have hw := Keyed.foldl_keyed writeCoin_writes l db.coins hn
  have hw' := Keyed.foldl_keyed writeCoin_writes written db.coins (hn.sublist (hsub.map _))
  intro o
  by_cases ho : o ∈ written.map Sigma.fst
  · obtain ⟨e, he, rfl⟩ := List.mem_map.mp ho
    exact Or.inr ((hw'.self e he).trans (hw.self e (hsub.subset he)).symm)
  · exact Or.inl (hw'.other o ho)

/-- A crash during `BatchWrite` leaves a database in transition. -/
lemma interrupted_of_batchWrite {hashBlock old : Uint256} (hn : (l.map Sigma.fst).Nodup)
    (hsub : written.Sublist l) (hold : db.oldTip hashBlock = .ok old)
    (h : db.interruptedBatchWrite written hashBlock = .ok db') :
    Interrupted db' hashBlock old (fun o => (l.foldl writeCoin db.coins).lookup o)
      fun o => db.coins.lookup o := by
  simp only [CCoinsViewDB.interruptedBatchWrite, Fallible.bind_unit_ok,
    Fallible.failIf_ok, hold] at h
  obtain ⟨hknown, h⟩ := h
  cases h
  exact ⟨hknown, rfl, rfl, interrupted_mixture hn hsub⟩

/-- **A coherent cache over the database is flushed into it.** -/
lemma batchWrite_coins {v : CCoinsViewCache} (hv : v.Coherent) (hb : v.base = db.coins)
    (hu : db.Unspent) (hl : Keyed.Enumerates l v.cacheCoins) (o : COutPoint) :
    (l.foldl writeCoin db.coins).lookup o = v.coinAt o := by
  have hw := Keyed.foldl_keyed writeCoin_writes l db.coins hl.nodup
  have hbase : ∀ x, db.coins.lookup o = x → x.filter (fun c => !c.isSpent) = x := by
    intro x hx
    cases x with
    | none => rfl
    | some c => simp [Option.filter, hu o c hx]
  unfold coinAt
  cases hc : v.cacheCoins.lookup o with
  | none =>
    rw [hw.lookup_of_none hl hc, hb]
    exact (hbase _ rfl).symm
  | some e =>
    rw [hw.lookup_of_some hl hc, writtenCoin]
    split_ifs with hd
    · rfl
    · have hcopy := hv.copied o e hc (Bool.eq_false_iff.mpr hd)
      rw [hb] at hcopy
      rw [hcopy]
      exact (hbase _ hcopy).symm

end Ybtc
