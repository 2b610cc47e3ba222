import Mathlib.Data.Finmap
import Ybtc.Primitives.Transaction

/-!
# The coins cache

`CCoinsViewCache` from `coins.h` and `coins.cpp`: a map of modified and fetched entries laid over a
parent view.  Reads are not pure — every query first runs `FetchCoin`, which copies the parent's
coin into the cache — so each operation here returns the view it leaves behind.

What the cache *means* is the function `coinAt`: the unspent coin a query through the cache finds at
an outpoint.  The two flags are promises about the parent, which `WF` states: `FRESH` promises that
the parent has no unspent coin there, so that a spent entry may be erased instead of kept as a
tombstone, and an entry without `DIRTY` is what the parent had.  The operations are then
characterised by what they do to `coinAt`.
-/

namespace Ybtc

/-! ## Coins and entries -/

/-- A UTXO entry. -/
structure Coin where
  out : CTxOut
  fCoinBase : Bool
  nHeight : ℕ
deriving Repr, DecidableEq

namespace Coin

/-- The default-constructed coin, also what `Clear` leaves. -/
def empty : Coin := ⟨CTxOut.null, false, 0⟩

/-- `Coin::IsSpent`. -/
def isSpent (c : Coin) : Bool := c.out.isNull

end Coin

/-- A cache entry: the coin and the `DIRTY` and `FRESH` bits of its flags. -/
structure CCoinsCacheEntry where
  coin : Coin
  dirty : Bool
  fresh : Bool
deriving Repr, DecidableEq

/-- A finite map of coins by outpoint. -/
abbrev CoinMap := Finmap fun _ : COutPoint => Coin

/-- `CCoinsMap`. -/
abbrev CCoinsMap := Finmap fun _ : COutPoint => CCoinsCacheEntry

/-- `CCoinsViewCache`.  The parent is represented by the coins its `GetCoin` finds and by its best
    block. -/
structure CCoinsViewCache where
  base : CoinMap
  baseBestBlock : Uint256
  cacheCoins : CCoinsMap
  hashBlock : Uint256

namespace CCoinsViewCache

/-- A new cache over a parent view. -/
def ofBase (base : CoinMap) (bestBlock : Uint256) : CCoinsViewCache :=
  ⟨base, bestBlock, ∅, Uint256.null⟩

variable (v : CCoinsViewCache)

/-- `CCoinsViewCache::GetBestBlock`. -/
def getBestBlock : Uint256 :=
  if v.hashBlock = Uint256.null then v.baseBestBlock else v.hashBlock

/-- `CCoinsViewCache::SetBestBlock`. -/
def setBestBlock (h : Uint256) : CCoinsViewCache := { v with hashBlock := h }

/-! ## Queries -/

/-- The entry `FetchCoin` makes of the parent's coin. -/
def fetchedEntry (c : Coin) : CCoinsCacheEntry := ⟨c, false, c.isSpent⟩

/-- `CCoinsViewCache::FetchCoin`. -/
def fetchCoin (o : COutPoint) : Option CCoinsCacheEntry × CCoinsViewCache :=
  match v.cacheCoins.lookup o with
  | some e => (some e, v)
  | none =>
    match v.base.lookup o with
    | none => (none, v)
    | some tmp =>
      (some (fetchedEntry tmp), { v with cacheCoins := v.cacheCoins.insert o (fetchedEntry tmp) })

/-- `CCoinsViewCache::HaveCoin`. -/
def haveCoin (o : COutPoint) : Bool × CCoinsViewCache :=
  (((v.fetchCoin o).1.map fun e => !e.coin.isSpent).getD false, (v.fetchCoin o).2)

/-- `CCoinsViewCache::AccessCoin`. -/
def accessCoin (o : COutPoint) : Coin × CCoinsViewCache :=
  (((v.fetchCoin o).1.map CCoinsCacheEntry.coin).getD Coin.empty, (v.fetchCoin o).2)

/-! ## Updates -/

/-- `CCoinsViewCache::SpendCoin`: the coin moved out, or `none` for `return false`. -/
def spendCoin (o : COutPoint) : Option Coin × CCoinsViewCache :=
  match v.fetchCoin o with
  | (none, v') => (none, v')
  | (some e, v') =>
    if e.fresh then (some e.coin, { v' with cacheCoins := v'.cacheCoins.erase o })
    else
      (some e.coin, { v' with cacheCoins := v'.cacheCoins.insert o ⟨Coin.empty, true, e.fresh⟩ })

/-- The entry `cacheCoins.emplace` finds, or the default one it makes. -/
def emplaced (o : COutPoint) : CCoinsCacheEntry :=
  (v.cacheCoins.lookup o).getD ⟨Coin.empty, false, false⟩

/-- `CCoinsViewCache::AddCoin`. -/
def addCoin (o : COutPoint) (c : Coin) (possibleOverwrite : Bool) : Except Fault CCoinsViewCache :=
  if c.isSpent then .error .assertion
  else if isUnspendable c.out.scriptPubKey then .ok v
  else if !possibleOverwrite && !(v.emplaced o).coin.isSpent then
    .error (.thrown (.logicError "Adding new coin that replaces non-pruned entry"))
  else
    .ok { v with
      cacheCoins := v.cacheCoins.insert o
        ⟨c, true, (v.emplaced o).fresh || (!possibleOverwrite && !(v.emplaced o).dirty)⟩ }

/-- The loop of `AddCoins` from output `i` on. -/
def addCoinsLoop (txid : Uint256) (fCoinbase : Bool) (nHeight : ℕ) :
    ℕ → List CTxOut → CCoinsViewCache → Except Fault CCoinsViewCache
  | _, [], v => .ok v
  | i, out :: vout, v => do
    let v' ← v.addCoin ⟨txid, i⟩ ⟨out, fCoinbase, nHeight⟩ fCoinbase
    addCoinsLoop txid fCoinbase nHeight (i + 1) vout v'

/-- `AddCoins` with `check = false`: only coinbase outputs may overwrite. -/
def addCoins (H : Hashes) (v : CCoinsViewCache) (tx : CTransaction) (nHeight : ℕ) :
    Except Fault CCoinsViewCache :=
  addCoinsLoop (H.txid tx) tx.isCoinBase nHeight 0 tx.vout v

/-! ## What a view means -/

/-- The unspent coin a query through the view finds. -/
def coinAt (o : COutPoint) : Option Coin :=
  (match v.cacheCoins.lookup o with
    | some e => some e.coin
    | none => v.base.lookup o).filter fun c => !c.isSpent

/-- The outpoints at which the view or its parent may have a coin. -/
def outpoints : Finset COutPoint := v.base.keys ∪ v.cacheCoins.keys

/-- The parent has no unspent coin at an outpoint. -/
def BaseSpent (o : COutPoint) : Prop :=
  ∀ c, v.base.lookup o = some c → c.isSpent = true

/-- **What the flags promise.** -/
structure WF (v : CCoinsViewCache) : Prop where
  /-- Where an entry is `FRESH` the parent has no unspent coin. -/
  fresh : ∀ o e, v.cacheCoins.lookup o = some e → e.fresh = true → v.BaseSpent o
  /-- A spent entry that is not `DIRTY` came from a spent coin of the parent. -/
  clean : ∀ o e, v.cacheCoins.lookup o = some e → e.dirty = false → e.coin.isSpent = true →
    e.fresh = true

lemma wf_ofBase (base : CoinMap) (h : Uint256) : (ofBase base h).WF where
  fresh o e he := by simp [ofBase] at he
  clean o e he := by simp [ofBase] at he

lemma coinAt_unspent {v : CCoinsViewCache} {o : COutPoint} {c : Coin} (h : v.coinAt o = some c) :
    c.isSpent = false := by
  rw [coinAt, Option.filter_eq_some_iff] at h
  simpa using h.2

/-- Where the view shows no coin and the cache has no entry, the parent has none either. -/
lemma baseSpent_of_coinAt_none {v : CCoinsViewCache} {o : COutPoint} (h : v.coinAt o = none)
    (hc : v.cacheCoins.lookup o = none) : v.BaseSpent o := by
  intro c hb
  rw [coinAt, hc, Option.filter_eq_none_iff] at h
  simpa using h c hb

end CCoinsViewCache

end Ybtc
