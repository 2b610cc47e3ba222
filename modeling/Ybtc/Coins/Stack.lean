import Ybtc.Core.Keyed
import Ybtc.Coins.Meaning

/-!
# Stacks of coins caches

The node never uses one cache alone: `pcoinsTip` lies over the database, `ConnectTip` and
`DisconnectTip` put a second cache over it, `CreateNewBlock` a third.  A query through the top cache
runs down the stack until some layer knows the coin and leaves a copy in every cache it passed;
`Flush` hands the modified entries to the layer below and empties the cache.
-/

namespace Ybtc

open Finmap

open CCoinsViewCache (fetchedEntry)

/-! ## Views -/

/-- A base map with any number of caches over it. -/
inductive CoinsView
  | map (coins : CoinMap) (bestBlock : Uint256)
  | cache (cacheCoins : CCoinsMap) (hashBlock : Uint256) (base : CoinsView)

/-- The coin if it is unspent. -/
def unspent (c : Option Coin) : Option Coin := c.filter fun c => !c.isSpent

namespace CoinsView

/-- `CCoinsView::GetCoin`: the coin found, and the view with the copies the search has made. -/
def getCoin : CoinsView → COutPoint → Option Coin × CoinsView
  | map coins best, o => (coins.lookup o, map coins best)
  | cache cacheCoins hashBlock base, o =>
    match cacheCoins.lookup o with
    | some e => (unspent (some e.coin), cache cacheCoins hashBlock base)
    | none =>
      match base.getCoin o with
      | (none, base') => (none, cache cacheCoins hashBlock base')
      | (some tmp, base') =>
        (unspent (some tmp), cache (cacheCoins.insert o (fetchedEntry tmp)) hashBlock base')

/-- `CCoinsView::GetBestBlock`. -/
def getBestBlock : CoinsView → Uint256
  | map _ best => best
  | cache _ hashBlock base => if hashBlock = Uint256.null then base.getBestBlock else hashBlock

end CoinsView

/-! ## Writing a batch -/

/-- An order in which a hash table hands out its entries. -/
structure Iteration where
  toList : CCoinsMap → List (Σ _ : COutPoint, CCoinsCacheEntry)
  complete : ∀ m, Keyed.Enumerates (toList m) m

/-- One entry of the loop of `CCoinsViewDB::BatchWrite`. -/
def writeCoin (coins : CoinMap) (entry : Σ _ : COutPoint, CCoinsCacheEntry) : CoinMap :=
  if entry.2.dirty then
    if entry.2.coin.isSpent then coins.erase entry.1 else coins.insert entry.1 entry.2.coin
  else coins

/-- One entry of the loop of `CCoinsViewCache::BatchWrite`. -/
def writeEntry (cacheCoins : CCoinsMap) (entry : Σ _ : COutPoint, CCoinsCacheEntry) :
    Except Fault CCoinsMap :=
  if entry.2.dirty then
    match cacheCoins.lookup entry.1 with
    | none =>
      if entry.2.fresh && entry.2.coin.isSpent then .ok cacheCoins
      else .ok (cacheCoins.insert entry.1 ⟨entry.2.coin, true, entry.2.fresh⟩)
    | some us =>
      if entry.2.fresh && !us.coin.isSpent then
        .error (.thrown (.logicError
          "FRESH flag misapplied to cache entry for base transaction with spendable outputs"))
      else if us.fresh && entry.2.coin.isSpent then .ok (cacheCoins.erase entry.1)
      else .ok (cacheCoins.insert entry.1 ⟨entry.2.coin, true, us.fresh⟩)
  else .ok cacheCoins

/-- `CCoinsView::BatchWrite`, with the entries in whatever order the hash table hands them out. -/
def CoinsView.batchWrite (hashBlock : Uint256)
    (entries : List (Σ _ : COutPoint, CCoinsCacheEntry)) :
    CoinsView → Except Fault CoinsView
  | map coins _ => .ok (map (entries.foldl writeCoin coins) hashBlock)
  | cache cacheCoins _ base => do
    let cacheCoins' ← entries.foldlM writeEntry cacheCoins
    .ok (cache cacheCoins' hashBlock base)

/-! ## The operations of the top cache -/

/-- A view whose top layer is a cache. -/
structure CoinsStack where
  cacheCoins : CCoinsMap
  hashBlock : Uint256
  base : CoinsView

namespace CoinsStack

variable (s : CoinsStack)

/-- The stack as a view that another cache can be put on. -/
def view : CoinsView := .cache s.cacheCoins s.hashBlock s.base

/-- A new cache over a view. -/
def ofView (base : CoinsView) : CoinsStack := ⟨∅, Uint256.null, base⟩

/-- `CCoinsViewCache::FetchCoin`. -/
def fetchCoin (o : COutPoint) : Option CCoinsCacheEntry × CoinsStack :=
  match s.cacheCoins.lookup o with
  | some e => (some e, s)
  | none =>
    match s.base.getCoin o with
    | (none, base') => (none, { s with base := base' })
    | (some tmp, base') =>
      (some (fetchedEntry tmp),
        { s with cacheCoins := s.cacheCoins.insert o (fetchedEntry tmp), base := base' })

/-- `CCoinsViewCache::HaveCoin`. -/
def haveCoin (o : COutPoint) : Bool × CoinsStack :=
  (((s.fetchCoin o).1.map fun e => !e.coin.isSpent).getD false, (s.fetchCoin o).2)

/-- `CCoinsViewCache::AccessCoin`. -/
def accessCoin (o : COutPoint) : Coin × CoinsStack :=
  (((s.fetchCoin o).1.map CCoinsCacheEntry.coin).getD Coin.empty, (s.fetchCoin o).2)

/-- `CCoinsViewCache::SpendCoin`. -/
def spendCoin (o : COutPoint) : Option Coin × CoinsStack :=
  match s.fetchCoin o with
  | (none, s') => (none, s')
  | (some e, s') =>
    if e.fresh then (some e.coin, { s' with cacheCoins := s'.cacheCoins.erase o })
    else
      (some e.coin, { s' with cacheCoins := s'.cacheCoins.insert o ⟨Coin.empty, true, e.fresh⟩ })

/-- The entry `cacheCoins.emplace` finds, or the default one it makes. -/
def emplaced (o : COutPoint) : CCoinsCacheEntry :=
  (s.cacheCoins.lookup o).getD ⟨Coin.empty, false, false⟩

/-- `CCoinsViewCache::AddCoin`. -/
def addCoin (o : COutPoint) (c : Coin) (possibleOverwrite : Bool) : Except Fault CoinsStack :=
  if c.isSpent then .error .assertion
  else if isUnspendable c.out.scriptPubKey then .ok s
  else if !possibleOverwrite && !(s.emplaced o).coin.isSpent then
    .error (.thrown (.logicError "Adding new coin that replaces non-pruned entry"))
  else
    .ok { s with
      cacheCoins := s.cacheCoins.insert o
        ⟨c, true, (s.emplaced o).fresh || (!possibleOverwrite && !(s.emplaced o).dirty)⟩ }

/-- `CCoinsViewCache::Uncache`. -/
def uncache (o : COutPoint) : CoinsStack :=
  match s.cacheCoins.lookup o with
  | some e =>
    if !e.dirty && !e.fresh then { s with cacheCoins := s.cacheCoins.erase o } else s
  | none => s

/-- `CCoinsViewCache::Flush`. -/
def flush (it : Iteration) : Except Fault CoinsStack := do
  let base' ← s.base.batchWrite s.hashBlock (it.toList s.cacheCoins)
  .ok { s with cacheCoins := ∅, base := base' }

/-- The top cache goes out of scope. -/
def drop : Except Fault CoinsStack :=
  match s.base with
  | .map _ _ => .error (.undefined .nullPointer)
  | .cache cacheCoins hashBlock base => .ok ⟨cacheCoins, hashBlock, base⟩

end CoinsStack

/-! ## What a view answers -/

namespace CoinsView

/-- What `GetCoin` finds. -/
def found : CoinsView → COutPoint → Option Coin
  | map coins _, o => coins.lookup o
  | cache cacheCoins _ base, o =>
    unspent (match cacheCoins.lookup o with
      | some e => some e.coin
      | none => base.found o)

/-- The outpoints some layer knows. -/
def outpoints : CoinsView → Finset COutPoint
  | map coins _ => coins.keys
  | cache cacheCoins _ base => cacheCoins.keys ∪ base.outpoints

lemma mem_outpoints {v : CoinsView} {o : COutPoint} (h : (v.found o).isSome) : o ∈ v.outpoints := by
  induction v with
  | map coins best => exact mem_keys.mpr (lookup_isSome.mp h)
  | cache cacheCoins hashBlock base ih =>
    unfold outpoints
    rw [Finset.mem_union]
    cases hl : cacheCoins.lookup o with
    | some e => exact Or.inl (mem_keys.mpr (mem_of_lookup_eq_some hl))
    | none =>
      refine Or.inr (ih ?_)
      simp only [found, hl, unspent] at h
      obtain ⟨c, hc⟩ := Option.isSome_iff_exists.mp h
      rw [Option.filter_eq_some_iff] at hc
      rw [hc.1]
      rfl

/-- The answers of a view as a map. -/
def flatten (v : CoinsView) : CoinMap :=
  Finmap.keysLookupEquiv.symm
    ⟨(v.outpoints.filter fun o => (v.found o).isSome, v.found), by
      intro o
      rw [Finset.mem_filter]
      exact ⟨fun h => ⟨mem_outpoints h, h⟩, fun h => h.2⟩⟩

@[simp] lemma lookup_flatten (v : CoinsView) (o : COutPoint) : v.flatten.lookup o = v.found o :=
  keysLookupEquiv_symm_apply_lookup _ _

lemma flatten_congr {v w : CoinsView} (h : v.found = w.found) : v.flatten = w.flatten := by
  refine ext_lookup ?_
  intro o
  rw [lookup_flatten, lookup_flatten, h]

/-- The views of the layers, top first, each as a function. -/
def answers : CoinsView → List (COutPoint → Option Coin)
  | map coins _ => [fun o => unspent (coins.lookup o)]
  | cache cacheCoins hashBlock base => (cache cacheCoins hashBlock base).found :: base.answers

lemma getCoin_found : ∀ (v : CoinsView) (o : COutPoint), (v.getCoin o).1 = v.found o := by
  intro v o
  induction v with
  | map coins best => rfl
  | cache cacheCoins hashBlock base ih =>
    unfold getCoin found
    cases cacheCoins.lookup o with
    | some e => rfl
    | none =>
      simp only [← ih]
      rcases base.getCoin o with ⟨_ | c, base'⟩ <;> rfl

/-- A search changes no answer. -/
lemma found_getCoin : ∀ (v : CoinsView) (o : COutPoint), (v.getCoin o).2.found = v.found := by
  intro v o
  induction v with
  | map coins best => rfl
  | cache cacheCoins hashBlock base ih =>
    have hg := getCoin_found base o
    unfold getCoin
    cases hl : cacheCoins.lookup o with
    | some e => rfl
    | none =>
      rcases hb : base.getCoin o with ⟨_ | c, base'⟩ <;> rw [hb] at ih hg <;> simp only at ih hg
      · funext p
        simp only [found, ih]
      · funext p
        by_cases hp : p = o
        · subst hp
          simp only [found, lookup_insert, hl, ← hg, fetchedEntry]
        · simp only [found, lookup_insert_of_ne _ hp, ih]

lemma answers_getCoin : ∀ (v : CoinsView) (o : COutPoint), (v.getCoin o).2.answers = v.answers := by
  intro v o
  induction v with
  | map coins best => rfl
  | cache cacheCoins hashBlock base ih =>
    have hf := found_getCoin (cache cacheCoins hashBlock base) o
    revert hf
    unfold getCoin
    cases cacheCoins.lookup o with
    | some e => exact fun _ => rfl
    | none =>
      rcases hb : base.getCoin o with ⟨_ | c, base'⟩ <;> rw [hb] at ih <;> intro hf <;>
        simp only at hf ih ⊢
      · rw [answers, answers, hf, ih]
      · rw [answers, answers, hf, ih]

lemma getBestBlock_getCoin : ∀ (v : CoinsView) (o : COutPoint),
    (v.getCoin o).2.getBestBlock = v.getBestBlock := by
  intro v o
  induction v with
  | map coins best => rfl
  | cache cacheCoins hashBlock base ih =>
    unfold getCoin
    cases cacheCoins.lookup o with
    | some e => rfl
    | none =>
      rcases hb : base.getCoin o with ⟨_ | c, base'⟩ <;> rw [hb] at ih <;>
        simp only [getBestBlock] at ih ⊢ <;> rw [ih]

end CoinsView

end Ybtc
