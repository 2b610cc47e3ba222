import Ybtc.Core.Ledger
import Ybtc.Coins.Cache

/-!
# What the cache operations mean

Each operation of `CCoinsViewCache` is characterised by its effect on `coinAt`, the unspent coin
found at an outpoint, and by what it leaves of the flags' promises (`WF`).

Queries are handled once and for all by the relation `Fetched v v'`: `v'` differs from `v` only in
entries copied from the parent.  It is reflexive and transitive, it keeps `coinAt` and `WF`, and
every query is an instance of it, so a function that only reads never has to be looked into again.

`NoShadow v o` is the one extra fact `AddCoin` needs.  `AddCoin` does not ask the parent: where the
cache has no entry it assumes that there is nothing below.
-/

namespace Ybtc

open Finmap Option Ledger

namespace CCoinsViewCache

variable {v v' v'' : CCoinsViewCache} {o p : COutPoint} {c : Coin}

/-! ## Reading -/

/-- `v'` is `v` after some queries. -/
structure Fetched (v v' : CCoinsViewCache) : Prop where
  base : v'.base = v.base
  baseBestBlock : v'.baseBestBlock = v.baseBestBlock
  hashBlock : v'.hashBlock = v.hashBlock
  kept : ∀ o e, v.cacheCoins.lookup o = some e → v'.cacheCoins.lookup o = some e
  copied : ∀ o e, v.cacheCoins.lookup o = none → v'.cacheCoins.lookup o = some e →
    ∃ c, v.base.lookup o = some c ∧ e = fetchedEntry c

namespace Fetched

lemma refl (v : CCoinsViewCache) : Fetched v v where
  base := rfl
  baseBestBlock := rfl
  hashBlock := rfl
  kept _ _ h := h
  copied o e h h' := by rw [h] at h'; cases h'

/-- An entry is an old one, or a copy. -/
lemma entry (h : Fetched v v') {e : CCoinsCacheEntry} (he : v'.cacheCoins.lookup o = some e) :
    v.cacheCoins.lookup o = some e ∨
      v.cacheCoins.lookup o = none ∧ ∃ c, v.base.lookup o = some c ∧ e = fetchedEntry c := by
  cases hv : v.cacheCoins.lookup o with
  | none => exact Or.inr ⟨rfl, h.copied o e hv he⟩
  | some e' => exact Or.inl ((h.kept o e' hv).symm.trans he)

lemma trans (h : Fetched v v') (h' : Fetched v' v'') : Fetched v v'' where
  base := h'.base.trans h.base
  baseBestBlock := h'.baseBestBlock.trans h.baseBestBlock
  hashBlock := h'.hashBlock.trans h.hashBlock
  kept o e he := h'.kept o e (h.kept o e he)
  copied o e hn he := by
    rcases h'.entry he with he | ⟨-, c, hc, rfl⟩
    · exact h.copied o e hn he
    · exact ⟨c, h.base ▸ hc, rfl⟩

/-- **Queries change no answer.** -/
lemma coinAt (h : Fetched v v') (o : COutPoint) : v'.coinAt o = v.coinAt o := by
  unfold CCoinsViewCache.coinAt
  cases hv : v.cacheCoins.lookup o with
  | some e => rw [h.kept o e hv]
  | none =>
    cases hv' : v'.cacheCoins.lookup o with
    | none => simp only [h.base]
    | some e =>
      obtain ⟨c, hc, rfl⟩ := h.copied o e hv hv'
      simp only [hc, fetchedEntry]

lemma wf (h : Fetched v v') (hw : v.WF) : v'.WF where
  fresh o e he hf := by
    intro c hc
    rw [h.base] at hc
    rcases h.entry he with he | ⟨-, c', hc', rfl⟩
    · exact hw.fresh o e he hf c hc
    · cases hc'.symm.trans hc
      exact hf
  clean o e he hd hs := by
    rcases h.entry he with he | ⟨-, c', -, rfl⟩
    · exact hw.clean o e he hd hs
    · exact hs

end Fetched

variable {x : Option Coin} {ow : Bool}

lemma fetchCoin_fetched (v : CCoinsViewCache) (o : COutPoint) : Fetched v (v.fetchCoin o).2 := by
  unfold fetchCoin
  split
  · exact Fetched.refl v
  · next hn =>
      split
      · exact Fetched.refl v
      · next tmp hb =>
          refine ⟨rfl, rfl, rfl, ?_, ?_⟩
          · intro p e he
            have hpo : p ≠ o := by rintro rfl; rw [hn] at he; cases he
            rw [lookup_insert_of_ne _ hpo, he]
          · intro p e hp he
            by_cases hpo : p = o
            · subst hpo
              rw [lookup_insert] at he
              exact ⟨tmp, hb, (some.inj he).symm⟩
            · rw [lookup_insert_of_ne _ hpo, hp] at he
              cases he

/-- The entry `FetchCoin` returns is the one the view then holds. -/
lemma fetchCoin_lookup (v : CCoinsViewCache) (o : COutPoint) :
    (v.fetchCoin o).2.cacheCoins.lookup o = (v.fetchCoin o).1 := by
  unfold fetchCoin
  split
  · next e he => exact he
  · next hn =>
      split
      · exact hn
      · exact lookup_insert _

/-- What `FetchCoin` returns, in terms of `coinAt`. -/
lemma fetchCoin_coinAt (v : CCoinsViewCache) (o : COutPoint) :
    ((v.fetchCoin o).1.map CCoinsCacheEntry.coin).filter (fun c => !c.isSpent) = v.coinAt o := by
  unfold fetchCoin coinAt
  cases hv : v.cacheCoins.lookup o with
  | some e => rfl
  | none =>
    cases hb : v.base.lookup o with
    | none => rfl
    | some c => rfl

lemma fetchCoin_of_coinAt (h : v.coinAt o = some c) :
    ∃ e, (v.fetchCoin o).1 = some e ∧ e.coin = c := by
  rw [← fetchCoin_coinAt, filter_eq_some_iff, map_eq_some_iff] at h
  exact h.1

lemma haveCoin_fetched (v : CCoinsViewCache) (o : COutPoint) : Fetched v (v.haveCoin o).2 :=
  fetchCoin_fetched v o

lemma accessCoin_fetched (v : CCoinsViewCache) (o : COutPoint) : Fetched v (v.accessCoin o).2 :=
  fetchCoin_fetched v o

lemma haveCoin_eq (v : CCoinsViewCache) (o : COutPoint) :
    (v.haveCoin o).1 = (v.coinAt o).isSome := by
  rw [← fetchCoin_coinAt, haveCoin]
  cases (v.fetchCoin o).1 with
  | none => rfl
  | some e => cases h : e.coin.isSpent <;> simp [Option.filter, h]

lemma accessCoin_of_coinAt (h : v.coinAt o = some c) : (v.accessCoin o).1 = c := by
  obtain ⟨e, he, hc⟩ := fetchCoin_of_coinAt h
  simp [accessCoin, he, hc]

lemma accessCoin_of_none (h : v.coinAt o = none) : (v.accessCoin o).1.isSpent = true := by
  rw [← fetchCoin_coinAt, filter_eq_none_iff] at h
  unfold accessCoin
  cases he : (v.fetchCoin o).1 with
  | none => rfl
  | some e => simpa using h e.coin (by simp [he])

/-! ## Writing -/

/-- Where the cache has no entry, the parent has no unspent coin that a new entry would hide. -/
def NoShadow (v : CCoinsViewCache) (o : COutPoint) : Prop :=
  v.cacheCoins.lookup o = none → v.BaseSpent o

lemma noShadow_of_coinAt_none (h : v.coinAt o = none) : v.NoShadow o := baseSpent_of_coinAt_none h

lemma Fetched.noShadow (h : Fetched v v') (hs : v.NoShadow o) : v'.NoShadow o := by
  intro hn c hc
  rw [h.base] at hc
  refine hs ?_ c hc
  cases hv : v.cacheCoins.lookup o with
  | none => rfl
  | some e => rw [h.kept o e hv] at hn; cases hn

/-- **`v'` is `v` with the answer at `o` replaced by `x`**, and nothing else changed. -/
structure Updates (v v' : CCoinsViewCache) (o : COutPoint) (x : Option Coin) : Prop where
  base : v'.base = v.base
  baseBestBlock : v'.baseBestBlock = v.baseBestBlock
  hashBlock : v'.hashBlock = v.hashBlock
  self : v'.coinAt o = x
  other : ∀ p, p ≠ o → v'.coinAt p = v.coinAt p
  wf : v'.WF
  noShadow : ∀ p, v.NoShadow p → v'.NoShadow p

/-- The flags of the other entries do not depend on the erased one. -/
lemma WF.erase (hw : v.WF) : WF { v with cacheCoins := v.cacheCoins.erase o } := by
  have hold : ∀ p e, (v.cacheCoins.erase o).lookup p = some e → v.cacheCoins.lookup p = some e := by
    intro p e he
    by_cases hp : p = o
    · subst hp; rw [lookup_erase] at he; cases he
    · rwa [lookup_erase_ne hp] at he
  exact ⟨fun p e he hf => hw.fresh p e (hold p e he) hf, fun p e he => hw.clean p e (hold p e he)⟩

/-- Erasing a `FRESH` entry removes the coin: the parent has none to show in its place. -/
lemma updates_erase (hw : v.WF) (h : v.BaseSpent o) :
    Updates v { v with cacheCoins := v.cacheCoins.erase o } o none where
  base := rfl
  baseBestBlock := rfl
  hashBlock := rfl
  self := by
    simp only [coinAt, lookup_erase, filter_eq_none_iff]
    intro c hc
    simp [h c hc]
  other _ hp := by simp only [coinAt, lookup_erase_ne hp]
  wf := hw.erase
  noShadow p hs := by
    intro hn
    by_cases hp : p = o
    · subst hp; exact h
    · rw [lookup_erase_ne hp] at hn
      exact hs hn

lemma lookup_insert_cases {m : CCoinsMap} {e x : CCoinsCacheEntry}
    (h : (m.insert o x).lookup p = some e) : e = x ∧ p = o ∨ m.lookup p = some e := by
  by_cases hp : p = o
  · subst hp
    rw [lookup_insert] at h
    exact Or.inl ⟨(some.inj h).symm, rfl⟩
  · rw [lookup_insert_of_ne _ hp] at h
    exact Or.inr h

/-- Writing a `DIRTY` entry replaces the answer, provided its `FRESH` bit tells the truth. -/
lemma updates_insert (hw : v.WF) {c : Coin} {fresh : Bool} (h : fresh = true → v.BaseSpent o) :
    Updates v { v with cacheCoins := v.cacheCoins.insert o ⟨c, true, fresh⟩ } o
      ((some c).filter fun c => !c.isSpent) where
  base := rfl
  baseBestBlock := rfl
  hashBlock := rfl
  self := by simp only [coinAt, lookup_insert]
  other _ hp := by simp only [coinAt, lookup_insert_of_ne _ hp]
  wf := by
    refine ⟨?_, ?_⟩
    · intro p e he hf
      rcases lookup_insert_cases he with ⟨rfl, rfl⟩ | he
      · exact h hf
      · exact hw.fresh p e he hf
    · intro p e he hd
      rcases lookup_insert_cases he with ⟨rfl, -⟩ | he
      · cases hd
      · exact hw.clean p e he hd
  noShadow p hs := by
    intro hn
    by_cases hp : p = o
    · subst hp; rw [lookup_insert] at hn; cases hn
    · rw [lookup_insert_of_ne _ hp] at hn
      exact hs hn

lemma Fetched.updates (h : Fetched v v') (h' : Updates v' v'' o x) : Updates v v'' o x where
  base := h'.base.trans h.base
  baseBestBlock := h'.baseBestBlock.trans h.baseBestBlock
  hashBlock := h'.hashBlock.trans h.hashBlock
  self := h'.self
  other p hp := (h'.other p hp).trans (h.coinAt p)
  wf := h'.wf
  noShadow p hs := h'.noShadow p (h.noShadow hs)

/-- What `SpendCoin` does to the view it has searched. -/
lemma spendCoin_cases (v : CCoinsViewCache) (o : COutPoint) :
    ((v.fetchCoin o).1 = none ∧ v.spendCoin o = (none, (v.fetchCoin o).2)) ∨
      ∃ e m, (v.fetchCoin o).1 = some e ∧
        v.spendCoin o = (some e.coin, { (v.fetchCoin o).2 with cacheCoins := m }) ∧
        (e.fresh = true ∧ m = (v.fetchCoin o).2.cacheCoins.erase o ∨
          m = (v.fetchCoin o).2.cacheCoins.insert o ⟨Coin.empty, true, false⟩) := by
  unfold spendCoin
  rcases v.fetchCoin o with ⟨_ | e, v1⟩
  · exact Or.inl ⟨rfl, rfl⟩
  · simp only
    cases hf : e.fresh with
    | true => exact Or.inr ⟨e, _, rfl, rfl, Or.inl ⟨hf, rfl⟩⟩
    | false => exact Or.inr ⟨e, _, rfl, rfl, Or.inr rfl⟩

/-- **`SpendCoin` leaves no coin behind**, whether it found an unspent coin, the tombstone of one
    spent before, or nothing. -/
lemma spendCoin_updates (hw : v.WF) (o : COutPoint) : Updates v (v.spendCoin o).2 o none := by
  have hf := fetchCoin_fetched v o
  have hl := fetchCoin_lookup v o
  have hw1 := hf.wf hw
  rcases spendCoin_cases v o with ⟨hn, heq⟩ | ⟨e, m, he, heq, ⟨hfr, rfl⟩ | rfl⟩ <;> rw [heq]
  · have hnone : v.coinAt o = none := by
      rw [← fetchCoin_coinAt, hn]
      rfl
    exact hf.updates ⟨rfl, rfl, rfl, (hf.coinAt o).trans hnone, fun _ _ => rfl, hw1, fun _ h => h⟩
  · exact hf.updates (updates_erase hw1 (hw1.fresh o e (hl.trans he) hfr))
  · exact hf.updates (updates_insert hw1 fun hb => nomatch hb)

/-- Where there is an unspent coin, `SpendCoin` succeeds and hands it out. -/
lemma spendCoin_of_coinAt (h : v.coinAt o = some c) : (v.spendCoin o).1 = some c := by
  obtain ⟨e, he, rfl⟩ := fetchCoin_of_coinAt h
  rcases spendCoin_cases v o with ⟨hn, -⟩ | ⟨e', m, he', heq, -⟩
  · cases hn.symm.trans he
  · cases he'.symm.trans he
    rw [heq]

/-- `AddCoin` of a spendable coin, where it may overwrite or there is nothing to overwrite. -/
lemma addCoin_updates (hw : v.WF) (hn : ow = false → v.coinAt o = none) (hs : c.isSpent = false)
    (hu : isUnspendable c.out.scriptPubKey = false) :
    ∃ v', v.addCoin o c ow = .ok v' ∧ Updates v v' o (some c) := by
  have hx : (some c).filter (fun c => !c.isSpent) = some c := by simp [Option.filter, hs]
  have hfree : ow = false → (v.emplaced o).coin.isSpent = true := by
    intro how
    have hnone := hn how
    unfold emplaced
    cases hl : v.cacheCoins.lookup o with
    | none => rfl
    | some e =>
      rw [coinAt, hl, filter_eq_none_iff] at hnone
      simpa using hnone e.coin rfl
  refine ⟨{ v with
    cacheCoins := v.cacheCoins.insert o
      ⟨c, true, (v.emplaced o).fresh || (!ow && !(v.emplaced o).dirty)⟩ }, ?_, ?_⟩
  · unfold addCoin
    rw [if_neg (by simp [hs]), if_neg (by simp [hu]), if_neg]
    cases ow with
    | true => simp
    | false => simp [hfree rfl]
  · rw [← hx]
    refine updates_insert hw ?_
    intro hf
    rw [Bool.or_eq_true] at hf
    cases hl : v.cacheCoins.lookup o with
    | none =>
      -- Without an entry the bit is set only on the promise that there is no coin.
      cases ow with
      | true => simp [emplaced, hl] at hf
      | false => exact baseSpent_of_coinAt_none (hn rfl) hl
    | some e =>
      simp only [emplaced, hl, getD_some, Bool.and_eq_true, Bool.not_eq_true'] at hf hfree
      rcases hf with hf | ⟨how, hd⟩
      · exact hw.fresh o e hl hf
      · exact hw.fresh o e hl (hw.clean o e hl hd (hfree how))

/-- **`AddCoin` without permission to overwrite** succeeds on a spendable coin only where the view
    shows none — unless the parent has a coin the cache has not looked up. -/
lemma coinAt_none_of_addCoin (hs : v.NoShadow o) (hu : isUnspendable c.out.scriptPubKey = false)
    (h : v.addCoin o c false = .ok v') : v.coinAt o = none := by
  unfold addCoin at h
  split_ifs at h with hsp hu' ho
  · exact absurd hu' (Bool.eq_false_iff.mp hu)
  · rw [coinAt, filter_eq_none_iff]
    cases hl : v.cacheCoins.lookup o with
    | none =>
      intro c' hc'
      simp [hs hl c' hc']
    | some e =>
      intro c' hc'
      simp only [emplaced, hl, getD_some, Bool.not_false, Bool.true_and] at ho
      injection hc' with hc'
      subst hc'
      simpa using ho

/-- Both at once: a successful `AddCoin` adds exactly its coin, or nothing if no one could ever
    spend it. -/
lemma addCoin_cases (hw : v.WF) (hs : v.NoShadow o) (hcb : ow = true → v.coinAt o = none)
    (h : v.addCoin o c ow = .ok v') :
    (isUnspendable c.out.scriptPubKey = true ∧ v' = v) ∨
      (isUnspendable c.out.scriptPubKey = false ∧ v.coinAt o = none ∧
        Updates v v' o (some c)) := by
  cases hu : isUnspendable c.out.scriptPubKey with
  | true =>
    refine Or.inl ⟨rfl, ?_⟩
    rw [addCoin, if_pos hu] at h
    split_ifs at h
    exact (Except.ok.inj h).symm
  | false =>
    have hn : v.coinAt o = none := by
      cases ow with
      | true => exact hcb rfl
      | false => exact coinAt_none_of_addCoin hs hu h
    have hs : c.isSpent = false := by
      unfold addCoin at h
      split_ifs at h with hs
      all_goals exact Bool.eq_false_iff.mpr hs
    obtain ⟨v'', hadd, hup⟩ := addCoin_updates hw (fun _ => hn) hs hu
    cases hadd.symm.trans h
    exact Or.inr ⟨rfl, hn, hup⟩

/-- What `SpendCoin` does to the answers, whatever it returns. -/
lemma spendCoin_coinAt (hw : v.WF) (p : COutPoint) :
    (v.spendCoin o).2.coinAt p = if p = o then none else v.coinAt p := by
  split_ifs with hp
  · exact hp ▸ (spendCoin_updates hw o).self
  · exact (spendCoin_updates hw o).other p hp

/-- What every sequence of updates keeps. -/
structure Evolves (v v' : CCoinsViewCache) : Prop where
  base : v'.base = v.base
  baseBestBlock : v'.baseBestBlock = v.baseBestBlock
  hashBlock : v'.hashBlock = v.hashBlock
  wf : v'.WF
  noShadow : ∀ p, v.NoShadow p → v'.NoShadow p

lemma Evolves.refl (hw : v.WF) : Evolves v v := ⟨rfl, rfl, rfl, hw, fun _ h => h⟩

lemma Evolves.trans (h : Evolves v v') (h' : Evolves v' v'') : Evolves v v'' :=
  ⟨h'.base.trans h.base, h'.baseBestBlock.trans h.baseBestBlock, h'.hashBlock.trans h.hashBlock,
    h'.wf, fun p hp => h'.noShadow p (h.noShadow p hp)⟩

lemma Fetched.evolves (h : Fetched v v') (hw : v.WF) : Evolves v v' :=
  ⟨h.base, h.baseBestBlock, h.hashBlock, h.wf hw, fun _ hp => h.noShadow hp⟩

lemma Updates.evolves (h : Updates v v' o x) : Evolves v v' :=
  ⟨h.base, h.baseBestBlock, h.hashBlock, h.wf, h.noShadow⟩

/-! ## The value of a view -/

lemma outpoints_supports (v : CCoinsViewCache) : Supports v.outpoints v.coinAt := by
  intro o h
  unfold outpoints
  rw [Finset.mem_union, mem_keys, mem_keys]
  by_contra hno
  rw [not_or] at hno
  apply h
  rw [coinAt, lookup_eq_none.mpr hno.2, lookup_eq_none.mpr hno.1]
  rfl

/-- The value of a coin. -/
def coinValue (c : Coin) : CAmount := c.out.nValue

/-- **The sum of the values of all unspent outputs.** -/
def utxoTotal (v : CCoinsViewCache) : CAmount := total coinValue v.coinAt v.outpoints

/-- The value found at an outpoint, zero if there is none. -/
def valueAt (v : CCoinsViewCache) (o : COutPoint) : CAmount := held coinValue v.coinAt o

lemma valueAt_of_coinAt (h : v.coinAt o = some c) : v.valueAt o = c.out.nValue := by
  simp [valueAt, held, h, coinValue]

lemma valueAt_of_none (h : v.coinAt o = none) : v.valueAt o = 0 := held_of_none h

lemma Fetched.valueAt (h : Fetched v v') : v'.valueAt = v.valueAt := by
  funext o
  simp only [CCoinsViewCache.valueAt, held, h.coinAt]

lemma Fetched.utxoTotal (h : Fetched v v') : v'.utxoTotal = v.utxoTotal :=
  total_congr v.outpoints_supports v'.outpoints_supports h.coinAt

lemma Updates.utxoTotal (h : Updates v v' o x) :
    v'.utxoTotal + v.valueAt o = v.utxoTotal + v'.valueAt o :=
  total_change v.outpoints_supports v'.outpoints_supports h.other

end CCoinsViewCache

end Ybtc
