import Ybtc.Core.Simulation
import Ybtc.Coins.Stack

/-!
# A stack of caches is a plain map

Whatever sequence of operations is performed through the top cache of a stack, the answers are those
of a plain map with the same coins added and removed.  The specification (`plainStep`) keeps one map
per layer, top first: adding and spending change the first map, `Flush` copies the first map onto
the second, a new cache duplicates the first map and a discarded one removes it.  Flags, tombstones
and copies made by queries do not exist there.

The flags are what the proof is about.  `Coherent` adds one promise to `WF`: an entry that is not
`DIRTY` equals what the parent answers, which is why `Uncache` and `Flush` may throw it away.  The
main result is `coinsStack_refines`.
-/

namespace Ybtc

open Function Bool Finmap CoinsView CoinsStack Simulation

open CCoinsViewCache (fetchedEntry)

/-! ## The top of a stack as a single cache -/

namespace CoinsStack

/-- The stack seen from its top cache. -/
def toCache (s : CoinsStack) : CCoinsViewCache :=
  ⟨s.base.flatten, s.base.getBestBlock, s.cacheCoins, s.hashBlock⟩

variable {s s' : CoinsStack} {o p : COutPoint} {c : Coin}

section

variable (s : CoinsStack)

lemma found_view : s.view.found = s.toCache.coinAt := by
  funext o
  unfold view found CCoinsViewCache.coinAt toCache unspent
  cases s.cacheCoins.lookup o with
  | none => rw [lookup_flatten]
  | some e => rfl

/-- A search below leaves the parent's answers. -/
lemma toCache_base (m : CCoinsMap) (o : COutPoint) :
    toCache { s with cacheCoins := m, base := (s.base.getCoin o).2 }
      = { s.toCache with cacheCoins := m } := by
  simp only [toCache, getBestBlock_getCoin, flatten_congr (found_getCoin s.base o)]

variable (o : COutPoint)

lemma toCache_fetchCoin :
    ((s.fetchCoin o).1, (s.fetchCoin o).2.toCache) = s.toCache.fetchCoin o := by
  unfold fetchCoin CCoinsViewCache.fetchCoin
  have hb := toCache_base s
  cases hl : s.cacheCoins.lookup o with
  | some e => simp only [toCache, hl]
  | none =>
    have hg := getCoin_found s.base o
    have hl' : s.toCache.cacheCoins.lookup o = none := hl
    have hf : s.toCache.base.lookup o = s.base.found o := lookup_flatten s.base o
    rw [hl', hf, ← hg]
    rcases hc : s.base.getCoin o with ⟨_ | tmp, base'⟩
    · have := hb s.cacheCoins o
      rw [hc] at this
      exact Prod.ext rfl this
    · have := hb (s.cacheCoins.insert o (fetchedEntry tmp)) o
      rw [hc] at this
      exact Prod.ext rfl this

lemma fetchCoin_fst : (s.fetchCoin o).1 = (s.toCache.fetchCoin o).1 := by
  rw [← toCache_fetchCoin]

lemma fetchCoin_toCache : (s.fetchCoin o).2.toCache = (s.toCache.fetchCoin o).2 := by
  rw [← toCache_fetchCoin]

lemma toCache_spendCoin :
    ((s.spendCoin o).1, (s.spendCoin o).2.toCache) = s.toCache.spendCoin o := by
  unfold spendCoin CCoinsViewCache.spendCoin
  rw [← toCache_fetchCoin]
  rcases s.fetchCoin o with ⟨_ | e, s1⟩
  · rfl
  · simp only
    split_ifs <;> rfl

lemma toCache_addCoin (c : Coin) (ow : Bool) :
    (s.addCoin o c ow).map toCache = s.toCache.addCoin o c ow := by
  unfold addCoin CCoinsViewCache.addCoin
  have he : s.toCache.emplaced o = s.emplaced o := rfl
  rw [he]
  split_ifs <;> rfl

end

end CoinsStack

/-! ## Coherence -/

/-- **What the flags promise**, in full: an entry that is not `DIRTY` is a copy. -/
structure CCoinsViewCache.Coherent (v : CCoinsViewCache) : Prop extends v.WF where
  copied : ∀ o e, v.cacheCoins.lookup o = some e → e.dirty = false →
    v.base.lookup o = some e.coin

namespace CCoinsViewCache

variable {v v' : CCoinsViewCache} {o : COutPoint} {c : Coin}

lemma coherent_empty (h : v.cacheCoins = ∅) : v.Coherent where
  fresh o e he := by simp [h] at he
  clean o e he := by simp [h] at he
  copied o e he := by simp [h] at he

lemma Fetched.coherent (h : Fetched v v') (hv : v.Coherent) : v'.Coherent where
  toWF := h.wf hv.toWF
  copied o e he hd := by
    rw [h.base]
    rcases h.entry he with he | ⟨-, c, hc, rfl⟩
    · exact hv.copied o e he hd
    · exact hc

/-- A view whose entries are old ones or `DIRTY` is coherent if it keeps the other promises. -/
lemma Coherent.of_dirty (hv : v.Coherent) (hw : v'.WF) (hb : v'.base = v.base)
    (h : ∀ o e, v'.cacheCoins.lookup o = some e → e.dirty = false →
      v.cacheCoins.lookup o = some e) : v'.Coherent where
  toWF := hw
  copied o e he hd := hb ▸ hv.copied o e (h o e he hd) hd

lemma Coherent.insert (hv : v.Coherent) {fresh : Bool}
    (hw : WF { v with cacheCoins := v.cacheCoins.insert o ⟨c, true, fresh⟩ }) :
    Coherent { v with cacheCoins := v.cacheCoins.insert o ⟨c, true, fresh⟩ } := by
  refine hv.of_dirty hw rfl ?_
  intro p e he hd
  rcases lookup_insert_cases he with ⟨rfl, -⟩ | he
  · cases hd
  · exact he

lemma Coherent.erase (hv : v.Coherent) (hw : WF { v with cacheCoins := v.cacheCoins.erase o }) :
    Coherent { v with cacheCoins := v.cacheCoins.erase o } := by
  refine hv.of_dirty hw rfl ?_
  intro p e he _
  by_cases hp : p = o
  · subst hp
    rw [lookup_erase] at he
    cases he
  · rwa [lookup_erase_ne hp] at he

lemma spendCoin_coherent (hv : v.Coherent) : (v.spendCoin o).2.Coherent := by
  have hv1 := (fetchCoin_fetched v o).coherent hv
  have hw := (spendCoin_updates hv.toWF o).wf
  rcases spendCoin_cases v o with ⟨-, heq⟩ | ⟨e, m, -, heq, ⟨-, rfl⟩ | rfl⟩ <;> rw [heq] at hw ⊢
  · exact hv1
  · exact hv1.erase hw
  · exact hv1.insert hw

lemma addCoin_coherent {ow : Bool} (hv : v.Coherent) (hw : v'.WF)
    (h : v.addCoin o c ow = .ok v') : v'.Coherent := by
  unfold addCoin at h
  split_ifs at h with h1 h2 h3 <;> injection h with h <;> subst h
  · exact hv
  · exact hv.insert hw

/-- Throwing away a copy changes nothing. -/
lemma coinAt_erase_copy (hv : v.Coherent) {e : CCoinsCacheEntry}
    (he : v.cacheCoins.lookup o = some e) (hd : e.dirty = false) (p : COutPoint) :
    coinAt { v with cacheCoins := v.cacheCoins.erase o } p = v.coinAt p := by
  by_cases hp : p = o
  · subst hp
    simp only [coinAt, lookup_erase, he, hv.copied p e he hd]
  · simp only [coinAt, lookup_erase_ne hp]

/-- The unspent coin `SpendCoin` hands out is the one that was there. -/
lemma unspent_spendCoin (v : CCoinsViewCache) (o : COutPoint) :
    unspent (v.spendCoin o).1 = v.coinAt o := by
  rw [← fetchCoin_coinAt]
  rcases spendCoin_cases v o with ⟨hn, heq⟩ | ⟨e, m, he, heq, -⟩
  · rw [heq, hn]
    rfl
  · rw [heq, he]
    rfl

end CCoinsViewCache

/-- Every cache of the view is coherent. -/
def CoinsView.Coherent : CoinsView → Prop
  | map _ _ => True
  | cache cacheCoins hashBlock base =>
    (toCache ⟨cacheCoins, hashBlock, base⟩).Coherent ∧ base.Coherent

variable (s : CoinsStack) (o : COutPoint)

lemma CoinsStack.view_getCoin : (s.view.getCoin o).2 = (s.fetchCoin o).2.view := by
  unfold view getCoin fetchCoin
  cases s.cacheCoins.lookup o with
  | some e => rfl
  | none => rcases s.base.getCoin o with ⟨_ | c, base'⟩ <;> rfl

lemma CoinsStack.fetchCoin_base :
    (s.fetchCoin o).2.base = s.base ∨ (s.fetchCoin o).2.base = (s.base.getCoin o).2 := by
  unfold fetchCoin
  cases s.cacheCoins.lookup o with
  | some e => exact Or.inl rfl
  | none => rcases s.base.getCoin o with ⟨_ | c, base'⟩ <;> exact Or.inr rfl

lemma CoinsStack.fetchCoin_answers : (s.fetchCoin o).2.base.answers = s.base.answers := by
  rcases s.fetchCoin_base o with h | h
  · rw [h]
  · rw [h, answers_getCoin]

/-- Searching keeps every layer coherent. -/
lemma CoinsView.getCoin_coherent : ∀ (v : CoinsView) (o : COutPoint), v.Coherent →
    (v.getCoin o).2.Coherent := by
  intro v o
  induction v with
  | map coins best => exact fun _ => trivial
  | cache cacheCoins hashBlock base ih =>
    rintro ⟨hv, hb⟩
    have hf := CCoinsViewCache.fetchCoin_fetched (toCache ⟨cacheCoins, hashBlock, base⟩) o
    have hview := view_getCoin ⟨cacheCoins, hashBlock, base⟩ o
    rw [← fetchCoin_toCache] at hf
    rw [show cache cacheCoins hashBlock base = (mk cacheCoins hashBlock base).view from rfl, hview]
    refine ⟨hf.coherent hv, ?_⟩
    rcases fetchCoin_base ⟨cacheCoins, hashBlock, base⟩ o with h | h
    · rw [h]; exact hb
    · rw [h]; exact ih hb

variable {s : CoinsStack}

lemma CoinsStack.fetchCoin_coherent (h : s.view.Coherent) (o : COutPoint) :
    (s.fetchCoin o).2.view.Coherent := by
  rw [← view_getCoin]
  exact getCoin_coherent _ o h

/-! ## Flushing -/

/-- What a flushed entry makes of the coin in the base map. -/
def writtenCoin (us : Option Coin) (e : CCoinsCacheEntry) : Option Coin :=
  if e.dirty then unspent (some e.coin) else us

/-- What a flushed entry makes of the entry in the cache below. -/
def writtenEntry (us : Option CCoinsCacheEntry) (e : CCoinsCacheEntry) : Option CCoinsCacheEntry :=
  if e.dirty then
    match us with
    | none => if e.fresh && e.coin.isSpent then none else some ⟨e.coin, true, e.fresh⟩
    | some us => if us.fresh && e.coin.isSpent then none else some ⟨e.coin, true, us.fresh⟩
  else us

/-- A `FRESH` entry meets no unspent coin. -/
def FreshHonest (us : Option CCoinsCacheEntry) (e : CCoinsCacheEntry) : Prop :=
  e.fresh = true → ∀ u, us = some u → u.coin.isSpent = true

lemma writeCoin_writes (m : CoinMap) (e : Σ _ : COutPoint, CCoinsCacheEntry) :
    Keyed.Writes writtenCoin e m (writeCoin m e) := by
  unfold writeCoin writtenCoin unspent
  split_ifs with hd hs
  · exact ⟨by simp [hd, hs, Option.filter], fun k hk => lookup_erase_ne hk⟩
  · exact ⟨by simp [hd, hs, Option.filter], fun k hk => lookup_insert_of_ne _ hk⟩
  · exact ⟨by simp [hd], fun _ _ => rfl⟩

lemma writeEntry_writes (m : CCoinsMap) (e : Σ _ : COutPoint, CCoinsCacheEntry)
    (h : FreshHonest (m.lookup e.1) e.2) :
    ∃ m', writeEntry m e = .ok m' ∧ Keyed.Writes writtenEntry e m m' := by
  unfold writeEntry
  by_cases hd : e.2.dirty = true
  swap
  · rw [if_neg hd]
    exact ⟨m, rfl, by simp [writtenEntry, hd], fun _ _ => rfl⟩
  rw [if_pos hd]
  cases hl : m.lookup e.1 with
  | none =>
    simp only
    split_ifs with hc
    · exact ⟨m, rfl, by simp [writtenEntry, hd, hl, hc], fun _ _ => rfl⟩
    · exact ⟨_, rfl, by simp [writtenEntry, hd, hl, hc], fun k hk => lookup_insert_of_ne _ hk⟩
  | some us =>
    have hno : ¬ (e.2.fresh && !us.coin.isSpent) = true := by
      intro hb
      rw [and_eq_true] at hb
      rw [h hb.1 us hl] at hb
      exact absurd hb.2 (by decide)
    simp only
    rw [if_neg hno]
    split_ifs with hc
    · exact ⟨_, rfl, by simp [writtenEntry, hd, hl, hc], fun k hk => lookup_erase_ne hk⟩
    · exact ⟨_, rfl, by simp [writtenEntry, hd, hl, hc], fun k hk => lookup_insert_of_ne _ hk⟩

/-- The coin a layer shows, given its entry and what the layers below find. -/
def shown (us : Option CCoinsCacheEntry) (below : Option Coin) : Option Coin :=
  unspent (match us with
    | some e => some e.coin
    | none => below)

lemma found_cache (cacheCoins : CCoinsMap) (hashBlock : Uint256) (base : CoinsView)
    (o : COutPoint) : (cache cacheCoins hashBlock base).found o
      = shown (cacheCoins.lookup o) (base.found o) := rfl

lemma unspent_unspent (c : Option Coin) : unspent (unspent c) = unspent c := by
  unfold unspent
  rw [Option.filter_filter]
  simp only [Bool.and_self]

lemma unspent_shown (us : Option CCoinsCacheEntry) (below : Option Coin) :
    unspent (shown us below) = shown us below := unspent_unspent _

variable {c : Coin}

lemma unspent_eq_none (h : c.isSpent = true) : unspent (some c) = none := by
  simp [unspent, Option.filter, h]

lemma unspent_eq_none_iff {x : Option Coin} :
    unspent x = none ↔ ∀ c, x = some c → c.isSpent = true := by
  unfold unspent
  rw [Option.filter_eq_none_iff]
  exact forall_congr' fun c => by simp

variable {us : Option CCoinsCacheEntry}

/-- **Writing a flushed entry makes the layer show the entry's coin.** -/
lemma shown_writtenEntry {below : Option Coin}
    {e : CCoinsCacheEntry} (hfresh : e.fresh = true → shown us below = none)
    (hus : ∀ u, us = some u → u.fresh = true → unspent below = none)
    (hclean : e.dirty = false → shown us below = some e.coin) :
    shown (writtenEntry us e) below = unspent (some e.coin) := by
  unfold writtenEntry
  by_cases hd : e.dirty = true
  · rw [if_pos hd]
    cases us with
    | none =>
      simp only
      split_ifs with hc
      · rw [and_eq_true] at hc
        rw [hfresh hc.1, unspent_eq_none hc.2]
      · rfl
    | some u =>
      simp only
      split_ifs with hc
      · rw [and_eq_true] at hc
        rw [unspent_eq_none hc.2]
        exact hus u rfl hc.1
      · rfl
  · have hs := hclean (eq_false_iff.mpr hd)
    rw [if_neg hd, ← hs, unspent_shown]

/-- The entries of a layer after a flush into it: old ones, or `DIRTY` ones. -/
lemma writtenEntry_some {e u' : CCoinsCacheEntry} (h : writtenEntry us e = some u') :
    us = some u' ∨ u'.dirty = true ∧
      ((us = none ∧ u'.fresh = e.fresh) ∨ ∃ u, us = some u ∧ u'.fresh = u.fresh) := by
  unfold writtenEntry at h
  by_cases hd : e.dirty = true
  · rw [if_pos hd] at h
    cases us with
    | none =>
      simp only at h
      split_ifs at h with hc
      injection h with h
      subst h
      exact Or.inr ⟨rfl, Or.inl ⟨rfl, rfl⟩⟩
    | some u =>
      simp only at h
      split_ifs at h with hc
      injection h with h
      subst h
      exact Or.inr ⟨rfl, Or.inr ⟨u, rfl, rfl⟩⟩
  · rw [if_neg hd] at h
    exact Or.inl h

/-- What a coherent cache knows of one of its entries. -/
lemma CoinsStack.base_found (hs : s.toCache.Coherent) {o : COutPoint}
    {e : CCoinsCacheEntry} (he : s.cacheCoins.lookup o = some e) :
    (e.fresh = true → unspent (s.base.found o) = none) ∧
      (e.dirty = false → s.base.found o = some e.coin) := by
  refine ⟨?_, ?_⟩
  · intro hf
    rw [unspent_eq_none_iff, ← lookup_flatten]
    exact hs.fresh o e he hf
  · intro hd
    rw [← lookup_flatten]
    exact hs.copied o e he hd

/-- **Flushing into a layer** never meets a misapplied `FRESH` flag, makes the layer answer as the
    flushed cache did, and leaves the layers below alone. -/
lemma batchWrite_spec (hs : s.view.Coherent) {l : List (Σ _ : COutPoint, CCoinsCacheEntry)}
    (hl : Keyed.Enumerates l s.cacheCoins) (hashBlock : Uint256) :
    ∃ base', s.base.batchWrite hashBlock l = .ok base' ∧ base'.Coherent ∧
      (∀ o, unspent (base'.found o) = s.view.found o) ∧
      base'.answers = s.view.found :: s.base.answers.tail := by
  obtain ⟨cc, hb, base⟩ := s
  obtain ⟨htop, hbelow⟩ := hs
  have hent := @base_found ⟨cc, hb, base⟩ htop
  cases base with
  | map coins best =>
    have hw := Keyed.foldl_keyed writeCoin_writes l coins hl.nodup
    have hfound : ∀ o, unspent ((l.foldl writeCoin coins).lookup o)
        = shown (cc.lookup o) (coins.lookup o) := by
      intro o
      cases hc : cc.lookup o with
      | none => rw [hw.lookup_of_none hl hc]; rfl
      | some e =>
        rw [hw.lookup_of_some hl hc, writtenCoin]
        split_ifs with hd
        · exact unspent_unspent _
        · rw [show coins.lookup o = some e.coin from (hent hc).2 (eq_false_iff.mpr hd)]
          rfl
    refine ⟨_, rfl, trivial, hfound, ?_⟩
    simp only [answers, List.tail_cons]
    rw [show (fun o => unspent ((l.foldl writeCoin coins).lookup o))
      = (view ⟨cc, hb, .map coins best⟩).found from funext hfound]
  | cache pc phb pp =>
    obtain ⟨hpar, hpp⟩ := hbelow
    have hpent := @base_found ⟨pc, phb, pp⟩ hpar
    -- The parent's answers are unspent coins, so a `FRESH` entry meets no answer at all.
    have hnone : ∀ {o e}, cc.lookup o = some e → e.fresh = true →
        shown (pc.lookup o) (pp.found o) = none := by
      intro o e he hf
      rw [← unspent_shown]
      exact (hent he).1 hf
    have hpre : ∀ e ∈ l, FreshHonest (pc.lookup e.1) e.2 := by
      intro e he hf u hu
      have hn := hnone (hl.mem_iff.mp he) hf
      rw [hu] at hn
      by_contra hs
      simp [shown, unspent, Option.filter, hs] at hn
    obtain ⟨pc', hpc', hw⟩ := Keyed.foldlM_keyed writeEntry_writes l pc hl.nodup hpre
    have hfound : (cache pc' hashBlock pp).found
        = (view ⟨cc, hb, .cache pc phb pp⟩).found := by
      funext o
      rw [found_cache, view, found_cache]
      cases hc : cc.lookup o with
      | none =>
        rw [hw.lookup_of_none hl hc]
        exact (unspent_shown _ _).symm
      | some e =>
        rw [hw.lookup_of_some hl hc]
        exact shown_writtenEntry (hnone hc) (fun u hu hf => (hpent hu).1 hf) (hent hc).2
    -- An entry of the layer is an old one, or `DIRTY` and honest about the layer below.
    have hentry : ∀ o u', pc'.lookup o = some u' → pc.lookup o = some u' ∨
        u'.dirty = true ∧ (u'.fresh = true → unspent (pp.found o) = none) := by
      intro o u' hu'
      cases hc : cc.lookup o with
      | none => exact Or.inl ((hw.lookup_of_none hl hc).symm.trans hu')
      | some e =>
        rw [hw.lookup_of_some hl hc] at hu'
        rcases writtenEntry_some hu' with h | ⟨hd, ⟨hn, hf⟩ | ⟨u, hu, hf⟩⟩
        · exact Or.inl h
        · refine Or.inr ⟨hd, fun hu'f => ?_⟩
          have := hnone hc (hf ▸ hu'f)
          rwa [hn] at this
        · exact Or.inr ⟨hd, fun hu'f => (hpent hu).1 (hf ▸ hu'f)⟩
    refine ⟨.cache pc' hashBlock pp, ?_, ⟨⟨⟨?_, ?_⟩, ?_⟩, hpp⟩, ?_, ?_⟩
    · simp only [batchWrite, hpc']
      rfl
    · intro o u' hu' hf c hc
      replace hc : pp.found o = some c := (lookup_flatten pp o).symm.trans hc
      rcases hentry o u' hu' with h | ⟨_, h⟩
      · exact unspent_eq_none_iff.mp ((hpent h).1 hf) c hc
      · exact unspent_eq_none_iff.mp (h hf) c hc
    · intro o u' hu' hd hsp
      rcases hentry o u' hu' with h | ⟨hd', _⟩
      · exact hpar.clean o u' h hd hsp
      · rw [hd] at hd'; cases hd'
    · intro o u' hu' hd
      rcases hentry o u' hu' with h | ⟨hd', _⟩
      · exact hpar.copied o u' h hd
      · rw [hd] at hd'; cases hd'
    · intro o
      rw [hfound]
      exact unspent_shown _ _
    · rw [answers, hfound]
      rfl

/-! ## The specification -/

/-- The operations of the top cache, and the two ways in which a stack grows and shrinks. -/
inductive CoinsOp
  | addCoin (o : COutPoint) (c : Coin) (possibleOverwrite : Bool)
  | spendCoin (o : COutPoint)
  | accessCoin (o : COutPoint)
  | haveCoin (o : COutPoint)
  | uncache (o : COutPoint)
  | flush (it : Iteration)
  | newCache
  | dropCache

/-- What an operation tells its caller. -/
inductive CoinsAnswer
  | done
  | coin (c : Option Coin)
  | found (b : Bool)
deriving DecidableEq

/-- One operation on a stack.  A coin that `IsSpent` is no coin. -/
def coinsStep : CoinsOp → EStateM Fault CoinsStack CoinsAnswer
  | .addCoin o c ow => fun s =>
    match s.addCoin o c ow with
    | .ok s' => .ok .done s'
    | .error e => .error e s
  | .spendCoin o => fun s => .ok (.coin (unspent (s.spendCoin o).1)) (s.spendCoin o).2
  | .accessCoin o => fun s => .ok (.coin (unspent (some (s.accessCoin o).1))) (s.accessCoin o).2
  | .haveCoin o => fun s => .ok (.found (s.haveCoin o).1) (s.haveCoin o).2
  | .uncache o => fun s => .ok .done (s.uncache o)
  | .flush it => fun s =>
    match s.flush it with
    | .ok s' => .ok .done s'
    | .error e => .error e s
  | .newCache => fun s => .ok .done (ofView s.view)
  | .dropCache => fun s =>
    match s.drop with
    | .ok s' => .ok .done s'
    | .error e => .error e s

/-- **The specification**: one plain map per layer, the top layer first. -/
def plainStep : CoinsOp → List (COutPoint → Option Coin) →
    Except Fault (CoinsAnswer × List (COutPoint → Option Coin))
  | .addCoin o c _, m :: ms =>
    if c.isSpent then .error .assertion
    else if isUnspendable c.out.scriptPubKey then .ok (.done, m :: ms)
    else .ok (.done, update m o (some c) :: ms)
  | .spendCoin o, m :: ms => .ok (.coin (m o), update m o none :: ms)
  | .accessCoin o, m :: ms => .ok (.coin (m o), m :: ms)
  | .haveCoin o, m :: ms => .ok (.found (m o).isSome, m :: ms)
  | .uncache _, m :: ms => .ok (.done, m :: ms)
  | .flush _, m :: _ :: ms => .ok (.done, m :: m :: ms)
  | .newCache, m :: ms => .ok (.done, m :: m :: ms)
  | .dropCache, _ :: m :: m' :: ms => .ok (.done, m :: m' :: ms)
  | _, _ => .error (.undefined .nullPointer)

/-- `possible_overwrite = false` is promised only where there is no unspent coin. -/
def HonestAdd (ms : List (COutPoint → Option Coin)) : CoinsOp → Prop
  | .addCoin o _ false => ∀ m ∈ ms.head?, m o = none
  | _ => True

/-! ## Every operation matches -/

namespace CoinsStack

/-- The stack is coherent and shows these maps. -/
def Shows (s : CoinsStack) (ms : List (COutPoint → Option Coin)) : Prop :=
  s.view.Coherent ∧ s.view.answers = ms

variable {s s' : CoinsStack} {m : COutPoint → Option Coin} {ms : List (COutPoint → Option Coin)}
  {o : COutPoint}

lemma answers_view : s.view.answers = s.toCache.coinAt :: s.base.answers := by
  rw [← found_view]
  rfl

/-- To show new maps: the top cache is coherent and shows the first, and the rest is as before. -/
lemma Shows.of_top (h : s.Shows ms) (htop : s'.toCache.Coherent) (hbase : s'.base.Coherent)
    (hm : ∀ o, s'.toCache.coinAt o = m o)
    (hanswers : s'.base.answers = s.base.answers) : s'.Shows (m :: ms.tail) := by
  refine ⟨⟨htop, hbase⟩, ?_⟩
  rw [answers_view, hanswers, ← h.2, answers_view, funext hm, List.tail_cons]

lemma Shows.coinAt (h : s.Shows (m :: ms)) : s.toCache.coinAt = m := by
  have ha := h.2
  rw [answers_view] at ha
  exact (List.cons.inj ha).1

/-- A query changes no map. -/
lemma Shows.fetchCoin (h : s.Shows ms) (o : COutPoint) : (s.fetchCoin o).2.Shows ms := by
  refine ⟨fetchCoin_coherent h.1 o, ?_⟩
  rw [← view_getCoin, answers_getCoin, h.2]

lemma haveCoin_fst : (s.haveCoin o).1 = (s.toCache.coinAt o).isSome := by
  rw [← CCoinsViewCache.haveCoin_eq]
  simp only [haveCoin, CCoinsViewCache.haveCoin, fetchCoin_fst]

lemma unspent_accessCoin : unspent (some (s.accessCoin o).1) = s.toCache.coinAt o := by
  have h : (s.accessCoin o).1 = (s.toCache.accessCoin o).1 := by
    simp only [accessCoin, CCoinsViewCache.accessCoin, fetchCoin_fst]
  rw [h]
  cases hc : s.toCache.coinAt o with
  | none => exact unspent_eq_none (CCoinsViewCache.accessCoin_of_none hc)
  | some c =>
    rw [CCoinsViewCache.accessCoin_of_coinAt hc]
    simp [unspent, Option.filter, CCoinsViewCache.coinAt_unspent hc]

lemma spendCoin_base : (s.spendCoin o).2.base = (s.fetchCoin o).2.base := by
  unfold spendCoin
  rcases s.fetchCoin o with ⟨_ | e, s1⟩
  · rfl
  · simp only
    split_ifs <;> rfl

lemma addCoin_base {ow : Bool} (h : s.addCoin o c ow = .ok s') : s'.base = s.base := by
  unfold addCoin at h
  split_ifs at h <;> injection h with h <;> rw [← h]

lemma Shows.spendCoin (h : s.Shows (m :: ms)) (o : COutPoint) :
    (s.spendCoin o).2.Shows (update m o none :: ms) := by
  have hsp : (s.spendCoin o).2.toCache = (s.toCache.spendCoin o).2 :=
    congrArg Prod.snd (toCache_spendCoin s o)
  refine Shows.of_top h ?_ ?_ ?_ ?_
  · rw [hsp]
    exact CCoinsViewCache.spendCoin_coherent h.1.1
  · rw [spendCoin_base]
    exact (fetchCoin_coherent h.1 o).2
  · intro p
    rw [hsp, CCoinsViewCache.spendCoin_coinAt h.1.1.toWF, update_apply, h.coinAt]
  · rw [spendCoin_base, fetchCoin_answers]

/-- Adding a coin where it may overwrite, or where there is none. -/
lemma Shows.addCoin (h : s.Shows (m :: ms)) {ow : Bool} (hn : ow = false → m o = none)
    (hs : c.isSpent = false) (hu : isUnspendable c.out.scriptPubKey = false) :
    ∃ s', s.addCoin o c ow = .ok s' ∧ s'.Shows (update m o (some c) :: ms) := by
  obtain ⟨v', hv', hup⟩ := CCoinsViewCache.addCoin_updates h.1.1.toWF
    (fun how => by rw [h.coinAt]; exact hn how) hs hu
  have hc := toCache_addCoin s o c ow
  rw [hv'] at hc
  cases hadd : s.addCoin o c ow with
  | error e => rw [hadd] at hc; cases hc
  | ok s' =>
    rw [hadd] at hc
    injection hc with hc
    have hcoh := CCoinsViewCache.addCoin_coherent h.1.1 hup.wf hv'
    subst hc
    refine ⟨s', rfl, Shows.of_top h hcoh (addCoin_base hadd ▸ h.1.2) ?_ ?_⟩
    · intro p
      rw [update_apply, ← h.coinAt]
      split_ifs with hp
      · exact hp ▸ hup.self
      · exact hup.other p hp
    · rw [addCoin_base hadd]

lemma Shows.uncache (h : s.Shows (m :: ms)) (o : COutPoint) : (s.uncache o).Shows (m :: ms) := by
  unfold CoinsStack.uncache
  cases hl : s.cacheCoins.lookup o with
  | none => exact h
  | some e =>
    simp only
    split_ifs with hc
    · have hd : e.dirty = false := by
        rw [and_eq_true] at hc
        simpa using hc.1
      refine Shows.of_top h (h.1.1.erase h.1.1.toWF.erase) h.1.2 ?_ rfl
      · intro p
        rw [← h.coinAt]
        exact CCoinsViewCache.coinAt_erase_copy h.1.1 hl hd p
    · exact h

lemma Shows.flush (h : s.Shows (m :: m' :: ms)) (it : Iteration) :
    ∃ s', s.flush it = .ok s' ∧ s'.Shows (m :: m :: ms) := by
  obtain ⟨base', hb, hcoh, hfound, hans⟩ :=
    batchWrite_spec h.1 (it.complete s.cacheCoins) s.hashBlock
  refine ⟨{ s with cacheCoins := ∅, base := base' }, ?_, ⟨⟨?_, hcoh⟩, ?_⟩⟩
  · simp only [CoinsStack.flush, hb]
    rfl
  · exact CCoinsViewCache.coherent_empty rfl
  · have ha := h.2
    rw [answers_view] at ha
    obtain ⟨hm, hrest⟩ := List.cons.inj ha
    rw [answers_view, hans, hrest, List.tail_cons, found_view, hm, ← found_view]
    congr 1
    funext o
    rw [← hm, ← found_view, ← hfound o]
    rfl

lemma Shows.newCache (h : s.Shows (m :: ms)) : (ofView s.view).Shows (m :: m :: ms) := by
  refine ⟨⟨CCoinsViewCache.coherent_empty rfl, h.1⟩, ?_⟩
  rw [answers_view, ← found_view, show (ofView s.view).base = s.view from rfl, h.2]
  congr 1
  rw [← h.coinAt, ← found_view]
  funext o
  exact unspent_shown _ _

lemma Shows.drop {m' m'' : COutPoint → Option Coin} (h : s.Shows (m :: m' :: m'' :: ms)) :
    ∃ s', s.drop = .ok s' ∧ s'.Shows (m' :: m'' :: ms) := by
  obtain ⟨cc, hb, base⟩ := s
  cases base with
  | map coins best => exact absurd (congrArg List.length h.2) (by simp [view, answers])
  | cache pc phb pp => exact ⟨⟨pc, phb, pp⟩, rfl, h.1.2, (List.cons.inj h.2).2⟩

end CoinsStack

/-- **Every operation matches the specification.** -/
lemma coinsStep_matches (op : CoinsOp) (s : CoinsStack) (ms : List (COutPoint → Option Coin))
    (h : s.Shows ms) (hl : HonestAdd ms op) :
    Simulation.Matches CoinsStack.Shows (coinsStep op s) (plainStep op ms) := by
  -- A stack shows at least two maps: its top cache and what lies under it.
  obtain ⟨m, m', ms, rfl⟩ : ∃ m m' ms', ms = m :: m' :: ms' := by
    rw [← h.2, answers_view]
    cases s.base with
    | map coins best | cache pc phb pp => exact ⟨_, _, _, rfl⟩
  cases op with
  | addCoin o c ow =>
    simp only [coinsStep, plainStep]
    cases hs : c.isSpent with
    | true =>
      have : s.addCoin o c ow = .error .assertion := by rw [addCoin, if_pos hs]
      rw [this, if_pos rfl]
      rfl
    | false =>
      cases hu : isUnspendable c.out.scriptPubKey with
      | true =>
        have : s.addCoin o c ow = .ok s := by
          rw [addCoin, if_neg (by simp [hs]), if_pos hu]
        rw [this]
        exact ⟨rfl, h⟩
      | false =>
        have hn : ow = false → m o = none := by
          rintro rfl
          exact hl m rfl
        obtain ⟨s', hs', hsh⟩ := h.addCoin hn hs hu
        rw [hs']
        exact ⟨rfl, hsh⟩
  | spendCoin o =>
    refine ⟨?_, h.spendCoin o⟩
    have : unspent (s.spendCoin o).1 = unspent (s.toCache.spendCoin o).1 :=
      congrArg unspent (congrArg Prod.fst (toCache_spendCoin s o))
    rw [this, CCoinsViewCache.unspent_spendCoin, h.coinAt]
  | accessCoin o =>
    refine ⟨?_, h.fetchCoin o⟩
    rw [unspent_accessCoin, h.coinAt]
  | haveCoin o =>
    refine ⟨?_, h.fetchCoin o⟩
    rw [haveCoin_fst, h.coinAt]
  | uncache o => exact ⟨rfl, h.uncache o⟩
  | flush it =>
    obtain ⟨s', hs', hsh⟩ := h.flush it
    simp only [coinsStep, hs']
    exact ⟨rfl, hsh⟩
  | newCache => exact ⟨rfl, h.newCache⟩
  | dropCache =>
    cases ms with
    | nil =>
      obtain ⟨cc, hb, base⟩ := s
      cases base with
      | map coins best => rfl
      | cache pc phb pp =>
        have hlen := congrArg List.length h.2
        cases pp <;> simp [view, answers] at hlen
    | cons m'' ms =>
      obtain ⟨s', hs', hsh⟩ := h.drop
      simp only [coinsStep, hs']
      exact ⟨rfl, hsh⟩

/-- The specification fails on a coin that is none, and where there is no layer to work on. -/
lemma plainStep_error (op : CoinsOp) (ms : List (COutPoint → Option Coin)) (e : Fault)
    (h : plainStep op ms = .error e) : e = .assertion ∨ e = .undefined .nullPointer := by
  unfold plainStep at h
  split at h <;> try split_ifs at h
  all_goals simp_all

/-- **A stack of caches refines a plain map.**  For every base map and every sequence of operations
    in which `possible_overwrite = false` is promised only where there is no unspent coin, the run
    through the stack gives the same answers as the plain maps and ends showing the same maps; and
    neither exception of the cache is ever thrown. -/
theorem coinsStack_refines (base : CoinMap) (best : Uint256) (ops : List CoinsOp)
    (hlegal : Simulation.LegalRun plainStep HonestAdd
      [fun o => unspent (base.lookup o), fun o => unspent (base.lookup o)] ops) :
    Simulation.Matches (fun s ms => s.view.answers = ms)
        (runAll coinsStep ops (ofView (.map base best)))
        (specRun plainStep ops
          [fun o => unspent (base.lookup o), fun o => unspent (base.lookup o)]) ∧
      ∀ e s', runAll coinsStep ops (ofView (.map base best)) ≠ .error (.thrown e) s' := by
  have hrun := runAll_matches coinsStep_matches ops (ofView (.map base best))
    [fun o => unspent (base.lookup o), fun o => unspent (base.lookup o)]
    ⟨⟨CCoinsViewCache.coherent_empty rfl, trivial⟩, rfl⟩ hlegal
  refine ⟨hrun.mono fun s ms h => h.2, ?_⟩
  intro e s' herr
  rw [herr] at hrun
  cases hspec : specRun plainStep ops
      [fun o => unspent (base.lookup o), fun o => unspent (base.lookup o)] with
  | ok r => rw [hspec] at hrun; exact hrun
  | error f =>
    have hf := specRun_error plainStep_error ops _ f hspec
    rw [hspec] at hrun
    obtain rfl : Fault.thrown e = f := hrun
    rcases hf with hf | hf <;> cases hf

/-- Some order in which a hash table could hand out its entries. -/
noncomputable def Iteration.arbitrary : Iteration where
  toList m := m.entries.toList
  complete m := Multiset.coe_toList m.entries

/-- A coin worth 50. -/
def sampleCoin : Coin := ⟨⟨50, []⟩, false, 1⟩

/-- A coin is added, spent and added again through a second cache, which is then flushed. -/
theorem coinsStack_refines_sample : ∃ s, runAll coinsStep
    [.addCoin ⟨1#256, 0⟩ sampleCoin false, .newCache, .spendCoin ⟨1#256, 0⟩,
      .addCoin ⟨1#256, 0⟩ sampleCoin false, .flush Iteration.arbitrary, .dropCache,
      .accessCoin ⟨1#256, 0⟩]
    (ofView (.map ∅ Uint256.null))
      = .ok [.done, .done, .coin (some sampleCoin), .done, .done, .done,
          .coin (some sampleCoin)] s := by
  have hspent : sampleCoin.isSpent = false := by decide
  have huns : isUnspendable sampleCoin.out.scriptPubKey = false := by decide
  obtain ⟨s, hs, _⟩ := matches_ok (coinsStack_refines ∅ Uint256.null
    [.addCoin ⟨1#256, 0⟩ sampleCoin false, .newCache, .spendCoin ⟨1#256, 0⟩,
      .addCoin ⟨1#256, 0⟩ sampleCoin false, .flush Iteration.arbitrary, .dropCache,
      .accessCoin ⟨1#256, 0⟩]
    (by simp [Simulation.LegalRun, plainStep, HonestAdd, hspent, huns, unspent])).1
  exact ⟨s, hs⟩

end Ybtc
