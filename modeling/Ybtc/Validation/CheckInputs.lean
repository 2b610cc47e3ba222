import Ybtc.Consensus.TxVerify

/-!
# Script checks and `CheckInputs`

`CheckInputs` from `validation.cpp`.  After the inexpensive checks it either runs one `CScriptCheck`
per input on the spot, or — when the caller passes a vector — only *makes* these checks and leaves
running them to the caller.  Either way nothing is made or run when the script execution cache
remembers the transaction.

What a `CScriptCheck` computes is a parameter here (`ScriptEngine`): nothing in this part of the
program depends on it.  What matters is which checks are run, so `CheckedInputs` records them, and
`checkInputs_spec` says for each mode what an accepted call has established.
-/

namespace Ybtc

open Fallible CCoinsViewCache

/-- `CScriptCheck`: everything one input's script verification depends on. -/
structure CScriptCheck where
  scriptPubKey : CScript
  amount : CAmount
  tx : CTransaction
  nIn : ℕ
  nFlags : ℕ
  cacheStore : Bool
deriving Repr, DecidableEq

/-- `CScriptCheck::operator()`: `none` for success, otherwise the text of the script error. -/
structure ScriptEngine where
  run : CScriptCheck → Option String

/-- A check succeeds. -/
def ScriptEngine.Passes (E : ScriptEngine) (check : CScriptCheck) : Prop := E.run check = none

instance (E : ScriptEngine) (check : CScriptCheck) : Decidable (E.Passes check) :=
  inferInstanceAs (Decidable (_ = _))

/-- The script execution cache, as its users see it.  `contains` with the erase argument only marks
    the entry as free to be overwritten by a later insertion. -/
structure ScriptCache where
  State : Type
  contains : State → Uint256 → Bool
  insert : State → Uint256 → State
  markErase : State → Uint256 → State
  contains_markErase : ∀ s k k', contains (markErase s k) k' = contains s k'

/-- `STANDARD_NOT_MANDATORY_VERIFY_FLAGS`: the standard flags 1 to 4 and 6 to 15, without the
    mandatory `SCRIPT_VERIFY_P2SH`. -/
def standardNotMandatoryVerifyFlags : ℕ := 0xffde

/-- `flags & ~mask`. -/
def clearFlags (flags mask : ℕ) : ℕ := flags ^^^ (flags &&& mask)

/-- One check run inline: on failure the check is tried again without the flags that are not
    mandatory, only to choose the rejection. -/
def runInline (E : ScriptEngine) (check : CScriptCheck) : Checked Unit :=
  match E.run check with
  | none => .ok ()
  | some err =>
    if check.nFlags &&& standardNotMandatoryVerifyFlags ≠ 0 ∧
        E.Passes { check with
          nFlags := clearFlags check.nFlags standardNotMandatoryVerifyFlags } then
      .error (.reject (.inval .nonstandard ("non-mandatory-script-verify-flag (" ++ err ++ ")")))
    else
      .error (.reject (.dos 100 .invalid
        ("mandatory-script-verify-flag-failed (" ++ err ++ ")") false))

variable {check : CScriptCheck} {E : ScriptEngine} {u : Unit}

lemma runInline_ok : runInline E check = .ok u ↔ E.Passes check := by
  unfold runInline ScriptEngine.Passes
  cases E.run check with
  | none => simp
  | some err =>
    simp only [reduceCtorEq, iff_false]
    split_ifs <;> simp

/-- A check is run on the spot unless it is left to the caller. -/
def runUnless (E : ScriptEngine) (deferred : Bool) (check : CScriptCheck) : Checked Unit :=
  if deferred then .ok () else runInline E check

lemma runUnless_ok {deferred : Bool} :
    runUnless E deferred check = .ok u ↔ deferred = true ∨ E.Passes check := by
  cases deferred with
  | true => simp [runUnless]
  | false => simp [runUnless, runInline_ok]

/-- The loop over the inputs: each coin gives a check, which is run unless it is `deferred` to the
    caller. -/
def scriptCheckLoop (E : ScriptEngine) (tx : CTransaction) (flags : ℕ)
    (cacheSigStore deferred : Bool) : ℕ → List Coin → Checked (List CScriptCheck)
  | _, [] => .ok []
  | i, c :: coins => do
    assertThat (c.isSpent = false)
    runUnless E deferred ⟨c.out.scriptPubKey, c.out.nValue, tx, i, flags, cacheSigStore⟩
    let rest ← scriptCheckLoop E tx flags cacheSigStore deferred (i + 1) coins
    .ok (⟨c.out.scriptPubKey, c.out.nValue, tx, i, flags, cacheSigStore⟩ :: rest)

/-- What an accepting `CheckInputs` leaves: the view, the cache, the checks it made (and ran, unless
    deferred), and whether the cache spared it making any. -/
structure CheckedInputs (C : ScriptCache) where
  view : CCoinsViewCache
  cache : C.State
  checks : List CScriptCheck
  cacheHit : Bool

/-- `CheckInputs` for a transaction that is not a coinbase; `deferred` is `pvChecks != nullptr`. -/
def checkInputs (H : Hashes) (E : ScriptEngine) (C : ScriptCache) (tx : CTransaction)
    (inputs : CCoinsViewCache) (nSpendHeight : ℕ) (fScriptChecks : Bool) (flags : ℕ)
    (cacheSigStore cacheFullScriptStore : Bool) (cache : C.State) (deferred : Bool) :
    Checked (CheckedInputs C) := do
  let v ← checkTxInputs tx inputs nSpendHeight
  if !fScriptChecks then .ok ⟨v, cache, [], false⟩
  else
    let key := H.scriptCacheKey (H.getWitnessHash tx) flags
    if C.contains cache key then
      .ok ⟨v, if cacheFullScriptStore then cache else C.markErase cache key, [], true⟩
    else
      let checks ← scriptCheckLoop E tx flags cacheSigStore deferred 0 (accessCoins tx.vin v).1
      .ok ⟨(accessCoins tx.vin v).2,
        if cacheFullScriptStore && !deferred then C.insert cache key else cache, checks, false⟩

/-! ## What an accepted call has established -/

/-- The check of the `i`-th input against the coin it spends. -/
def checkFor (v : CCoinsViewCache) (tx : CTransaction) (flags : ℕ) (cacheSigStore : Bool)
    (i : ℕ) (txin : CTxIn) : CScriptCheck :=
  let c := (v.coinAt txin.prevout).getD Coin.empty
  ⟨c.out.scriptPubKey, c.out.nValue, tx, i, flags, cacheSigStore⟩

/-- All checks of a transaction, in the order of its inputs. -/
def checksOf (v : CCoinsViewCache) (tx : CTransaction) (flags : ℕ) (cacheSigStore : Bool) :
    List CScriptCheck :=
  tx.vin.zipIdx.map fun p => checkFor v tx flags cacheSigStore p.2 p.1

variable {H : Hashes} {E : ScriptEngine} {C : ScriptCache} {tx : CTransaction} {flags : ℕ}
  {sig : Bool}

/-- The checks the loop makes, given the coins. -/
def madeChecks (tx : CTransaction) (flags : ℕ) (sig : Bool) (i : ℕ) (coins : List Coin) :
    List CScriptCheck :=
  (coins.zipIdx i).map fun p => ⟨p.1.out.scriptPubKey, p.1.out.nValue, tx, p.2, flags, sig⟩

variable {deferred : Bool} {v : CCoinsViewCache}

/-- The loop ends well exactly when the coins are unspent and, unless deferred, every check
    passes; it returns the checks. -/
lemma scriptCheckLoop_ok : ∀ {coins : List Coin} {i : ℕ} {cs : List CScriptCheck},
    scriptCheckLoop E tx flags sig deferred i coins = .ok cs ↔
      cs = madeChecks tx flags sig i coins ∧ (∀ c ∈ coins, c.isSpent = false) ∧
        (deferred = true ∨ ∀ check ∈ madeChecks tx flags sig i coins, E.Passes check)
  | [], i, cs => by
    simp only [scriptCheckLoop, madeChecks, Except.ok.injEq]
    constructor
    · rintro rfl; simp
    · rintro ⟨rfl, -⟩; rfl
  | c :: coins, i, cs => by
    have hcons : madeChecks tx flags sig i (c :: coins)
        = ⟨c.out.scriptPubKey, c.out.nValue, tx, i, flags, sig⟩
          :: madeChecks tx flags sig (i + 1) coins := rfl
    simp only [scriptCheckLoop, bind_ok, exists_const, assertThat_ok, runUnless_ok,
      scriptCheckLoop_ok, hcons, List.forall_mem_cons, Except.ok.injEq]
    constructor
    · rintro ⟨hs, hp, rest, ⟨rfl, hss, hps⟩, rfl⟩
      refine ⟨rfl, ⟨hs, hss⟩, ?_⟩
      rcases hp with hp | hp
      · exact Or.inl hp
      · exact hps.imp id fun h => ⟨hp, h⟩
    · rintro ⟨rfl, ⟨hs, hss⟩, hp⟩
      exact ⟨hs, hp.imp id fun h => h.1, _, ⟨rfl, hss, hp.imp id fun h => h.2⟩, rfl⟩

lemma accessCoins_eq {vin : List CTxIn} (h : ∀ txin ∈ vin, v.coinAt txin.prevout ≠ none) :
    (accessCoins vin v).1 = vin.map fun txin => (v.coinAt txin.prevout).getD Coin.empty := by
  have hmap := congrArg (List.map fun x : Option Coin => x.getD Coin.empty) (accessCoins_coinAt h)
  simpa only [List.map_map, Function.comp_def, Option.getD_some, List.map_id'] using hmap

lemma madeChecks_accessCoins (h : ∀ o ∈ tx.prevouts, v.coinAt o ≠ none) :
    madeChecks tx flags sig 0 (accessCoins tx.vin v).1 = checksOf v tx flags sig := by
  have h' : ∀ txin ∈ tx.vin, v.coinAt txin.prevout ≠ none := by
    simpa [CTransaction.prevouts] using h
  rw [accessCoins_eq h', madeChecks, List.zipIdx_map, List.map_map]
  rfl

variable {v' : CCoinsViewCache}

lemma checksOf_fetched (h : Fetched v v') : checksOf v' tx flags sig = checksOf v tx flags sig := by
  unfold checksOf checkFor
  simp only [h.coinAt]

/-- **What an accepted `CheckInputs` has established.** -/
structure InputsChecked (H : Hashes) (E : ScriptEngine) (C : ScriptCache) (tx : CTransaction)
    (v : CCoinsViewCache) (fScriptChecks : Bool) (flags : ℕ) (sig : Bool) (cache : C.State)
    (deferred : Bool) (r : CheckedInputs C) : Prop where
  fetched : Fetched v r.view
  coins : ∀ o ∈ tx.prevouts, v.coinAt o ≠ none
  value : CTransaction.outputSum tx.vout ≤ (tx.prevouts.map v.valueAt).sum
  /-- The cache is asked exactly when scripts are checked at all. -/
  hit : r.cacheHit
    = (fScriptChecks && C.contains cache (H.scriptCacheKey (H.getWitnessHash tx) flags))
  /-- Without a hit one check per input is made. -/
  checks : r.checks
    = if fScriptChecks = true ∧ r.cacheHit = false then checksOf v tx flags sig else []
  /-- What is not deferred has been run and has passed. -/
  passed : deferred = true ∨ ∀ check ∈ r.checks, E.Passes check
  /-- With deferred checks the cache still answers as before. -/
  cache : deferred = true → ∀ k, C.contains r.cache k = C.contains cache k

variable {r : CheckedInputs C} {cache : C.State}

/-- Queries made before the call do not matter. -/
lemma InputsChecked.of_fetched {fsc : Bool} (hf : Fetched v v')
    (h : InputsChecked H E C tx v' fsc flags sig cache deferred r) :
    InputsChecked H E C tx v fsc flags sig cache deferred r where
  fetched := hf.trans h.fetched
  coins o ho := by rw [← hf.coinAt]; exact h.coins o ho
  value := by rw [← hf.valueAt]; exact h.value
  hit := h.hit
  checks := by rw [h.checks, checksOf_fetched hf]
  passed := h.passed
  cache := h.cache

theorem checkInputs_spec {h : ℕ} {fsc full : Bool} (hcb : tx.isCoinBase = false)
    (hok : checkInputs H E C tx v h fsc flags sig full cache deferred = .ok r) :
    InputsChecked H E C tx v fsc flags sig cache deferred r := by
  obtain ⟨v1, hin, hrest⟩ := bind_ok.mp hok
  obtain ⟨hf, hcoins, hval⟩ := checkTxInputs_ok hcb hin
  cases fsc with
  | false =>
    cases hrest
    exact ⟨hf, hcoins, hval, rfl, by simp, by simp, fun _ _ => rfl⟩
  | true =>
    simp only [Bool.not_true, Bool.false_eq_true, if_false] at hrest
    cases hc : C.contains cache (H.scriptCacheKey (H.getWitnessHash tx) flags) with
    | true =>
      rw [if_pos hc] at hrest
      cases hrest
      refine ⟨hf, hcoins, hval, by simp [hc], by simp, by simp, ?_⟩
      intro _ k
      cases full with
      | true => rfl
      | false => exact C.contains_markErase _ _ _
    | false =>
      rw [hc, if_neg Bool.false_ne_true] at hrest
      obtain ⟨checks, hloop, hr⟩ := bind_ok.mp hrest
      cases hr
      obtain ⟨rfl, _, hpass⟩ := scriptCheckLoop_ok.mp hloop
      have hcoins1 : ∀ o ∈ tx.prevouts, v1.coinAt o ≠ none := by
        intro o ho
        rw [hf.coinAt]
        exact hcoins o ho
      refine ⟨hf.trans (accessCoins_fetched _ _), hcoins, hval, by simp [hc], ?_, hpass, ?_⟩
      · rw [madeChecks_accessCoins hcoins1, checksOf_fetched hf]
        simp
      · intro hd k
        simp [hd]

end Ybtc
