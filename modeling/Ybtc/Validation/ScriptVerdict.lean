import Ybtc.Validation.ConnectSteps

/-!
# Which scripts an accepted block has had checked

`ConnectBlock` checks scripts in one of two modes.  With `nScriptCheckThreads = 0` each check is run
inside `CheckInputs`; with threads, `CheckInputs` only hands the checks out, and `ConnectBlock` puts
them on the queue that `control.Wait()` later empties — but only if the transaction has no create,
call or oops output.
-/

namespace Ybtc

open Fallible CCoinsViewCache List CScriptCheck

/-- The key of a transaction in the script execution cache. -/
def cacheKey (ctx : ChainContext) (flags : ℕ) (tx : CTransaction) : Uint256 :=
  ctx.H.scriptCacheKey (ctx.H.getWitnessHash tx) flags

/-! ## The checks that are made -/

section Made

variable {ctx : ChainContext} {b : BlockSettings} {cache : ctx.C.State}
  {st st' : LoopState ctx.C} {pre : List CTransaction} {tx : CTransaction}

/-- **What a record of made checks looks like** when scripts are checked at all. -/
structure MadeInv (ctx : ChainContext) (b : BlockSettings) (cache : ctx.C.State)
    (pre : List CTransaction) (st : LoopState ctx.C) : Prop where
  /-- One record for each transaction that is not a coinbase. -/
  txs : st.made.map MadeChecks.tx = pre.filter fun tx => !tx.isCoinBase
  /-- Its checks are checks of that transaction. -/
  owner : ∀ m ∈ st.made, ∀ check ∈ m.checks, check.tx = m.tx
  /-- There is one for each input, unless the cache remembered the transaction. -/
  inputs : ∀ m ∈ st.made, m.checks.map nIn = if m.cacheHit then [] else List.range m.tx.vin.length
  /-- Without threads they have been run. -/
  passed : ctx.nScriptCheckThreads = 0 → ∀ m ∈ st.made, ∀ check ∈ m.checks, ctx.E.Passes check
  /-- With threads the cache keeps answering as at the start. -/
  answers : ctx.nScriptCheckThreads ≠ 0 → ∀ k, ctx.C.contains st.cache k = ctx.C.contains cache k
  hit : ctx.nScriptCheckThreads ≠ 0 →
    ∀ m ∈ st.made, m.cacheHit = ctx.C.contains cache (cacheKey ctx b.flags m.tx)

lemma checksOf_nIn (v : CCoinsViewCache) (tx : CTransaction) (flags : ℕ) (sig : Bool) :
    (checksOf v tx flags sig).map nIn = List.range tx.vin.length := by
  rw [checksOf, map_map]
  have : (nIn ∘ fun p : CTxIn × ℕ => checkFor v tx flags sig p.2 p.1) = Prod.snd := rfl
  rw [this, zipIdx_map_snd, range_eq_range']

lemma MadeInv.step (hs : b.fScriptChecks = true) (hi : MadeInv ctx b cache pre st)
    (h : connectTx ctx b st tx = .ok st') : MadeInv ctx b cache (pre ++ [tx]) st' := by
  obtain ⟨_, _, _, _, _, hcase⟩ := connectTx_ok h
  rcases hcase with ⟨hcb, _, _, hmade, hcache⟩ | ⟨hcb, _, r, _, hr, _, hmade, hcache⟩
  · refine ⟨?_, ?_, ?_, ?_, ?_, ?_⟩
    · simp [hmade, hi.txs, hcb]
    · rw [hmade]; exact hi.owner
    · rw [hmade]; exact hi.inputs
    · rw [hmade]; exact hi.passed
    · rw [hcache]; exact hi.answers
    · rw [hmade]; exact hi.hit
  · have hchecks : r.checks
        = if r.cacheHit = false then checksOf st.view tx b.flags b.fJustCheck else [] := by
      simpa [hs] using hr.checks
    have hdef : ctx.nScriptCheckThreads ≠ 0 → (ctx.nScriptCheckThreads != 0) = true := by simp
    have hcons : ∀ {P : MadeChecks → Prop}, (∀ m ∈ st.made, P m) → P ⟨tx, r.cacheHit, r.checks⟩ →
        ∀ m ∈ st'.made, P m := by
      intro P hall hnew m hm
      rw [hmade, mem_append, mem_singleton] at hm
      rcases hm with hm | rfl
      · exact hall m hm
      · exact hnew
    refine ⟨by simp [hmade, hi.txs, hcb], hcons hi.owner ?_, hcons hi.inputs ?_,
      fun h0 => hcons (hi.passed h0) ?_, fun hn k => ?_, fun hn => hcons (hi.hit hn) ?_⟩
    · intro check hc
      simp only [hchecks] at hc
      split_ifs at hc
      · obtain ⟨p, _, rfl⟩ := mem_map.mp hc
        rfl
      · cases hc
    · simp only [hchecks]
      cases r.cacheHit with
      | true => rfl
      | false => exact checksOf_nIn _ _ _ _
    · rcases hr.passed with hd | hp
      · simp [h0] at hd
      · exact hp
    · rw [hcache, hr.cache (hdef hn), hi.answers hn]
    · simp only [hr.hit, hs, Bool.true_and, hi.answers hn]
      rfl

lemma madeInv_of_loop {vtx : List CTransaction} {v : CCoinsViewCache} (hs : b.fScriptChecks = true)
    (h : vtx.foldlM (connectTx ctx b) ⟨v, cache, 0, 0, false, [], []⟩ = .ok st) :
    MadeInv ctx b cache vtx st := by
  refine foldlM_rule (MadeInv ctx b cache) ?_ ?_ h
  · exact ⟨rfl, by simp, by simp, by simp, fun _ _ => rfl, by simp⟩
  · intro pre tx post st st' _ hi hstep
    exact hi.step hs hstep

end Made

/-! ## The same block in another mode

The two modes do the same things to the view and make the same checks; they differ in whether
`CheckInputs` can fail on a check.  A run in one mode is therefore turned into a run in the other,
step by step, as long as the checks pass and the script execution cache gives the same answers. -/

section Modes

variable {ctx : ChainContext} {b : BlockSettings}

/-- The same surroundings with another number of threads. -/
def ChainContext.withThreads (ctx : ChainContext) (n : ℕ) : ChainContext :=
  { ctx with nScriptCheckThreads := n }

/-- Inserting one transaction's key does not disturb the others: needed when results are stored,
    that is when the block is only being tested. -/
structure KeysApart (ctx : ChainContext) (flags : ℕ) (vtx : List CTransaction) : Prop where
  nodup : (vtx.map (cacheKey ctx flags)).Nodup
  insert : ∀ s, ∀ tx ∈ vtx, ∀ tx' ∈ vtx, cacheKey ctx flags tx ≠ cacheKey ctx flags tx' →
    ctx.C.contains (ctx.C.insert s (cacheKey ctx flags tx)) (cacheKey ctx flags tx')
      = ctx.C.contains s (cacheKey ctx flags tx')

/-- What one transaction can do to the cache. -/
def CacheStep (C : ScriptCache) (full : Bool) (key : Uint256) (c c' : C.State) : Prop :=
  c' = c ∨ (full = false ∧ c' = C.markErase c key) ∨ (full = true ∧ c' = C.insert c key)

/-- `CheckInputs` in another mode and with another cache: the same answer if the cache agrees on the
    transaction and what is not deferred passes. -/
lemma checkInputs_transfer {H : Hashes} {E : ScriptEngine} {C : ScriptCache} {tx : CTransaction}
    {v : CCoinsViewCache} {h flags : ℕ} {fsc sig full d d' : Bool} {c c' : C.State}
    {r : CheckedInputs C}
    (hagree : C.contains c' (H.scriptCacheKey (H.getWitnessHash tx) flags)
      = C.contains c (H.scriptCacheKey (H.getWitnessHash tx) flags))
    (hok : checkInputs H E C tx v h fsc flags sig full c d = .ok r)
    (hpass : d' = true ∨ ∀ check ∈ r.checks, E.Passes check) :
    ∃ r', checkInputs H E C tx v h fsc flags sig full c' d' = .ok r' ∧ r'.view = r.view ∧
      r'.checks = r.checks ∧ r'.cacheHit = r.cacheHit ∧
      CacheStep C full (H.scriptCacheKey (H.getWitnessHash tx) flags) c' r'.cache := by
  obtain ⟨v1, hin, hrest⟩ := bind_ok.mp hok
  cases fsc with
  | false =>
    cases hrest
    exact ⟨⟨v1, c', [], false⟩, bind_ok.mpr ⟨v1, hin, rfl⟩, rfl, rfl, rfl, Or.inl rfl⟩
  | true =>
    simp only [Bool.not_true, Bool.false_eq_true, if_false] at hrest
    cases hc : C.contains c (H.scriptCacheKey (H.getWitnessHash tx) flags) with
    | true =>
      rw [if_pos hc] at hrest
      cases hrest
      refine ⟨⟨v1, if full then c'
          else C.markErase c' (H.scriptCacheKey (H.getWitnessHash tx) flags), [], true⟩,
        bind_ok.mpr ⟨v1, hin, ?_⟩, rfl, rfl, rfl, ?_⟩
      · simp only [Bool.not_true, Bool.false_eq_true, if_false]
        rw [if_pos (hagree.trans hc)]
      · cases full with
        | true => exact Or.inl rfl
        | false => exact Or.inr (Or.inl ⟨rfl, rfl⟩)
    | false =>
      rw [hc, if_neg Bool.false_ne_true] at hrest
      obtain ⟨checks, hloop, hr⟩ := bind_ok.mp hrest
      cases hr
      obtain ⟨rfl, hun, _⟩ := scriptCheckLoop_ok.mp hloop
      refine ⟨⟨(accessCoins tx.vin v1).2, if full && !d' then
          C.insert c' (H.scriptCacheKey (H.getWitnessHash tx) flags) else c', _, false⟩,
        bind_ok.mpr ⟨v1, hin, ?_⟩, rfl, rfl, rfl, ?_⟩
      · simp only [Bool.not_true, Bool.false_eq_true, if_false]
        rw [hagree.trans hc, if_neg Bool.false_ne_true]
        exact bind_ok.mpr ⟨_, scriptCheckLoop_ok.mpr ⟨rfl, hun, hpass⟩, rfl⟩
      · cases full with
        | false => exact Or.inl rfl
        | true =>
          cases d' with
          | true => exact Or.inl rfl
          | false => exact Or.inr (Or.inr ⟨rfl, rfl⟩)

variable {st st' : LoopState ctx.C} {tx : CTransaction} {n : ℕ} {c' : ctx.C.State}

/-- **One iteration in another mode.** -/
lemma connectTx_transfer (h : connectTx ctx b st tx = .ok st')
    (hagree : tx.isCoinBase = false → ctx.C.contains c' (cacheKey ctx b.flags tx)
      = ctx.C.contains st.cache (cacheKey ctx b.flags tx))
    (hpass : n ≠ 0 ∨
      ∀ m ∈ st'.made.drop st.made.length, ∀ check ∈ m.checks, ctx.E.Passes check) :
    ∃ c'', connectTx (ctx.withThreads n) b { st with cache := c' } tx
        = .ok { st' with cache := c'' } ∧
      CacheStep ctx.C b.fJustCheck (cacheKey ctx b.flags tx) c' c'' := by
  simp only [connectTx, bind_ok, exists_const, liftFault_ok, dosIf_ok, Prod.exists] at h
  obtain ⟨v1, hlocks, cost, v2, hcost, hlim, st1, hin, undo, v3, hupd, hst⟩ := h
  simp only [connectTx, bind_ok, exists_const, liftFault_ok, dosIf_ok, Prod.exists]
  cases hcb : tx.isCoinBase with
  | true =>
    rw [checkFeeAndInputs, hcb, if_pos rfl] at hin
    cases hin
    cases hst
    refine ⟨c', ⟨v1, hlocks, cost, v2, hcost, hlim,
      ⟨v2, c', st.nFees, st.nSigOpsCost + cost, st.hasContract, st.vtxundo, st.made⟩, ?_, undo,
      v3, hupd, rfl⟩, Or.inl rfl⟩
    rw [checkFeeAndInputs, hcb, if_pos rfl]
  | false =>
    rw [checkFeeAndInputs, hcb, if_neg Bool.false_ne_true] at hin
    simp only [bind_ok, liftFault_ok] at hin
    obtain ⟨nOut, hOut, nSpend, hspend, r, hr, hst1⟩ := hin
    cases hst1
    cases hst
    have hpass' : (n != 0) = true ∨ ∀ check ∈ r.checks, ctx.E.Passes check := by
      rcases hpass with hn | hp
      · exact Or.inl (by simpa using hn)
      · exact Or.inr (hp ⟨tx, r.cacheHit, r.checks⟩ (by simp))
    obtain ⟨r', hr', hview, hchecks, hhit, hstep⟩ := checkInputs_transfer (hagree hcb) hr hpass'
    refine ⟨r'.cache, ⟨v1, hlocks, cost, v2, hcost, hlim,
      ⟨r.view, r'.cache, _, st.nSigOpsCost + cost, st.hasContract, st.vtxundo,
        st.made ++ [⟨tx, r.cacheHit, r.checks⟩]⟩, ?_, undo, v3, hupd, rfl⟩, hstep⟩
    rw [checkFeeAndInputs, hcb, if_neg Bool.false_ne_true]
    simp only [bind_ok, liftFault_ok]
    exact ⟨nOut, hOut, nSpend, hspend, r', hr', by rw [hview, hchecks, hhit]⟩

/-- Without threads, what an iteration adds to the record has passed. -/
lemma connectTx_passed (h : connectTx ctx b st tx = .ok st') : ctx.nScriptCheckThreads ≠ 0 ∨
      ∀ m ∈ st'.made.drop st.made.length, ∀ check ∈ m.checks, ctx.E.Passes check := by
  by_cases h0 : ctx.nScriptCheckThreads = 0
  · refine Or.inr ?_
    obtain ⟨_, _, _, _, _, hcase⟩ := connectTx_ok h
    rcases hcase with ⟨_, _, _, hmade, _⟩ | ⟨_, _, r, _, hr, _, hmade, _⟩
    · simp [hmade]
    · simp only [hmade, drop_left, mem_singleton, forall_eq]
      rcases hr.passed with hd | hp
      · simp [h0] at hd
      · exact hp
  · exact Or.inl h0

/-- Records are only ever added. -/
lemma made_subset {todo : List CTransaction} {f : LoopState ctx.C}
    (h : todo.foldlM (connectTx ctx b) st = .ok f) : ∀ m ∈ st.made, m ∈ f.made := by
  refine foldlM_rule (fun _ s => ∀ m ∈ st.made, m ∈ s.made) (fun m hm => hm) ?_ h
  intro _ tx _ s s' _ ih hstep m hm
  obtain ⟨_, _, _, _, _, hcase⟩ := connectTx_ok hstep
  rcases hcase with ⟨_, _, _, hmade, _⟩ | ⟨_, _, r, _, _, _, hmade, _⟩
  · rw [hmade]; exact ih m hm
  · rw [hmade]; exact mem_append_left _ (ih m hm)

/-- What an iteration does to its own cache. -/
lemma connectTx_cacheStep (h : connectTx ctx b st tx = .ok st') :
    CacheStep ctx.C b.fJustCheck (cacheKey ctx b.flags tx) st.cache st'.cache := by
  -- The run in its own mode is a special case of the run in another mode.
  obtain ⟨c'', h', hstep⟩ := connectTx_transfer h (fun _ => rfl) (connectTx_passed h)
  have heq : st' = { st' with cache := c'' } := Except.ok.inj (h.symm.trans h')
  rw [heq]
  exact hstep

variable {vtx : List CTransaction}

/-- Other transactions' keys are not affected. -/
lemma CacheStep.contains {full : Bool} {flags : ℕ} {tx' : CTransaction}
    {c c' : ctx.C.State} (hkeys : full = true → KeysApart ctx flags vtx)
    (hstep : CacheStep ctx.C full (cacheKey ctx flags tx) c c') (htx : tx ∈ vtx) (htx' : tx' ∈ vtx)
    (hne : full = true → cacheKey ctx flags tx ≠ cacheKey ctx flags tx') :
    ctx.C.contains c' (cacheKey ctx flags tx') = ctx.C.contains c (cacheKey ctx flags tx') := by
  rcases hstep with rfl | ⟨_, rfl⟩ | ⟨hfull, rfl⟩
  · rfl
  · exact ctx.C.contains_markErase _ _ _
  · exact (hkeys hfull).insert c tx htx tx' htx' (hne hfull)

/-- **The whole loop in another mode.**  `vtx` is the block's list, `todo` the part still to come;
    the two caches need to agree on the latter only. -/
lemma loop_transfer (n : ℕ) (hkeys : b.fJustCheck = true → KeysApart ctx b.flags vtx) :
    ∀ {todo : List CTransaction} {st f : LoopState ctx.C} (c' : ctx.C.State),
    (∀ tx ∈ todo, tx ∈ vtx) → (b.fJustCheck = true → (todo.map (cacheKey ctx b.flags)).Nodup) →
    (∀ tx ∈ todo, ctx.C.contains c' (cacheKey ctx b.flags tx)
      = ctx.C.contains st.cache (cacheKey ctx b.flags tx)) →
    todo.foldlM (connectTx ctx b) st = .ok f →
    (n ≠ 0 ∨ ∀ m ∈ f.made, ∀ check ∈ m.checks, ctx.E.Passes check) →
    ∃ c'', todo.foldlM (connectTx (ctx.withThreads n) b) { st with cache := c' }
      = .ok { f with cache := c'' }
  | [], st, f, c', _, _, _, h, _ => by
    rw [foldlM_nil, pure_ok] at h
    subst h
    exact ⟨c', rfl⟩
  | tx :: todo, st, f, c', hmem, hnd, hagree, h, hpass => by
    rw [foldlM_cons, bind_ok] at h
    obtain ⟨st1, h1, hrest⟩ := h
    rw [forall_mem_cons] at hmem hagree
    simp only [map_cons, nodup_cons] at hnd
    have hsub : ∀ m ∈ st1.made, m ∈ f.made := made_subset hrest
    obtain ⟨c1, hstep, hcs⟩ := connectTx_transfer h1 (fun _ => hagree.1)
      (hpass.imp id fun hp m hm => hp m (hsub m (mem_of_mem_drop hm)))
    have hagree1 : ∀ tx' ∈ todo, ctx.C.contains c1 (cacheKey ctx b.flags tx')
        = ctx.C.contains st1.cache (cacheKey ctx b.flags tx') := by
      intro tx' htx'
      have hne : b.fJustCheck = true → cacheKey ctx b.flags tx ≠ cacheKey ctx b.flags tx' := by
        intro hj heq
        exact (hnd hj).1 (heq ▸ mem_map_of_mem htx')
      rw [hcs.contains hkeys hmem.1 (hmem.2 tx' htx') hne,
        (connectTx_cacheStep h1).contains hkeys hmem.1 (hmem.2 tx' htx') hne, hagree.2 tx' htx']
    obtain ⟨c'', hloop⟩ :=
      loop_transfer n hkeys c1 hmem.2 (fun hj => (hnd hj).2) hagree1 hrest hpass
    refine ⟨c'', ?_⟩
    rw [foldlM_cons, bind_ok]
    exact ⟨_, hstep, hloop⟩

end Modes

/-! ## The verdict -/

section Verdict

variable {ctx : ChainContext} {fJustCheck : Bool} {block : CBlock} {pindex : CBlockIndex}
  {view : CCoinsViewCache} {cache : ctx.C.State} {s s' : ctx.L.State} {r : Connected ctx.C}

/-- The scripts of a transaction have been verified: the script execution cache remembered it, or
    the check of each of its inputs was evaluated and succeeded. -/
def ScriptsVerified (ctx : ChainContext) (r : Connected ctx.C) (tx : CTransaction) : Prop :=
  ∃ m ∈ r.made, m.tx = tx ∧ (m.cacheHit = true ∨
    (m.checks.map nIn = List.range tx.vin.length ∧
      ∀ check ∈ m.checks, check ∈ r.evaluated ∧ ctx.E.Passes check))

/-- **Every script of the block has been verified.** -/
def AllVerified (ctx : ChainContext) (block : CBlock) (r : Connected ctx.C) : Prop :=
  ∀ tx ∈ connectedTxs ctx block, tx.isCoinBase = false → ScriptsVerified ctx r tx

/-- `ConnectBlock` accepts with the given number of threads. -/
def AcceptedWith (ctx : ChainContext) (n : ℕ) (fJustCheck : Bool) (block : CBlock)
    (pindex : CBlockIndex) (view : CCoinsViewCache) (cache : ctx.C.State) (s : ctx.L.State) :
    Prop :=
  ∃ (r : Connected ctx.C) (s' : ctx.L.State),
    connectBlock (ctx.withThreads n) fJustCheck block pindex view cache s = .ok r s'

/-- **No check is dropped on the way to the queue**: there is no queue, or every transaction with a
    create, call or oops output is in the script execution cache. -/
def NoCheckDropped (ctx : ChainContext) (flags : ℕ) (block : CBlock) (cache : ctx.C.State) : Prop :=
  ctx.nScriptCheckThreads = 0 ∨ ∀ tx ∈ connectedTxs ctx block, tx.isCoinBase = false →
    (tx.hasCreateOrCall = true ∨ tx.hasOops = true) →
      ctx.C.contains cache (cacheKey ctx flags tx) = true

variable {b : BlockSettings} {st : LoopState ctx.C} {vtx : List CTransaction}

section

variable (hi : MadeInv ctx b cache vtx st)

include hi

lemma MadeInv.record {tx : CTransaction} (htx : tx ∈ vtx)
    (hcb : tx.isCoinBase = false) : ∃ m ∈ st.made, m.tx = tx := by
  have : tx ∈ st.made.map MadeChecks.tx := by
    rw [hi.txs, mem_filter]
    exact ⟨htx, by simp [hcb]⟩
  exact mem_map.mp this

lemma MadeInv.mem {m : MadeChecks} (hm : m ∈ st.made) : m.tx ∈ vtx ∧ m.tx.isCoinBase = false := by
  have : m.tx ∈ st.made.map MadeChecks.tx := mem_map_of_mem hm
  rw [hi.txs, mem_filter] at this
  exact ⟨this.1, by simpa using this.2⟩

/-- A check on the queue belongs to a transaction without create, call and oops outputs. -/
lemma MadeInv.queued {check : CScriptCheck} (h : check ∈ queuedChecks st.made) :
    check.tx.hasCreateOrCall = false ∧ check.tx.hasOops = false := by
  obtain ⟨m, hm, hc⟩ := mem_flatMap.mp h
  obtain ⟨hm, hq⟩ := mem_filter.mp hm
  rw [hi.owner m hm check hc]
  simpa [MadeChecks.queued] using hq

/-- If no check is dropped, all checks made are evaluated and pass. -/
lemma MadeInv.evaluated (hdrop : ctx.nScriptCheckThreads = 0 ∨ ∀ tx ∈ vtx, tx.isCoinBase = false →
      (tx.hasCreateOrCall = true ∨ tx.hasOops = true) →
        ctx.C.contains cache (cacheKey ctx b.flags tx) = true)
    (hqueue : ctx.nScriptCheckThreads = 0 ∨ ∀ check ∈ queuedChecks st.made, ctx.E.Passes check) :
    ∀ m ∈ st.made, ∀ check ∈ m.checks,
      check ∈ evaluatedChecks ctx.nScriptCheckThreads st.made ∧ ctx.E.Passes check := by
  intro m hm check hc
  by_cases h0 : ctx.nScriptCheckThreads = 0
  · refine ⟨?_, hi.passed h0 m hm check hc⟩
    rw [evaluatedChecks, if_pos h0]
    exact mem_flatMap.mpr ⟨m, hm, hc⟩
  · rw [evaluatedChecks, if_neg h0]
    have hq : check ∈ queuedChecks st.made := by
      refine mem_flatMap.mpr ⟨m, mem_filter.mpr ⟨hm, ?_⟩, hc⟩
      by_contra hnq
      -- Not queued means a contract or oops output, so the cache spared the checks.
      have hout : m.tx.hasCreateOrCall = true ∨ m.tx.hasOops = true := by
        by_contra hno
        rw [not_or] at hno
        simp [MadeChecks.queued, hno.1, hno.2] at hnq
      obtain ⟨hmem, hcb⟩ := hi.mem hm
      have hhit := hi.hit h0 m hm
      rw [hdrop.resolve_left h0 m.tx hmem hcb hout] at hhit
      have hnil := hi.inputs m hm
      rw [hhit, if_pos rfl, map_eq_nil_iff] at hnil
      rw [hnil] at hc
      cases hc
    exact ⟨hq, hqueue.resolve_left h0 check hq⟩

/-- With threads, a transaction whose checks are dropped has not been verified. -/
lemma MadeInv.dropped (hvin : ∀ tx ∈ vtx, tx.vin ≠ [])
    (h0 : ctx.nScriptCheckThreads ≠ 0) {m : MadeChecks} (hm : m ∈ st.made)
    (hout : m.tx.hasCreateOrCall = true ∨ m.tx.hasOops = true)
    (hev : m.cacheHit = true ∨ ∀ check ∈ m.checks,
      check ∈ evaluatedChecks ctx.nScriptCheckThreads st.made) :
    ctx.C.contains cache (cacheKey ctx b.flags m.tx) = true := by
  rw [← hi.hit h0 m hm]
  rcases hev with hev | hev
  · exact hev
  · by_contra hno
    have hin := hi.inputs m hm
    rw [if_neg hno] at hin
    -- There is a first input, its check would have to be on the queue.
    have hne : m.checks ≠ [] := by
      rintro hnil
      rw [hnil, map_nil, eq_comm, range_eq_nil, length_eq_zero_iff] at hin
      exact hvin m.tx (hi.mem hm).1 hin
    obtain ⟨check, hc⟩ := exists_mem_of_ne_nil _ hne
    have hq := hev check hc
    rw [evaluatedChecks, if_neg h0] at hq
    have hclean := hi.queued hq
    rw [hi.owner m hm check hc] at hclean
    rcases hout with h | h
    · rw [hclean.1] at h; cases h
    · rw [hclean.2] at h; cases h

end

/-- The part behind the genesis case, in any other mode. -/
lemma connectedBy_transfer {prev : CBlockIndex} {st : LoopState ctx.C} (hkeys : fJustCheck = true →
      KeysApart ctx (blockSettings ctx fJustCheck pindex).flags block.vtx)
    (h : ConnectedBy ctx fJustCheck block pindex prev view cache s s' r st)
    (hpass : ∀ m ∈ st.made, ∀ check ∈ m.checks, ctx.E.Passes check) (n : ℕ) :
    ∃ (r' : Connected ctx.C) (st' : LoopState ctx.C),
      ConnectedBy (ctx.withThreads n) fJustCheck block pindex prev view cache s s' r' st' := by
  obtain ⟨v, h30, hloop⟩ := bind_ok.mp h.txs
  have hkeys' : (blockSettings ctx fJustCheck pindex).fJustCheck = true →
      KeysApart ctx (blockSettings ctx fJustCheck pindex).flags block.vtx := hkeys
  obtain ⟨c'', hloop'⟩ := loop_transfer n hkeys' cache (fun tx htx => htx)
    (fun hj => (hkeys hj).nodup) (fun _ _ => rfl) hloop (Or.inr hpass)
  refine ⟨_, { st with cache := c'' }, bind_ok.mpr ⟨v, h30, hloop'⟩, h.contracts, ?_,
    h.written, rfl⟩
  obtain ⟨cb, rest, out, hvtx, hout, hle, _⟩ := checkReward_ok.mp h.reward
  refine checkReward_ok.mpr ⟨cb, rest, out, hvtx, hout, hle, Or.inr ?_⟩
  intro check hc
  obtain ⟨m, hm, hc⟩ := mem_flatMap.mp hc
  exact hpass m (mem_filter.mp hm).1 check hc

/-- **An accepted block has had all its scripts verified, and is accepted with every number of
    threads, exactly when no check was dropped on the way to the queue.** -/
theorem connectBlock_scripts_iff (hscripts : ctx.assumedValid pindex = false)
    (hmark : block.fChecked = true → BlockChecked block)
    (hkeys : fJustCheck = true → KeysApart ctx (getBlockScriptFlags pindex ctx.params) block.vtx)
    (h : connectBlock ctx fJustCheck block pindex view cache s = .ok r s') :
    (AllVerified ctx block r ∧ ∀ n, AcceptedWith ctx n fJustCheck block pindex view cache s) ↔
      NoCheckDropped ctx (getBlockScriptFlags pindex ctx.params) block cache := by
  obtain ⟨⟨hp, hck, hb⟩, hcase⟩ := connectBlock_ok.mp h
  rcases hcase with ⟨hg, rfl, rfl⟩ | ⟨hg, prev, st, hprev, hby⟩
  · have hnil : connectedTxs ctx block = [] := by rw [connectedTxs, if_pos hg]
    refine ⟨fun _ => Or.inr (by simp [hnil]), fun _ => ⟨by simp [AllVerified, hnil], fun n => ?_⟩⟩
    exact ⟨_, _, connectBlock_ok.mpr ⟨⟨hp, hck, hb⟩, Or.inl ⟨hg, rfl, rfl⟩⟩⟩
  · have hall : connectedTxs ctx block = block.vtx := by rw [connectedTxs, if_neg hg]
    have hchecked := blockChecked_of_connect hmark hck
    obtain ⟨v, _, hloop⟩ := bind_ok.mp hby.txs
    have hi : MadeInv ctx (blockSettings ctx fJustCheck pindex) cache block.vtx st :=
      madeInv_of_loop (by simp [blockSettings, hscripts]) hloop
    rw [NoCheckDropped, AllVerified, hall, hby.result]
    constructor
    · rintro ⟨hver, _⟩
      by_cases h0 : ctx.nScriptCheckThreads = 0
      · exact Or.inl h0
      · refine Or.inr ?_
        intro tx htx hcb hout
        obtain ⟨m, hm, rfl, hev⟩ := hver tx htx hcb
        exact hi.dropped hchecked.vin h0 hm hout (hev.imp id fun hev check hc => (hev.2 check hc).1)
    · intro hdrop
      obtain ⟨_, _, _, _, _, _, hqueue⟩ := checkReward_ok.mp hby.reward
      have hev := hi.evaluated hdrop hqueue
      refine ⟨?_, ?_⟩
      · intro tx htx hcb
        obtain ⟨m, hm, rfl⟩ := hi.record htx hcb
        refine ⟨m, hm, rfl, ?_⟩
        cases hhit : m.cacheHit with
        | true => exact Or.inl rfl
        | false =>
          refine Or.inr ⟨?_, fun check hc => hev m hm check hc⟩
          rw [hi.inputs m hm, hhit, if_neg Bool.false_ne_true]
      · intro n
        obtain ⟨r', st', hby'⟩ := connectedBy_transfer hkeys hby
          (fun m hm check hc => (hev m hm check hc).2) n
        exact ⟨r', s', connectBlock_ok.mpr ⟨⟨hp, hck, hb⟩, Or.inr ⟨hg, prev, st', hprev, hby'⟩⟩⟩

end Verdict

/-! ## A dropped check -/

/-- What script verification says, with an empty input script, of the two output scripts used here:
    `OP_1` leaves true on the stack, anything else does not. -/
def ScriptEngine.trueOnly : ScriptEngine :=
  ⟨fun check => if check.scriptPubKey = [OP_1] then none
    else some "Script evaluated without error but finished with a false/empty top stack element"⟩

/-- The ten coins, locked by a script that leaves false. -/
def lockedView : CCoinsViewCache :=
  ofBase (Finmap.singleton smallOutpoint ⟨⟨10 * coin, [OP_0]⟩, false, 0⟩) 1000#256

/-- A block that takes them without unlocking them, with an oops output. -/
def oopsBlock : CBlock := smallBlock [smallSpend [smallOutpoint] ⟨10 * coin, [OP_OOPS]⟩]

/-- **With threads the block is accepted although its script check was never evaluated; without
    threads it is rejected.** -/
theorem connectBlock_drops_check :
    ∃ r s', connectBlock (.small 2 .trueOnly) false oopsBlock smallIndex lockedView []
        Uint256.null = .ok r s' ∧
      ¬ AllVerified (.small 2 .trueOnly) oopsBlock r ∧
      ¬ AcceptedWith (.small 2 .trueOnly) 0 false oopsBlock smallIndex lockedView []
        Uint256.null := by
  refine ⟨_, _, rfl, ?_, ?_⟩
  · unfold AllVerified ScriptsVerified
    decide +kernel
  · rintro ⟨r, s', h⟩
    cases h

/-- The same block against coins that anyone may take, without threads: everything is verified. -/
theorem connectBlock_scripts_unthreaded :
    ∃ r s', connectBlock (.small 0 .trueOnly) false oopsBlock smallIndex smallView []
        Uint256.null = .ok r s' ∧
      ((AllVerified (.small 0 .trueOnly) oopsBlock r ∧
          ∀ n, AcceptedWith (.small 0 .trueOnly) n false oopsBlock smallIndex smallView []
            Uint256.null) ↔
        NoCheckDropped (.small 0 .trueOnly) (getBlockScriptFlags smallIndex .regtest) oopsBlock
          []) := by
  obtain ⟨r, s', h⟩ : ∃ r s', connectBlock (.small 0 .trueOnly) false oopsBlock smallIndex
      smallView [] Uint256.null = .ok r s' := ⟨_, _, rfl⟩
  exact ⟨r, s', h, connectBlock_scripts_iff rfl (fun hm => absurd hm (by decide))
    (fun hj => absurd hj (by decide)) h⟩

end Ybtc
