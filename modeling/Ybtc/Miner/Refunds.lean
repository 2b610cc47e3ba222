import Ybtc.Miner.Agreement

/-!
# The comparison of the gas refunds

`CheckContractRefundFee` returns before it compares anything.  This module is about the comparison
that is written behind the `return`: the refunds a validator has recomputed against the outputs of
the coinbase that stand directly before the last one.

The miner collects the refunds of the transactions it selects and puts them into the coinbase.  The
refund of the casino output it drops, because `AddCasinoToCoinBaseTx` collects it in a list of its
own; a validator executes the casino output as part of the coinbase and counts its refund too.  The
main result is `createNewBlock_refunds_match_iff`.
-/

namespace Ybtc

open Stateful List Option EStateM

/-! ## The comparison -/

/-- The part of `CheckContractRefundFee` behind its first `return`. -/
def compareRefundFee (block : CBlock) (vRefundGasFee : List CTxOut) : Except Fault Bool :=
  match block.vtx with
  | [] => .error (.undefined .outOfBounds)
  | vtxCoinBase :: _ =>
    let voutSize := vtxCoinBase.vout.length
    let vRefundSize := vRefundGasFee.length
    if voutSize < vRefundSize + 2 then .ok false
    else .ok ((List.range vRefundSize).all fun i =>
      decide (vtxCoinBase.vout[voutSize - 2 - i]? = vRefundGasFee[vRefundSize - 1 - i]?))

variable {script : CScript} {E : ContractEngine} {coinbase : CTransaction} {block : CBlock}

/-- **What the comparison says**: the refunds stand directly before the last output, and not at the
    very beginning. -/
lemma compareRefundFee_iff {rest : List CTransaction}
    {refunds : List CTxOut} (hvtx : block.vtx = coinbase :: rest) :
    compareRefundFee block refunds = .ok true ↔
      ∃ out pre last, coinbase.vout = out :: (pre ++ refunds ++ [last]) := by
  have hread : compareRefundFee block refunds = .ok true ↔
      refunds.length + 2 ≤ coinbase.vout.length ∧ ∀ i < refunds.length,
        coinbase.vout[coinbase.vout.length - 2 - i]? = refunds[refunds.length - 1 - i]? := by
    rw [compareRefundFee, hvtx]
    by_cases hlen : coinbase.vout.length < refunds.length + 2
    · simp [hlen]
    · simp [hlen, Nat.not_lt.mp hlen]
  rw [hread]
  constructor
  · rintro ⟨hlen, hall⟩
    obtain ⟨d, hd⟩ : ∃ d, coinbase.vout.length = d + 1 + refunds.length + 1 :=
      ⟨coinbase.vout.length - (refunds.length + 2), by omega⟩
    have hmid : (coinbase.vout.drop (d + 1)).take refunds.length = refunds := by
      refine ext_getElem? fun j => ?_
      by_cases hj : j < refunds.length
      · have h := hall (refunds.length - 1 - j) (by omega)
        rw [show coinbase.vout.length - 2 - (refunds.length - 1 - j) = d + 1 + j by omega,
          show refunds.length - 1 - (refunds.length - 1 - j) = j by omega] at h
        rw [getElem?_take_of_lt hj, getElem?_drop, h]
      · rw [getElem?_take_eq_none (by omega), getElem?_eq_none (by omega)]
    obtain ⟨last, hlast⟩ : ∃ last, (coinbase.vout.drop (d + 1)).drop refunds.length = [last] :=
      length_eq_one_iff.mp (by rw [length_drop, length_drop]; omega)
    cases hv : coinbase.vout with
    | nil =>
      rw [hv] at hd
      cases hd
    | cons out tail =>
      refine ⟨out, tail.take d, last, ?_⟩
      have hsplit := take_append_drop refunds.length (coinbase.vout.drop (d + 1))
      rw [hmid, hlast, hv, drop_succ_cons] at hsplit
      rw [append_assoc, hsplit, take_append_drop]
  · rintro ⟨out, pre, last, hv⟩
    have hlen : coinbase.vout.length = pre.length + refunds.length + 2 := by
      rw [hv]
      simp [Nat.add_assoc]
    refine ⟨by omega, fun i hi => ?_⟩
    rw [show coinbase.vout.length - 2 - i
      = (pre.length + (refunds.length - 1 - i)) + 1 by omega, hv,
      getElem?_cons_succ, append_assoc, getElem?_append_right (by omega),
      Nat.add_sub_cancel_left, getElem?_append_left (by omega)]

/-! ## Scripts by their first byte -/

/-- The script begins by pushing data. -/
def BeginsWithPush (script : CScript) : Prop := ∃ c rest, script = c :: rest ∧ c ≤ OP_PUSHDATA4

lemma pushBytes_begins (b : Bytes) : BeginsWithPush (pushBytes [] b) := by
  unfold pushBytes
  split_ifs with h
  · refine ⟨_, _, rfl, ?_⟩
    rw [UInt8.le_iff_toNat_le, UInt8.toNat_ofNat', Nat.mod_eq_of_lt (lt_trans h (by decide))]
    exact le_trans (le_of_lt h) (by decide)
  · exact ⟨_, _, rfl, by decide⟩
  · exact ⟨_, _, rfl, by decide⟩
  · exact ⟨_, _, rfl, by decide⟩

lemma BeginsWithPush.append (h : BeginsWithPush script) (rest : CScript) :
    BeginsWithPush (script ++ rest) := by
  obtain ⟨c, tail, rfl, hc⟩ := h
  exact ⟨c, tail ++ rest, rfl, hc⟩

lemma BeginsWithPush.pushBytes (h : BeginsWithPush script) (b : Bytes) :
    BeginsWithPush (Ybtc.pushBytes script b) := by
  rw [pushBytes_eq]
  exact h.append _

/-- The script of the casino output begins by pushing data. -/
lemma casinoScript_begins {c : CasinoParams} {nHeight : ℕ} {s s' : E.State}
    (h : casinoScript E c nHeight s = .ok (some script) s') : BeginsWithPush script := by
  unfold casinoScript at h
  split_ifs at h
  · obtain rfl := Option.some.inj (Result.ok.inj h).1
    exact ((((pushBytes_begins _).pushBytes _).pushBytes _).pushBytes _).pushBytes _ |>.append _
  · obtain ⟨sc, s₁, hsc, hend⟩ := bind_ok.mp h
    obtain rfl := Option.some.inj (Result.ok.inj hend).1
    obtain ⟨_, _, _, h1⟩ := bind_ok.mp hsc
    obtain ⟨_, _, h2⟩ := liftExcept_bind_ok.mp h1
    obtain ⟨_, _, _, h3⟩ := bind_ok.mp h2
    obtain ⟨_, _, h4⟩ := liftExcept_bind_ok.mp h3
    obtain rfl := (Result.ok.inj h4).1
    exact (((((pushBytes_begins _).pushBytes _).pushBytes _).pushBytes _).pushBytes _).pushBytes _
      |>.append _
  · cases (Result.ok.inj h).1

variable {txs : List CTransaction} {crypto : Crypto} {g : CTxOut}

/-- The script of a refund does not. -/
lemma IsRefund.not_begins (h : IsRefund crypto E txs g) : ¬ BeginsWithPush g.scriptPubKey := by
  obtain ⟨f, _, tx, _, out, _, _, hf, _, _, _, _, _, rfl⟩ := h
  rintro ⟨c, rest, hc, hle⟩
  simp only [refundScript, pushBytes_eq [OP_DUP, OP_HASH160], cons_append] at hc
  obtain ⟨rfl, _⟩ := List.cons.inj hc
  exact absurd hle (by decide)

/-- A script that begins with a push is no commitment, and neither is that of a refund. -/
lemma BeginsWithPush.not_commitment (h : BeginsWithPush script) :
    isWitnessCommitment script = false := by
  obtain ⟨c, rest, rfl, hc⟩ := h
  have hne : c ≠ OP_RETURN := by
    rintro rfl
    exact absurd hc (by decide)
  simp [isWitnessCommitment, byteAt, hne]

lemma IsRefund.not_commitment (h : IsRefund crypto E txs g) :
    isWitnessCommitment g.scriptPubKey = false := by
  obtain ⟨f, _, tx, _, out, _, _, hf, _, _, _, _, _, rfl⟩ := h
  simp only [refundScript, pushBytes_eq [OP_DUP, OP_HASH160], cons_append]
  simp [isWitnessCommitment, byteAt, show OP_DUP ≠ OP_RETURN by decide]

/-! ## Lists of outputs -/

section Outputs

variable {casino extra : Option CTxOut} {refunds0 refunds outs : List CTxOut}

/-- **The refunds of an honest coinbase**: the casino output is none of them, and without it nothing
    is dropped. -/
structure HonestRefunds (casino : Option CTxOut) (refunds0 refunds : List CTxOut) : Prop where
  apart : ∀ out, casino = some out → out ∉ refunds0 ++ refunds
  dropped : casino = none → refunds0 = []

/-- The refunds stand directly before the last output. -/
def BeforeLast (outputs refunds : List CTxOut) : Prop :=
  ∃ pre last, outputs = pre ++ refunds ++ [last]

section

variable (h : HonestRefunds casino refunds0 refunds) (hlen : outs.length ≤ refunds.length)

include h hlen

/-- Without a commitment only the casino output can be the last one. -/
lemma HonestRefunds.of_beforeLast_none
    (hb : BeforeLast (casino.toList ++ outs) (refunds0 ++ refunds)) :
    casino ≠ none ∧ refunds0 = [] ∧ refunds = [] := by
  obtain ⟨pre, last, heq⟩ := hb
  have hl := congrArg List.length heq
  cases casino with
  | none =>
    simp only [toList_none, nil_append, length_append, length_singleton] at hl
    omega
  | some cas =>
    simp only [toList_some, singleton_append, length_cons, length_append, length_nil] at hl heq
    cases hr : refunds0 ++ refunds with
    | nil =>
      obtain ⟨h0, h1⟩ := append_eq_nil_iff.mp hr
      exact ⟨by simp, h0, h1⟩
    | cons g gs =>
      obtain rfl : pre = [] := eq_nil_of_length_eq_zero (by omega)
      rw [hr, nil_append, cons_append] at heq
      refine absurd ?_ (h.apart cas rfl)
      rw [hr, (List.cons.inj heq).1]
      exact mem_cons_self

/-- With a commitment the outputs are the refunds. -/
lemma HonestRefunds.of_beforeLast_some {x : CTxOut}
    (hb : BeforeLast (casino.toList ++ outs ++ [x]) (refunds0 ++ refunds)) :
    outs = refunds ∧ refunds0 = [] := by
  obtain ⟨pre, last, heq⟩ := hb
  obtain ⟨heq, _⟩ := append_inj' heq rfl
  have hl := congrArg List.length heq
  cases casino with
  | none =>
    obtain rfl := h.dropped rfl
    simp only [toList_none, nil_append, length_append] at hl heq
    obtain rfl : pre = [] := eq_nil_of_length_eq_zero (by omega)
    exact ⟨heq, rfl⟩
  | some cas =>
    simp only [toList_some, singleton_append, length_cons, length_append] at hl heq
    cases pre with
    | nil =>
      refine absurd ?_ (h.apart cas rfl)
      rw [nil_append] at heq
      rw [← heq]
      exact mem_cons_self
    | cons p pre =>
      rw [length_cons] at hl
      obtain rfl : pre = [] := eq_nil_of_length_eq_zero (by omega)
      obtain rfl : refunds0 = [] := eq_nil_of_length_eq_zero (by omega)
      exact ⟨(List.cons.inj heq).2, rfl⟩

/-- **When outputs in the place of the refunds pass**, if there are not more of them than refunds:
    they are the refunds, nothing was dropped, and there is an output behind them. -/
lemma HonestRefunds.beforeLast_iff :
    BeforeLast (casino.toList ++ outs ++ extra.toList) (refunds0 ++ refunds) ↔
      outs = refunds ∧ refunds0 = [] ∧ (extra ≠ none ∨ casino ≠ none ∧ refunds = []) := by
  constructor
  · intro hb
    cases extra with
    | none =>
      rw [toList_none, append_nil] at hb
      obtain ⟨hc, h0, rfl⟩ := h.of_beforeLast_none hlen hb
      exact ⟨eq_nil_of_length_eq_zero (Nat.le_zero.mp hlen), h0, Or.inr ⟨hc, rfl⟩⟩
    | some x =>
      obtain ⟨ho, h0⟩ := h.of_beforeLast_some hlen hb
      exact ⟨ho, h0, Or.inl (by simp)⟩
  · rintro ⟨rfl, rfl, hx⟩
    cases extra with
    | some x => exact ⟨casino.toList, x, rfl⟩
    | none =>
      obtain ⟨hc, rfl⟩ := hx.resolve_left (fun hne => hne rfl)
      obtain ⟨cas, rfl⟩ := ne_none_iff_exists'.mp hc
      exact ⟨[], cas, rfl⟩

end

end Outputs

/-! ## Honest blocks -/

section Honest

variable {ctx : MinerContext} (det : ExecutionDetermined ctx.E) {s s' t : ctx.E.State}
  {fuel : ℕ} {script : CScript} {w : Bool} {template : CBlockTemplate} {r : Selected}
  {s₁ : ctx.E.State}

/-- **The coinbase gets a commitment**: segwit has a timeout, and the reward script is no commitment
    itself. -/
def GetsCommitment (ctx : MinerContext) (script : CScript) : Prop :=
  ctx.segwitTimeout = true ∧ isWitnessCommitment script = false

/-- **The casino output leaves no refund**, or there is none at this height. -/
def CasinoUnrefunded (ctx : MinerContext) (s : ctx.E.State) : Prop :=
  ∀ o refunds, CasinoRefunds ctx s o refunds → refunds = []

/-- The height is one with a casino output. -/
def HasCasino (nHeight : ℕ) : Prop :=
  nHeight = 1 ∨ 2 < nHeight ∧ (nHeight - 1) % chainPhaseSize = chainPhaseSize - 1

variable {o : Option CScript} {refunds extra : List CTxOut}

lemma hasCasino_iff {p : ctx.E.State} (h : casinoScript ctx.E ctx.casino ctx.nHeight s = .ok o p) :
    o ≠ none ↔ HasCasino ctx.nHeight := by
  unfold casinoScript at h
  unfold HasCasino
  split_ifs at h with h1 h2
  · obtain rfl := (Result.ok.inj h).1
    simp [h1]
  · obtain ⟨_, _, _, hend⟩ := bind_ok.mp h
    obtain rfl := (Result.ok.inj hend).1
    simp [h2]
  · obtain rfl := (Result.ok.inj h).1
    simp [h1, h2]

/-- The refunds of the casino output are refunds. -/
lemma CasinoRefunds.isRefund (h : CasinoRefunds ctx s o refunds) :
    ∃ txs, ∀ g ∈ refunds, IsRefund ctx.crypto ctx.E txs g := by
  obtain ⟨p, p', _, hrun⟩ := h
  refine ⟨[⟨0, [], casinoOutputs o, 0⟩], ?_⟩
  refine foldlM_value (P := fun refunds => ∀ g ∈ refunds, IsRefund ctx.crypto ctx.E _ g) ?_
    (by simp) hrun
  exact fun out hout b t4 b' t5 hb hstep =>
    execOutput_refunds mem_cons_self hout hb hstep

/-- The two runs give the same refunds. -/
lemma CasinoRefunds.unique {o' : Option CScript} {refunds' : List CTxOut}
    (h : CasinoRefunds ctx s o refunds) (h' : CasinoRefunds ctx s o' refunds') :
    refunds = refunds' := by
  obtain ⟨p, q, hp, hq⟩ := h
  obtain ⟨p', q', hp', hq'⟩ := h'
  rw [hp] at hp'
  cases hp'
  rw [hq] at hq'
  exact (Result.ok.inj hq').1

variable {refunds0 : List CTxOut}

/-- The refunds of the miner and those it drops. -/
lemma honestRefunds (hsel : selectTransactions ctx fuel script w s = .ok r s₁)
    (h : CasinoRefunds ctx s o refunds0) :
    HonestRefunds (o.map fun script => ⟨0, script⟩) refunds0 r.assembler.vRefundGasFee := by
  obtain ⟨_, _, _, _, _, hA⟩ := selectTransactions_ok hsel
  obtain ⟨txs, hrefunds⟩ := h.isRefund
  obtain ⟨p, p', hscript, hrun⟩ := h
  constructor
  · intro out hout hmem
    obtain ⟨sc, rfl, rfl⟩ := map_eq_some_iff.mp hout
    have hbegins := casinoScript_begins hscript
    rcases mem_append.mp hmem with hmem | hmem
    · exact (hrefunds _ hmem).not_begins hbegins
    · exact (execTxs_refunds hA.run _ hmem).not_begins hbegins
  · intro hnone
    obtain rfl := map_eq_none_iff.mp hnone
    exact (Result.ok.inj hrun).1.symm

/-- Whether the coinbase gets a commitment can be seen from the reward script. -/
lemma commits_iff (hsel : selectTransactions ctx fuel script w s = .ok r s₁)
    (hshape : CoinbaseShape ctx script r coinbase (casinoOutputs o) extra)
    (h : CasinoRefunds ctx s o refunds0) : commits ctx r = true ↔ GetsCommitment ctx script := by
  obtain ⟨_, _, _, _, _, hA⟩ := selectTransactions_ok hsel
  obtain ⟨p, p', hscript, _⟩ := h
  have hcasino : ∀ out ∈ casinoOutputs o, isWitnessCommitment out.scriptPubKey = false := by
    intro out hout
    cases o with
    | none => cases hout
    | some sc =>
      obtain rfl := mem_singleton.mp hout
      exact (casinoScript_begins hscript).not_commitment
  have hrefunds : ∀ g ∈ r.assembler.vRefundGasFee, isWitnessCommitment g.scriptPubKey = false :=
    fun g hg => (execTxs_refunds hA.run g hg).not_commitment
  have hrest : ∀ out ∈ casinoOutputs o ++ r.assembler.vRefundGasFee,
      ¬ isWitnessCommitment out.scriptPubKey = true := fun out hout =>
    Bool.eq_false_iff.mp ((mem_append.mp hout).elim (hcasino out) (hrefunds out))
  unfold commits GetsCommitment witnessCommitment
  rw [hshape.reward, filter_cons, filter_eq_nil_iff.mpr hrest]
  cases ctx.segwitTimeout <;> cases isWitnessCommitment script <;> simp

/-- The block has the selected transactions, and a coinbase with other outputs in the place of the
    refunds and perhaps another output for the miner; none of them is a contract output. -/
structure Replaces (r : Selected) (casino extra outs : List CTxOut) (tampered : CBlock) : Prop where
  vtx : ∃ coinbase out, tampered.vtx = coinbase :: r.assembler.vtx.tail ∧
    coinbase.vout = out :: (casino ++ outs ++ extra) ∧ out.isContract = false
  plain : Plain outs

variable {tampered : CBlock}

/-- How the comparison reads such a block. -/
lemma Replaces.compare_iff {casino outs : List CTxOut}
    (h : Replaces r casino extra outs tampered) : compareRefundFee tampered refunds = .ok true ↔
      BeforeLast (casino ++ outs ++ extra) refunds := by
  obtain ⟨⟨coinbase, out, hcb, hout, _⟩, _⟩ := h
  rw [compareRefundFee_iff hcb, hout]
  constructor
  · rintro ⟨_, pre, last, heq⟩
    exact ⟨pre, last, (List.cons.inj heq).2⟩
  · rintro ⟨pre, last, heq⟩
    exact ⟨out, pre, last, by rw [heq]⟩

lemma Replaces.compare_false {casino outs : List CTxOut} (h : Replaces r casino extra outs tampered)
    (hno : ¬ BeforeLast (casino ++ outs ++ extra) refunds) :
    compareRefundFee tampered refunds = .ok false := by
  have htrue := mt h.compare_iff.mp hno
  obtain ⟨⟨coinbase, out, hcb, _, _⟩, _⟩ := h
  simp only [compareRefundFee, hcb] at htrue ⊢
  split_ifs at htrue ⊢ with hlen
  · rfl
  · exact congrArg Except.ok (Bool.eq_false_iff.mpr fun hall => htrue (congrArg Except.ok hall))

/-- **The comparison accepts an honestly built block if and only if the casino output leaves no
    refund**, and the coinbase gets a commitment (or has nothing but the casino output behind the
    miner's).  A block with other outputs in the place of the refunds, altered, left out or in
    another order, it does not accept. -/
theorem createNewBlock_refunds_match_iff (hs : det.Ready s) (hscript : hasOpCreate script = false)
    (hscript' : hasOpCall script = false) (hsel : selectTransactions ctx fuel script w s = .ok r s₁)
    (h : createNewBlock ctx fuel script w s = .ok template s') (ht : det.Ready t)
    (hroot : det.root t = det.root s) :
    ∃ refunds casino extra t', getBlockContract ctx.crypto ctx.E template.block t
        = .ok (true, refunds) t' ∧
      Replaces r casino extra r.assembler.vRefundGasFee template.block ∧
      (compareRefundFee template.block refunds = .ok true ↔ CasinoUnrefunded ctx s ∧
        (GetsCommitment ctx script ∨ HasCasino ctx.nHeight ∧ r.assembler.rebuilds = false)) ∧
      ∀ outs tampered, Replaces r casino extra outs tampered → outs ≠ r.assembler.vRefundGasFee →
        outs.length ≤ r.assembler.vRefundGasFee.length →
        ∃ t'', getBlockContract ctx.crypto ctx.E tampered t = .ok (true, refunds) t'' ∧
          compareRefundFee tampered refunds = .ok false := by
  obtain ⟨o, refunds0, hcas, horig, _, hrepeat⟩ :=
    getBlockContract_repeats det hs hscript hscript' hsel ht hroot
  obtain ⟨coinbase, extra, hvtx, hshape, hrefunds, hextra⟩ :=
    template_coinbase hsel h horig
  have hhonest := honestRefunds hsel hcas
  -- At most one output is added behind the refunds.
  obtain ⟨x, rfl⟩ : ∃ x : Option CTxOut, extra = x.toList := by
    have hlen := hshape.extra_length
    rcases extra with _ | ⟨x, _ | ⟨y, extra⟩⟩
    · exact ⟨none, rfl⟩
    · exact ⟨some x, rfl⟩
    · simp only [length_cons] at hlen
      split_ifs at hlen
      · omega
  have hself : Replaces r (casinoOutputs o) x.toList r.assembler.vRefundGasFee template.block :=
    ⟨⟨coinbase, _, hvtx, hshape.vout, by simp [CTxOut.isContract, hscript, hscript']⟩,
      fun out hg => (hrefunds out hg).plain⟩
  -- Any of these blocks gives the same refunds.
  have hany : ∀ outs tampered, Replaces r (casinoOutputs o) x.toList outs tampered →
      ∃ t', getBlockContract ctx.crypto ctx.E tampered t
        = .ok (true, refunds0 ++ r.assembler.vRefundGasFee) t' := by
    rintro outs tampered ⟨⟨cb, out, hcb, hout, hplain⟩, houts⟩
    obtain ⟨t', hrun, _⟩ := hrepeat tampered ⟨cb, out, outs ++ x.toList, hcb,
      by rw [hout, append_assoc], hplain,
      fun out hmem => (mem_append.mp hmem).elim (houts out) (hextra out)⟩
    exact ⟨t', hrun⟩
  obtain ⟨t', hrun⟩ := hany _ _ hself
  refine ⟨_, _, _, t', hrun, hself, ?_, ?_⟩
  · have hx : x ≠ none ↔ GetsCommitment ctx script := by
      rw [← commits_iff hsel hshape hcas]
      have hlen := hshape.extra_length
      cases x with
      | none | some x => split_ifs at hlen with hc <;> simp_all
    have hc : (o.map fun script => (⟨0, script⟩ : CTxOut)) ≠ none ↔ HasCasino ctx.nHeight := by
      obtain ⟨p, p', hquery, _⟩ := hcas
      rw [← hasCasino_iff hquery, ne_eq, map_eq_none_iff]
    have h₀ : refunds0 = [] ↔ CasinoUnrefunded ctx s :=
      ⟨fun hnil o' refunds' h' => (h'.unique hcas).trans hnil, fun hall => hall o refunds0 hcas⟩
    have hr : r.assembler.vRefundGasFee = [] ↔ r.assembler.rebuilds = false := by
      obtain ⟨_, _, _, _, _, hA⟩ := selectTransactions_ok hsel
      rw [Bool.eq_false_iff, ne_eq, hA.rebuilds_iff, not_not]
    rw [hself.compare_iff, ← hx, ← hc, ← h₀, ← hr]
    exact (hhonest.beforeLast_iff le_rfl).trans (and_iff_right rfl)
  · intro outs tampered htampered hne hlen
    obtain ⟨t'', hrun'⟩ := hany outs tampered htampered
    refine ⟨t'', hrun', htampered.compare_false fun hb => ?_⟩
    exact hne ((hhonest.beforeLast_iff hlen).mp hb).1

end Honest

/-! ## Two heights -/

/-- The miner at height 2, where there is no casino output. -/
abbrev MinerContext.second : MinerContext :=
  { MinerContext.small (poolWith gasTx) with
    chain := { ChainContext.small 0 ⟨fun _ => none⟩ with
      mapBlockIndex := fun h => if h = 1001#256 then some smallIndex else none }
    cache := ([] : List Uint256)
    tip := smallIndex
    viewNew := { ownedView with hashBlock := 1001#256 } }

/-- How the comparison ends for a block and the refunds recomputed for it. -/
def comparison (block : CBlock) : Result Fault Uint256 (Bool × List CTxOut) →
    Option (ℕ × Bool)
  | .ok (_, refunds) _ => (compareRefundFee block refunds).toOption.map fun b => (refunds.length, b)
  | .error _ _ => none

lemma comparison_eq_some {res : Result Fault Uint256 (Bool × List CTxOut)}
    {n : ℕ} {b : Bool} (h : comparison block res = some (n, b)) :
    ∃ ok refunds t', res = .ok (ok, refunds) t' ∧ refunds.length = n ∧
      compareRefundFee block refunds = .ok b := by
  cases res with
  | error e t' => cases h
  | ok p t' =>
    obtain ⟨ok, refunds⟩ := p
    simp only [comparison] at h
    cases hc : compareRefundFee block refunds with
    | error e =>
      rw [hc] at h
      cases h
    | ok b' =>
      rw [hc] at h
      cases Option.some.inj h
      exact ⟨ok, refunds, t', rfl, rfl, hc⟩

/-- The block at height 2 pays a refund, and the comparison accepts it. -/
theorem createNewBlock_refunds_match_second : ∃ template s' refunds t',
    createNewBlock .second 10 [OP_1] true 0#256 = .ok template s' ∧
      getBlockContract Crypto.zeros .counting template.block 0#256 = .ok (true, refunds) t' ∧
      compareRefundFee template.block refunds = .ok true := by
  have hrun : returnsWith (fun _ _ => true)
      (createNewBlock .second 10 [OP_1] true 0#256) = true := by
    decide +kernel
  obtain ⟨template, s', h, _⟩ := returnsWith_iff.mp hrun
  obtain ⟨r, s₁, _, _, hsel, _⟩ := createNewBlock_ok h
  obtain ⟨refunds, casino, extra, t', hexec, _, hiff, _⟩ := createNewBlock_refunds_match_iff
    ExecutionDetermined.counting (counting_ready 0#256) (by decide +kernel)
      (by decide +kernel) hsel h
    (counting_ready 0#256) rfl
  refine ⟨template, s', refunds, t', h, hexec, hiff.mpr ⟨?_, Or.inl ⟨rfl, by decide⟩⟩⟩
  rintro o refunds' ⟨p, p', hscript, hcas⟩
  cases hscript
  exact (Result.ok.inj hcas).1.symm

/-- **The honest block at height 1 fails the comparison**: the validator recomputes two refunds, and
    the coinbase has one of them.  `CheckContractRefundFee` itself accepts any block. -/
theorem createNewBlock_casino_refund_dropped : ∃ template s' ok refunds t',
    createNewBlock (.small (poolWith gasTx)) 10 [OP_1] true 0#256 = .ok template s' ∧
      getBlockContract Crypto.zeros .counting template.block 0#256 = .ok (ok, refunds) t' ∧
      refunds.length = 2 ∧ compareRefundFee template.block refunds = .ok false ∧
      ∀ block refunds', checkContractRefundFee block refunds' = true := by
  have hrun : returnsWith (fun template _ => decide (comparison template.block
      (getBlockContract Crypto.zeros .counting template.block 0#256) = some (2, false)))
      (createNewBlock (.small (poolWith gasTx)) 10 [OP_1] true 0#256) = true := by decide +kernel
  obtain ⟨template, s', h, hc⟩ := returnsWith_iff.mp hrun
  obtain ⟨ok, refunds, t', hexec, hlen, hcompare⟩ := comparison_eq_some (of_decide_eq_true hc)
  exact ⟨template, s', ok, refunds, t', h, hexec, hlen, hcompare, fun _ _ => rfl⟩

end Ybtc
