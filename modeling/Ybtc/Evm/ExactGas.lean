import Ybtc.Evm.GasUse

/-!
# The machine with unbounded gas

The machine keeps its gas in 64 bits.  This file has the same machine with numbers of any size for
everything that is computed with gas, and shows that the two take the same steps as long as there is
less than `2 ^ 63` gas: no computation wraps around.  The main results are `VM.payMem_exact` and
`VM.step_exact`.
-/

namespace Ybtc

open Stateful Nat Schedule

namespace VM

/-! ## Arithmetic without bounds -/

/-- `memGas` without bounds. -/
def memGasExact (runGas newMemSize : ℕ) : VmM ℕ := do
  let size ← memSize
  if size < newMemSize then do
    let g ← gasForMem newMemSize
    let g₀ ← gasForMem size
    let d ← toInt63 (g - g₀)
    pure (runGas + d)
  else pure runGas

/-- `updateGas` without bounds. -/
def updateGasExact (runGas newMemSize copyMemSize : ℕ) : VmM ℕ := do
  let runGas ← memGasExact runGas newMemSize
  let runGas := runGas + copyGas * ((copyMemSize + 31) / 32)
  fun vm => if vm.ioGas < runGas then throwOutOfGas vm else .ok runGas vm

/-- `updateMem` without bounds. -/
def updateMemExact (runGas newMemSize copyMemSize : ℕ) : VmM ℕ := do
  let newMemSize := (newMemSize + 31) / 32 * 32
  let runGas ← updateGasExact runGas newMemSize copyMemSize
  resizeMem newMemSize
  pure runGas

/-- `payMem` without bounds. -/
def payMemExact (runGas newMemSize copyMemSize : ℕ) : VmM Unit := do
  let runGas ← updateMemExact runGas newMemSize copyMemSize
  updateIOGas runGas

/-- `callReturn` without bounds. -/
def callReturnExact (gas value : U256) : VmM Unit := fun vm =>
  .ok () { vm with
    ioGas := vm.ioGas + (gas.toNat + if value = 0 then 0 else callStipend) }

/-- `spend` without bounds. -/
def spendExact (used : U256) : VmM Unit := fun vm =>
  .ok () { vm with ioGas := vm.ioGas - used.toNat }

/-- Without bounds. -/
def GasArithmetic.exact : GasArithmetic := ⟨payMemExact, callReturnExact, spendExact⟩

section With

variable (ar : GasArithmetic) (env : StateEnv) (ix : Indexing)

/-- One turn of the loop. -/
def stepWith : VmM (Option Bytes) := do
  let fetched ← fetchInstruction
  executeWith ar env ix fetched.1 fetched.2

/-- The loop, for a number of turns. -/
def runWith : ℕ → VmM Bytes
  | 0 => throw .endless
  | turns + 1 => do
    let out ← stepWith ar env .source
    haltOr (runWith turns) out

end With

variable {env : StateEnv} (ix : Indexing) (op : Instruction)

/-! ## The price of memory -/

lemma toInt63_bind_apply_congr {α : Type} {v : ℕ} {f g : ℕ → VmM α} {vm : VM}
    (h : v ≤ int63Max → f v vm = g v vm) : (toInt63 v >>= f) vm = (toInt63 v >>= g) vm := by
  unfold toInt63
  split_ifs with hv
  · rfl
  · exact h (not_lt.mp hv)

lemma toInt63_bind_congr {α : Type} {v : ℕ} {f g : ℕ → VmM α} (h : v ≤ int63Max → f v = g v) :
    toInt63 v >>= f = toInt63 v >>= g :=
  funext fun vm => toInt63_bind_apply_congr fun hv => congrFun (h hv) vm

variable (n : ℕ) {r : ℕ}

lemma memGas_exact (hr : r ≤ 2 ^ 63) : memGas r n = memGasExact r n := by
  refine bind_congr fun size => ?_
  split_ifs with hlt
  · refine toInt63_bind_congr fun hg => toInt63_bind_congr fun hg0 => ?_
    have hmono := memPrice_mono hlt.le
    rw [show ∀ g g0, g0 ≤ g → g ≤ int63Max → wrap64 (g + 2 ^ 64 - g0) = g - g0 by
      intro g g0 h0 h1
      unfold wrap64
      unfold int63Max at h1
      omega]
    · refine toInt63_bind_congr fun hd => ?_
      rw [show ∀ d, d ≤ int63Max → wrap64 (r + d) = r + d by
        intro d hd
        unfold wrap64
        unfold int63Max at hd
        omega]
      exact hd
    · exact hmono
    · exact hg
  · rfl

variable {c : ℕ}

lemma updateGas_exact (hr : r + copyGas * ((c + 31) / 32) ≤ 2 ^ 63) :
    updateGas r n c = updateGasExact r n c := by
  unfold updateGas updateGasExact
  rw [← memGas_exact n (by omega)]
  funext vm
  have hspec : Does (At (.inOrder fun _ => 0) vm vm.stack vm.pc 0 0) (memGas r n) _ :=
    memGas_spec n (by omega)
  refine hspec.bind_congr (at_self vm) ?_
  rintro r' vm' ⟨⟨-, hhigh⟩, -⟩
  dsimp only
  rw [show wrap64 (r' + copyGas * ((c + 31) / 32))
      = r' + copyGas * ((c + 31) / 32) by
    unfold wrap64
    unfold int63Max at hhigh
    omega]

/-- **The price of memory and copies does not wrap.** -/
lemma payMem_exact (hr : r + copyGas * ((c + 31) / 32) ≤ 2 ^ 63) :
    GasArithmetic.exact.payMem r n c = GasArithmetic.bits64.payMem r n c := by
  show payMemExact r n c = payMem r n c
  simp only [payMemExact, payMem, updateMemExact, updateMem, updateGas_exact _ hr]

lemma payMem_exact_zero (hr : r ≤ 2 ^ 63) :
    GasArithmetic.exact.payMem r n 0 = GasArithmetic.bits64.payMem r n 0 :=
  payMem_exact n (by simpa using hr)

/-! ## Instructions -/

section Instructions

variable {ix : Indexing} {g : ℕ}

lemma mload_exact (hg : g ≤ 2 ^ 63) : mloadWith .exact ix g = mload ix g := by
  simp only [mloadWith, mload, payMem_exact_zero _ hg]

lemma store_exact (width : ℕ) (f : U256 → Bytes) (hg : g ≤ 2 ^ 63) :
    storeWith .exact ix width f g = store ix width f g := by
  simp only [storeWith, store, payMem_exact_zero _ hg]

lemma execSha3_exact (sha3 : Bytes → Uint256) : execSha3With .exact ix sha3 = execSha3 ix sha3 := by
  refine bind_congr fun offset => bind_congr fun size => toInt63_bind_congr fun hg => ?_
  simp only [payMem_exact_zero _ (hg.trans (by decide))]

lemma execLog_exact : execLogWith .exact ix n = execLog ix n := by
  refine bind_congr fun offset => bind_congr fun size => toInt63_bind_congr fun hg => ?_
  simp only [payMem_exact_zero _ (hg.trans (by decide))]

lemma execCopy_exact (data : ExtVM → Bytes) (hg : g ≤ 20) :
    execCopyWith .exact ix data g = execCopy ix data g := by
  refine bind_congr fun offset => bind_congr fun size => toInt63_bind_congr fun hs => ?_
  simp only [payMem_exact _ (copyGas_le hg hs)]

lemma execExtcodecopy_exact : execExtcodecopyWith .exact env ix = execExtcodecopy env ix := by
  refine bind_congr fun offset => bind_congr fun size => toInt63_bind_congr fun hs => ?_
  simp only [payMem_exact _ (copyGas_le (r := extcodecopyGas) (by decide) hs)]

lemma execReturn_exact (hg : g ≤ 2 ^ 63) : execReturnWith .exact ix g = execReturn ix g := by
  simp only [execReturnWith, execReturn, payMem_exact_zero _ hg]

end Instructions

/-! ## Calls -/

section Calls

variable {α β : Type} {vm : VM}

/-- Where the code returns, it has taken off some gas. -/
def Costs (c : ℕ) (x : VmM α) : Prop := ∀ vm a vm', x vm = .ok a vm' → vm'.ioGas + c ≤ vm.ioGas

variable {x : VmM α}

lemma Saves.costs (hx : Saves x) : Costs 0 x := by
  intro vm a vm' h
  have hvm := hx vm
  rwa [h] at hvm

lemma Built.costs (hx : Built False False x) : Costs 0 x := hx.saves.costs

lemma updateIOGas_costs (g : ℕ) : Costs g (updateIOGas g) := by
  intro vm _ vm' h
  unfold updateIOGas at h
  split_ifs at h with hlow
  · cases h
  · cases h
    dsimp only
    omega

lemma payMem_costs (hr : r ≤ 2 ^ 63) : Costs r (payMem r n 0) := by
  intro vm _ vm' h
  have hspec : Does (At (.inOrder fun _ => 0) vm vm.stack vm.pc 0 0) (payMem r n 0) _ :=
    payMem_spec_zero n hr
  have hat := (hspec.ok (at_self vm) h).gas
  omega

/-- Two continuations that agree where there is less gas. -/
lemma Costs.bind_congr {f g : α → VmM β} (hx : Costs c x)
    (h : ∀ a vm', vm'.ioGas + c ≤ vm.ioGas → f a vm' = g a vm') : (x >>= f) vm = (x >>= g) vm := by
  rw [bind_apply, bind_apply]
  cases hres : x vm with
  | error e vm' => rfl
  | ok a vm' => exact h a vm' (hx vm a vm' hres)

/-- **The gas that comes back** is less than what was taken off, so the sum does not wrap. -/
lemma callReturn_exact {gas value : U256} {G : ℕ} (hG : G < 2 ^ 63)
    (hpaid : vm.ioGas + gas.toNat + (callGas + if value = 0 then 0 else callValueTransferGas) ≤ G) :
    callReturnExact gas value vm = callReturn gas value vm := by
  have hsum : (gas + if value = 0 then 0 else BitVec.ofNat 256 callStipend).toNat
      = gas.toNat + if value = 0 then 0 else callStipend := by
    rw [BitVec.toNat_add, mod_eq_of_lt]
    · split_ifs <;> rfl
    · split_ifs
      · have h0 : (0 : U256).toNat = 0 := rfl
        omega
      · rw [BitVec.toNat_ofNat, callStipend]
        omega
  have hless : (if value = 0 then 0 else callStipend)
      ≤ callGas + if value = 0 then 0 else callValueTransferGas := by
    split_ifs <;> decide
  unfold callReturnExact callReturn returnGas wrap64
  rw [hsum, mod_eq_of_lt (show _ < 2 ^ 64 by omega), mod_eq_of_lt (by omega)]

/-- **What a creation uses** is there, so the difference does not wrap. -/
lemma spend_exact {used : U256} (hused : used.toNat ≤ vm.ioGas) (hgas : vm.ioGas < 2 ^ 63) :
    spendExact used vm = spend used vm := by
  have hioGas : (BitVec.ofNat 256 vm.ioGas).toNat = vm.ioGas := by
    rw [BitVec.toNat_ofNat]
    omega
  have hdiff : (BitVec.ofNat 256 vm.ioGas - used).toNat = vm.ioGas - used.toNat := by
    rw [BitVec.toNat_sub_of_le (by rw [BitVec.le_def, hioGas]; exact hused), hioGas]
  unfold spendExact spend wrap64
  rw [hdiff, mod_eq_of_lt (by omega)]

/-- A creation. -/
lemma caseCreate_exact (hgas : vm.ioGas < 2 ^ 63) :
    caseCreateWith .exact env vm = caseCreate env vm := by
  have hprice : createGas ≤ 2 ^ 63 := by decide
  unfold caseCreate caseCreateWith
  refine (Built.peek 1).costs.bind_congr fun offset vm1 h1 => ?_
  refine (Built.peek 2).costs.bind_congr fun size vm2 h2 => ?_
  refine (memNeed_built _ _).costs.bind_congr fun need vm3 h3 => ?_
  rw [payMem_exact_zero _ hprice]
  refine (payMem_costs _ hprice).bind_congr fun _ vm4 h4 => ?_
  refine Built.pop.costs.bind_congr fun endowment vm5 h5 => ?_
  refine Built.pop.costs.bind_congr fun _ vm6 h6 => ?_
  refine Built.pop.costs.bind_congr fun _ vm7 h7 => ?_
  by_cases hvalue : endowment ≠ 0
  · rw [if_pos hvalue, if_pos hvalue]
  rw [if_neg hvalue, if_neg hvalue]
  refine (Built.myBalance env).costs.bind_congr fun balance vm8 h8 => ?_
  refine Built.context.costs.bind_congr fun ctx vm9 h9 => ?_
  by_cases hdepth : endowment ≤ balance ∧ ctx.depth < 1024
  · rw [if_pos hdepth, if_pos hdepth]
    refine Built.gasLeft.costs.bind_congr fun createGas vm10 h10 => ?_
    refine (Built.readShortObject env _).costs.bind_congr fun a vm11 h11 => ?_
    refine (Built.push a).costs.bind_congr fun _ vm12 h12 => ?_
    -- `create` leaves the gas it is given
    have hspend : spendExact (createGas - createGas) vm12 = spend (createGas - createGas) vm12 :=
      spend_exact (by rw [sub_self]; exact Nat.zero_le _) (by omega)
    show (spendExact (createGas - createGas) >>= _) vm12 =
      (spend (createGas - createGas) >>= _) vm12
    rw [bind_apply, bind_apply, hspend]
  · rw [if_neg hdepth, if_neg hdepth]

/-- A call. -/
lemma caseCall_exact (delegate : Bool) (hgas : vm.ioGas < 2 ^ 63) :
    caseCallWith .exact env delegate vm = caseCall env delegate vm := by
  unfold caseCall caseCallWith
  refine (callValue_built delegate).costs.bind_congr fun value vm1 h1 => ?_
  refine (Built.peek _).costs.bind_congr fun inputOffset vm2 h2 => ?_
  refine (Built.peek _).costs.bind_congr fun inputSize vm3 h3 => ?_
  refine (Built.peek _).costs.bind_congr fun outputOffset vm4 h4 => ?_
  refine (Built.peek _).costs.bind_congr fun outputSize vm5 h5 => ?_
  refine (memNeed_built _ _).costs.bind_congr fun inputMemNeed vm6 h6 => ?_
  refine (memNeed_built _ _).costs.bind_congr fun outputMemNeed vm7 h7 => ?_
  have hprice : callGas + (if value = 0 then 0 else callValueTransferGas)
      ≤ 2 ^ 63 := by
    split_ifs <;> decide
  rw [payMem_exact_zero _ hprice]
  refine (payMem_costs _ hprice).bind_congr fun _ vm8 h8 => ?_
  refine (Built.peek 0).costs.bind_congr fun gas vm9 h9 => ?_
  refine toInt63_bind_apply_congr fun _ => ?_
  refine (updateIOGas_costs gas.toNat).bind_congr fun _ vm10 h10 => ?_
  refine (popN_built _).costs.bind_congr fun _ vm11 h11 => ?_
  refine (Built.myBalance env).costs.bind_congr fun balance vm12 h12 => ?_
  refine Built.context.costs.bind_congr fun ctx vm13 h13 => ?_
  refine (Built.push _).costs.bind_congr fun _ vm14 h14 => ?_
  have hreturn : callReturnExact gas value vm14 = callReturn gas value vm14 :=
    callReturn_exact hgas (by omega)
  show (callReturnExact gas value >>= _) vm14 = (callReturn gas value >>= _) vm14
  rw [bind_apply, bind_apply, hreturn]

end Calls

/-! ## Steps and runs -/

section Runs

variable {prog : Bytes} {vm : VM} {g : ℕ}

/-- The gas of a tier is small. -/
lemma tierStepGas_le {t : Tier} (h : tierStepGas t = some g) : g ≤ 20 := by
  cases t <;> simp [tierStepGas] at h <;> omega

/-- **One instruction.** -/
lemma execute_exact (hg : g ≤ 20) (hgas : vm.ioGas < 2 ^ 63) :
    executeWith .exact env ix op g vm = execute env ix op g vm := by
  have hg' : g ≤ 2 ^ 63 := by omega
  unfold execute executeWith
  cases op with
  | mload => exact congrFun (mload_exact hg') vm
  | mstore | mstore8 => exact congrFun (store_exact _ _ hg') vm
  | sha3 => exact congrFun (execSha3_exact _) vm
  | log n => exact congrFun (execLog_exact n) vm
  | calldatacopy | codecopy => exact congrFun (execCopy_exact _ hg) vm
  | extcodecopy => exact congrFun execExtcodecopy_exact vm
  | create => exact caseCreate_exact hgas
  | call | callcode | staticcall => exact caseCall_exact false hgas
  | delegatecall => exact caseCall_exact true hgas
  | «return» => exact congrFun (execReturn_exact hg') vm
  | _ => rfl

/-- The gas that an instruction is fetched with. -/
lemma fetchInstruction_gas {fetched : Instruction × ℕ} {vm' : VM}
    (h : fetchInstruction vm = .ok fetched vm') : fetched.2 ≤ 20 := by
  obtain ⟨b, vm1, -, h1⟩ := bind_ok.mp h
  obtain ⟨_, vm2, -, h2⟩ := bind_ok.mp h1
  obtain ⟨g, vm3, htier, hend⟩ := bind_ok.mp h2
  cases hend
  unfold tierGas at htier
  cases ht : tierStepGas (instructionInfo (.ofByte b)).gasPriceTier with
  | none => rw [ht] at htier; cases htier
  | some g' =>
    rw [ht] at htier
    cases htier
    exact tierStepGas_le ht

/-- **One step.** -/
lemma step_exact (hgas : vm.ioGas < 2 ^ 63) :
    stepWith .exact env .source vm = step env .source vm := by
  unfold stepWith step
  rw [bind_apply, bind_apply]
  cases hfetch : fetchInstruction vm with
  | error e vm' => rfl
  | ok fetched vm' =>
    have hless := fetchInstruction_saves.costs vm fetched vm' hfetch
    exact execute_exact .source fetched.1 (fetchInstruction_gas hfetch) (by omega)

/-- **Runs**, by induction on the number of turns. -/
lemma OnTrack.run_exact (h : OnTrack prog vm) (hgas : vm.ioGas < 2 ^ 63) (turns : ℕ) :
    runWith .exact env turns vm = run env turns vm := by
  induction turns generalizing vm with
  | zero => rfl
  | succ turns ih =>
    rw [runWith, run, bind_apply, bind_apply, step_exact hgas]
    cases hstep : step env .source vm with
    | error e vm' => rfl
    | ok out vm' =>
      have hs := h.stepped hstep
      cases out with
      | some b => rfl
      | none => exact ih hs.onTrack (hs.gas.trans hgas)

end Runs

end VM

end Ybtc
