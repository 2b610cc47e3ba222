import Ybtc.Script.ScriptNum
import Ybtc.Mempool.Pool

/-!
# Standard scripts and transactions

`Solver` of `script/standard.cpp` compares a script with a list of templates, and `IsStandardTx` of
`policy/policy.cpp` lets only transactions through all of whose outputs it knows.
-/

namespace Ybtc

open Fallible

/-! ## Templates -/

/-- `txnouttype`. -/
inductive TxnOutType
  | nonstandard
  | pubkey
  | pubkeyHash
  | scriptHash
  | multiSig
  | smartCode
  | nullData
  | witnessV0ScriptHash
  | witnessV0KeyHash
  | create
  | call
  | oops
deriving Repr, DecidableEq

/-! The opcodes that stand for something in a template. -/

abbrev OP_AMOUNT : UInt8 := 0xf4
abbrev OP_GAS_PRICE : UInt8 := 0xf5
abbrev OP_GAS_LIMIT : UInt8 := 0xf7
abbrev OP_DATA : UInt8 := 0xf8
abbrev OP_ADDRESS : UInt8 := 0xf9
abbrev OP_SMALLINTEGER : UInt8 := 0xfa
abbrev OP_PUBKEYS : UInt8 := 0xfb
abbrev OP_PUBKEYHASH : UInt8 := 0xfd
abbrev OP_PUBKEY : UInt8 := 0xfe

/-- `mTemplates`, which is walked in the order of the types. -/
def templates : List (TxnOutType × List UInt8) :=
  [(.pubkey, [OP_PUBKEY, OP_CHECKSIG]),
   (.pubkeyHash, [OP_DUP, OP_HASH160, OP_PUBKEYHASH, OP_EQUALVERIFY, OP_CHECKSIG]),
   (.multiSig, [OP_SMALLINTEGER, OP_PUBKEYS, OP_SMALLINTEGER, OP_CHECKMULTISIG]),
   (.smartCode, [OP_DATA, OP_PUBKEYS, OP_SMARTCODE]),
   (.create, [OP_ADDRESS, OP_GAS_LIMIT, OP_GAS_PRICE, OP_DATA, OP_PUBKEYHASH, OP_CREATE]),
   (.call, [OP_DATA, OP_ADDRESS, OP_AMOUNT, OP_GAS_LIMIT, OP_GAS_PRICE, OP_DATA, OP_PUBKEYHASH,
     OP_CALL]),
   (.oops, [OP_ADDRESS, OP_DATA, OP_PUBKEYHASH, OP_OOPS])]

/-! ## The comparison -/

/-- How the comparison with a template goes on: with the solutions so far, with the next template
    (`break`), or not at all (`return false`). -/
inductive Match
  | solved (vSolutions : List Bytes)
  | mismatch
  | refused (vSolutions : List Bytes)
deriving Repr, DecidableEq

/-- The size of a key. -/
def isKeySize (vch : Bytes) : Bool := decide (33 ≤ vch.length ∧ vch.length ≤ 65)

/-- What an opcode of a template asks of an instruction.  Only some of them add a solution, and
    the rest has to be the same opcode without an operand. -/
def matchOne (opcode2 : UInt8) (op1 : ScriptOp) (vSolutions : List Bytes) : Match :=
  if opcode2 = OP_PUBKEY then
    if isKeySize op1.vch then .solved (vSolutions ++ [op1.vch]) else .mismatch
  else if opcode2 = OP_PUBKEYHASH then
    if op1.vch.length = 20 then .solved (vSolutions ++ [op1.vch]) else .mismatch
  else if opcode2 = OP_SMALLINTEGER then
    if op1.opcode = OP_0 ∨ (OP_1 ≤ op1.opcode ∧ op1.opcode ≤ OP_16) then
      .solved (vSolutions ++ [[UInt8.ofNat (decodeOpN op1.opcode)]])
    else .mismatch
  else if opcode2 = OP_GAS_LIMIT then
    match vchToUint64 op1.vch with
    | .ok val => if 40000000 / 2 < val then .refused vSolutions else .solved vSolutions
    | .error _ => .refused vSolutions
  else if opcode2 = OP_GAS_PRICE then
    match vchToUint64 op1.vch with
    | .ok val => if val < 1 then .refused vSolutions else .solved vSolutions
    | .error _ => .refused vSolutions
  else if opcode2 = OP_DATA then
    if op1.opcode ≤ OP_PUSHDATA4 ∧ op1.vch = [] then .mismatch else .solved vSolutions
  else if op1.opcode ≠ opcode2 ∨ op1.vch ≠ [] then .mismatch
  else .solved vSolutions

/-- The loop behind `OP_PUBKEYS`: the keys go to the solutions, and the instruction behind them is
    compared with the next opcode.  A `GetOp` that fails leaves `OP_INVALIDOPCODE`. -/
def takeKeys : ScriptOp → List ScriptOp → List Bytes → ScriptOp × List ScriptOp × List Bytes
  | op1, ops, vSolutions =>
    if isKeySize op1.vch then
      match ops with
      | [] => (⟨OP_INVALIDOPCODE, [], []⟩, [], vSolutions ++ [op1.vch])
      | op1' :: ops' => takeKeys op1' ops' (vSolutions ++ [op1.vch])
    else (op1, ops, vSolutions)
termination_by structural _ ops => ops

/-- The rest of the comparison, if an opcode was matched. -/
def Match.andThen (m : Match) (rest : List Bytes → Match) : Match :=
  match m with
  | .solved vSolutions => rest vSolutions
  | .mismatch => .mismatch
  | .refused vSolutions => .refused vSolutions

/-- The comparison loop.  The script is given by its instructions, and `atEnd` says whether they
    reach its end.  `OP_PUBKEYS` takes the keys away, and the next opcode of the template is
    compared with what stands behind them. -/
def matchTemplate (atEnd : Bool) : List UInt8 → List ScriptOp → List Bytes → Match
  | [], [], vSolutions => if atEnd then .solved vSolutions else .mismatch
  | [], _ :: _, _ => .mismatch
  | _ :: _, [], _ => .mismatch
  | opcode2 :: template, op1 :: ops, vSolutions =>
    if opcode2 = OP_PUBKEYS then
      let (op1', ops', vSolutions') := takeKeys op1 ops vSolutions
      matchTemplate atEnd template (op1' :: ops') vSolutions'
    else
      (matchOne opcode2 op1 vSolutions).andThen (matchTemplate atEnd template ops)

/-! ## `Solver` -/

/-- What `Solver` returns; `typeRet` stays as it was where there is none. -/
structure Solved where
  result : Bool
  typeRet : Option TxnOutType
  vSolutionsRet : List Bytes
deriving Repr, DecidableEq

/-- The additional checks for `TX_MULTISIG`. -/
def multiSigFits (vSolutions : List Bytes) : Bool :=
  let m := ((vSolutions.head?.bind List.head?).getD 0).toNat
  let n := ((vSolutions.getLast?.bind List.head?).getD 0).toNat
  !(decide (m < 1) || decide (n < 1) || decide (n < m) || vSolutions.length - 2 != n)

/-- The loop over the templates. -/
def solveTemplates (script : CScript) : List (TxnOutType × List UInt8) → Solved
  | [] => ⟨false, some .nonstandard, []⟩
  | (type, template) :: rest =>
    match matchTemplate (scan script).2 template (scan script).1 [] with
    | .solved vSolutions =>
      if type = .multiSig ∧ multiSigFits vSolutions = false then ⟨false, some type, vSolutions⟩
      else ⟨true, some type, vSolutions⟩
    | .refused vSolutions => ⟨false, none, vSolutions⟩
    | .mismatch => solveTemplates script rest

/-- `Solver`. -/
def solver (scriptPubKey : CScript) : Solved :=
  if isPayToScriptHash scriptPubKey then
    ⟨true, some .scriptHash, [(scriptPubKey.drop 2).take 20]⟩
  else
    match isWitnessProgram scriptPubKey with
    | some (witnessversion, witnessprogram) =>
      if witnessversion = 0 ∧ witnessprogram.length = 20 then
        ⟨true, some .witnessV0KeyHash, [witnessprogram]⟩
      else if witnessversion = 0 ∧ witnessprogram.length = 32 then
        ⟨true, some .witnessV0ScriptHash, [witnessprogram]⟩
      else ⟨false, none, []⟩
    | none =>
      if 1 ≤ scriptPubKey.length ∧ byteAt scriptPubKey 0 = OP_RETURN ∧
          isPushOnly scriptPubKey.tail = true then ⟨true, some .nullData, []⟩
      else solveTemplates scriptPubKey templates

/-! ## The policy -/

/-- The settings of the node. -/
structure RelayPolicy where
  witnessEnabled : Bool
  fAcceptDatacarrier : Bool
  nMaxDatacarrierBytes : ℕ
  fIsBareMultisigStd : Bool
  dustRelayFee : CFeeRate

/-- `GetDustThreshold`. -/
def getDustThreshold (txout : CTxOut) (dustRelayFee : CFeeRate) : CAmount :=
  if isUnspendable txout.scriptPubKey then 0
  else
    let nSize := CTransaction.sizeOfTxOut txout
    if (isWitnessProgram txout.scriptPubKey).isSome then
      dustRelayFee.getFee (nSize + (32 + 4 + 1 + 107 / witnessScaleFactor + 4))
    else dustRelayFee.getFee (nSize + (32 + 4 + 1 + 107 + 4))

/-- `IsDust`. -/
def isDust (txout : CTxOut) (dustRelayFee : CFeeRate) : Bool :=
  decide (txout.nValue < getDustThreshold txout dustRelayFee)

/-- `IsStandard`, with the type it sets. -/
def isStandard (policy : RelayPolicy) (scriptPubKey : CScript) : Bool × Option TxnOutType :=
  let solved := solver scriptPubKey
  let m := ((solved.vSolutionsRet.head?.bind List.head?).getD 0).toNat
  let n := ((solved.vSolutionsRet.getLast?.bind List.head?).getD 0).toNat
  if !solved.result then (false, solved.typeRet)
  else if solved.typeRet = some .multiSig then
    (decide (1 ≤ n ∧ n ≤ 3 ∧ 1 ≤ m ∧ m ≤ n), solved.typeRet)
  else if solved.typeRet = some .nullData ∧ (!policy.fAcceptDatacarrier ||
      decide (policy.nMaxDatacarrierBytes < scriptPubKey.length)) then
    (false, solved.typeRet)
  else if !policy.witnessEnabled && (solved.typeRet == some .witnessV0KeyHash ||
      solved.typeRet == some .witnessV0ScriptHash) then (false, solved.typeRet)
  else (solved.typeRet != some .nonstandard, solved.typeRet)

/-- `MAX_STANDARD_TX_WEIGHT`. -/
def maxStandardTxWeight : ℕ := 400000

/-- The loop over the inputs. -/
def checkStandardInputs : List CTxIn → Except String Unit
  | [] => .ok ()
  | txin :: vin =>
    if 1650 < txin.scriptSig.length then .error "scriptsig-size"
    else if !isPushOnly txin.scriptSig then .error "scriptsig-not-pushonly"
    else checkStandardInputs vin

/-- The loop over the outputs; it returns `nDataOut`. -/
def checkStandardOutputs (policy : RelayPolicy) : List CTxOut → ℕ → Except String ℕ
  | [], nDataOut => .ok nDataOut
  | txout :: vout, nDataOut =>
    let (standard, whichType) := isStandard policy txout.scriptPubKey
    if !standard then .error "scriptpubkey"
    else if whichType = some .nullData then checkStandardOutputs policy vout (nDataOut + 1)
    else if whichType = some .multiSig ∧ policy.fIsBareMultisigStd = false then
      .error "bare-multisig"
    else if isDust txout policy.dustRelayFee then .error "dust"
    else checkStandardOutputs policy vout nDataOut

/-- `IsStandardTx`; a failure is the reason. -/
def isStandardTx (policy : RelayPolicy) (tx : CTransaction) : Except String Unit := do
  failIf (2 < tx.nVersion ∨ tx.nVersion < 1) "version"
  failIf (maxStandardTxWeight ≤ getTransactionWeight tx) "tx-size"
  checkStandardInputs tx.vin
  let nDataOut ← checkStandardOutputs policy tx.vout 0
  failIf (1 < nDataOut) "multi-op-return"

/-! ## Refusals -/

/-- A transaction with an output that is not standard does not pass. -/
lemma checkStandardOutputs_error (policy : RelayPolicy) {txout : CTxOut}
    (h : (isStandard policy txout.scriptPubKey).1 = false) : ∀ {vout : List CTxOut} {nDataOut : ℕ},
      txout ∈ vout → ∃ reason, checkStandardOutputs policy vout nDataOut = .error reason
  | first :: vout, nDataOut, hmem => by
    rw [checkStandardOutputs]
    rcases List.mem_cons.mp hmem with rfl | hmem
    · exact ⟨"scriptpubkey", by simp [h]⟩
    · dsimp only
      split_ifs
      · exact ⟨_, rfl⟩
      · exact checkStandardOutputs_error policy h hmem
      · exact ⟨_, rfl⟩
      · exact ⟨_, rfl⟩
      · exact checkStandardOutputs_error policy h hmem

/-- **One output that is not standard is enough.** -/
lemma isStandardTx_error (policy : RelayPolicy) {tx : CTransaction} {txout : CTxOut}
    (hmem : txout ∈ tx.vout) (h : (isStandard policy txout.scriptPubKey).1 = false) :
    isStandardTx policy tx ≠ .ok () := by
  intro hok
  obtain ⟨_, _, hok⟩ := bind_ok.mp hok
  obtain ⟨_, _, hok⟩ := bind_ok.mp hok
  obtain ⟨_, _, hok⟩ := bind_ok.mp hok
  obtain ⟨nDataOut, houtputs, -⟩ := bind_ok.mp hok
  obtain ⟨reason, herror⟩ := checkStandardOutputs_error policy h hmem
  rw [herror] at houtputs
  cases houtputs

end Ybtc
