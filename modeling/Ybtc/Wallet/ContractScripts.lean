import Mathlib
import Ybtc.Contract.PushedCall
import Ybtc.Evm.Account

/-!
# The contract outputs of the wallet

`createcontract`, `sendtocontract` and `oops` push their arguments one after the other and end the
script with the opcode.  The main result is `ContractCommand.parseStack_scriptPubKey`.
-/

namespace Ybtc

open BitVec (ofNat)

open List

/-! ## Arguments -/

/-- What `base58toVMAddress` returns: the bytes of a key id. -/
abbrev VMAddress := { b : Bytes // b.length = 20 }

/-- A number of 64 bits with the sign bit clear. -/
abbrev Int63 := { n : ℕ // n < 2 ^ 63 }

/-- `ParseHex(…)` of a byte code or of call data, short enough for a push. -/
abbrev PushData := { b : Bytes // b.length ≤ maxScriptElementSize }

/-! ## Commands -/

/-- The arguments of `createcontract`. -/
structure CreateContract where
  contractAddress : VMAddress
  bytecode : PushData
  originAddress : VMAddress
  nGasLimit : Int63
  nGasPrice : Int63

/-- The script of `createcontract`. -/
def CreateContract.scriptPubKey (c : CreateContract) : CScript :=
  let script := pushBytes [] c.originAddress
  let script := pushNum script c.nGasLimit.val
  let script := pushNum script c.nGasPrice.val
  let script := pushBytes script c.bytecode
  let script := pushBytes script c.contractAddress
  script ++ [OP_CREATE]

/-- The outputs `createcontract` asks for. -/
def CreateContract.recipients (c : CreateContract) : List CTxOut := [⟨0, c.scriptPubKey⟩]

/-- The arguments of `sendtocontract`. -/
structure SendToContract where
  contractAddress : VMAddress
  datahex : PushData
  callerAddress : VMAddress
  nGasLimit : Int63
  nGasPrice : Int63
  nAmount : Int63
  receiverAddress : VMAddress

/-- The script of `sendtocontract`. -/
def SendToContract.scriptPubKey (c : SendToContract) : CScript :=
  let script := pushNum [] c.nAmount.val
  let script := pushBytes script c.callerAddress
  let script := pushNum script c.nGasLimit.val
  let script := pushNum script c.nGasPrice.val
  let script := pushBytes script c.datahex
  let script := pushBytes script c.contractAddress
  script ++ [OP_CALL]

/-- The script of the output that carries the value. -/
def SendToContract.scriptValue (c : SendToContract) : CScript :=
  pushBytes [OP_DUP, OP_HASH160] c.receiverAddress ++ [OP_EQUALVERIFY, OP_CHECKSIG]

/-- The outputs `sendtocontract` asks for. -/
def SendToContract.recipients (c : SendToContract) : List CTxOut :=
  [⟨0, c.scriptPubKey⟩, ⟨c.nAmount.val, c.scriptValue⟩]

/-- The arguments of `oops`. -/
structure Oops where
  receiverAddress : VMAddress
  bytecode : PushData
  senderAddress : VMAddress

/-- The script of `oops`. -/
def Oops.scriptPubKey (c : Oops) : CScript :=
  let script := pushBytes [] c.senderAddress
  let script := pushBytes script c.bytecode
  let script := pushBytes script c.receiverAddress
  script ++ [OP_OOPS]

/-- The outputs `oops` asks for. -/
def Oops.recipients (c : Oops) : List CTxOut := [⟨0, c.scriptPubKey⟩]

/-! ## The commands that reach the virtual machine -/

/-- `createcontract` and `sendtocontract`, the commands that reach the virtual machine. -/
inductive ContractCommand
  | create (c : CreateContract)
  | call (c : SendToContract)

namespace ContractCommand

/-- The script the command builds. -/
def scriptPubKey : ContractCommand → CScript
  | create c => c.scriptPubKey
  | call c => c.scriptPubKey

/-- The kind of transaction the command means. -/
def flag : ContractCommand → SmartContractFlag
  | create _ => .isCreate
  | call _ => .isMessageCall

def contractAddress : ContractCommand → Bytes
  | create c => c.contractAddress
  | call c => c.contractAddress

def data : ContractCommand → Bytes
  | create c => c.bytecode
  | call c => c.datahex

def nGasPrice : ContractCommand → ℕ
  | create c => c.nGasPrice
  | call c => c.nGasPrice

def nGasLimit : ContractCommand → ℕ
  | create c => c.nGasLimit
  | call c => c.nGasLimit

/-- The address the command is sent from. -/
def sender : ContractCommand → Bytes
  | create c => c.originAddress
  | call c => c.callerAddress

/-- The value that goes with the call; a creation carries none. -/
def nAmount : ContractCommand → ℕ
  | create _ => 0
  | call c => c.nAmount

/-- The fields are the arguments of the command, with the addresses and numbers in the types of the
    virtual machine. -/
structure Fields (cmd : ContractCommand) (f : ContractFields) : Prop where
  contractAddress : addressBytes f.contractAddress = cmd.contractAddress
  datahex : f.datahex = cmd.data
  gasPrice : f.gasPrice.toNat = cmd.nGasPrice
  gasLimit : f.gasLimit.toNat = cmd.nGasLimit
  fabCallerAddress : f.fabCallerAddress = cmd.sender
  callerAddress : addressBytes f.callerAddress = cmd.sender
  value : f.value.toNat = cmd.nAmount

end ContractCommand

/-! ## Reading the arguments back -/

/-- An address of twenty bytes is read and written without loss. -/
lemma addressBytes_h160 (a : VMAddress) : addressBytes (h160 a) = a := by
  obtain ⟨b, hb⟩ := a
  have hlt : readLE b.reverse < 2 ^ 160 := by
    have h := readLE_lt b.reverse
    rw [length_reverse, hb] at h
    exact lt_of_lt_of_eq h (by norm_num)
  have hwrite : writeLE 20 (readLE b.reverse) = b.reverse := by
    have h := writeLE_readLE b.reverse
    rwa [length_reverse, hb] at h
  rw [addressBytes, h160, if_pos hb, BitVec.toNat_ofNat, readBE, Nat.mod_eq_of_lt hlt, hwrite,
    reverse_reverse]

lemma toNat_word (n : Int63) : (ofNat 256 n.val : U256).toNat = n.val := by
  rw [BitVec.toNat_ofNat]
  exact Nat.mod_eq_of_lt (lt_trans n.property (by norm_num))

/-- A number of 63 bits takes at most nine bytes. -/
lemma serialize_short (n : Int63) : (serialize n.val).length ≤ 20 :=
  le_trans (serialize_length _) (by norm_num)

variable (crypto : Crypto)

/-- The script is read back with the arguments it was built from. -/
lemma ContractCommand.parseStack_script (cmd : ContractCommand) :
    contractFlag cmd.scriptPubKey = cmd.flag ∧
      parseStack cmd.flag (contractStack crypto cmd.scriptPubKey) =
        .ok ⟨h160 cmd.contractAddress, cmd.data, ofNat 256 cmd.nGasPrice,
          ofNat 256 cmd.nGasLimit, cmd.sender, h160 cmd.sender, ofNat 256 cmd.nAmount⟩ := by
  cases cmd with
  | create c =>
    have hshort : ∀ b ∈ [c.originAddress.val, serialize c.nGasLimit.val, serialize c.nGasPrice.val]
        ++ [c.contractAddress.val], b.length ≤ 20 := by
      simp only [cons_append, nil_append, forall_mem_cons]
      exact ⟨c.originAddress.property.le, serialize_short _, serialize_short _,
        c.contractAddress.property.le, by simp⟩
    obtain ⟨hflag, hstack, -⟩ := pushedScript_reads crypto (Or.inl rfl) c.bytecode.property hshort
      (by simp) 0
    refine ⟨hflag, (congrArg (parseStack .isCreate) hstack).trans ((parseStack_six ..).trans ?_)⟩
    rw [vchToUint64_serialize c.nGasPrice.property, vchToUint64_serialize c.nGasLimit.property]
    rfl
  | call c =>
    have hshort : ∀ b ∈ [serialize c.nAmount.val, c.callerAddress.val, serialize c.nGasLimit.val,
        serialize c.nGasPrice.val] ++ [c.contractAddress.val], b.length ≤ 20 := by
      simp only [cons_append, nil_append, forall_mem_cons]
      exact ⟨serialize_short _, c.callerAddress.property.le, serialize_short _, serialize_short _,
        c.contractAddress.property.le, by simp⟩
    obtain ⟨hflag, hstack, -⟩ := pushedScript_reads crypto (Or.inr rfl) c.datahex.property hshort
      (by simp) 0
    have hvalue : parseValue .isMessageCall [serialize c.nAmount.val] =
        .ok (ofNat 256 c.nAmount) := by
      simp only [parseValue, takeBack, Fallible.ok_bind, vchToUint64_serialize c.nAmount.property]
    refine ⟨hflag, (congrArg (parseStack .isMessageCall) hstack).trans
      ((parseStack_six ..).trans ?_)⟩
    rw [vchToUint64_serialize c.nGasPrice.property, vchToUint64_serialize c.nGasLimit.property,
      Fallible.ok_bind, Fallible.ok_bind, hvalue]
    rfl

/-- **The round trip of a contract script.**  Evaluating the script that `createcontract` or
    `sendtocontract` builds and parsing the stack gives back the arguments, and the script says
    which of the two it is. -/
theorem ContractCommand.parseStack_scriptPubKey (cmd : ContractCommand) :
    contractFlag cmd.scriptPubKey = cmd.flag ∧
      ∃ f, parseStack cmd.flag (contractStack crypto cmd.scriptPubKey) = .ok f ∧ cmd.Fields f := by
  obtain ⟨hflag, hparse⟩ := cmd.parseStack_script crypto
  refine ⟨hflag, _, hparse, ?_⟩
  cases cmd with
  | create c | call c =>
    exact ⟨addressBytes_h160 _, rfl, toNat_word _, toNat_word _, rfl, addressBytes_h160 _, by
      first | rfl | exact toNat_word _⟩

end Ybtc
