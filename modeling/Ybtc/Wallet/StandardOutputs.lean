import Ybtc.Wallet.ContractScripts
import Ybtc.Policy.Standard

/-!
# The wallet's contract outputs and the relay policy

`Solver` has templates for the three kinds of contract outputs, but no case for two of the opcodes
they are made of: `OP_ADDRESS` and `OP_AMOUNT` have to occur in the script themselves.  No script
the wallet builds has them.  The main result is `WalletCommand.not_recognised`.
-/

namespace Ybtc

open List

/-! ## Commands -/

/-- The commands that make contract outputs. -/
inductive WalletCommand
  | contract (c : ContractCommand)
  | oops (c : Oops)

namespace WalletCommand

/-- The contract output's script. -/
def scriptPubKey : WalletCommand → CScript
  | contract c => c.scriptPubKey
  | oops c => c.scriptPubKey

/-- The outputs the command asks the wallet for. -/
def recipients : WalletCommand → List CTxOut
  | contract (.create c) => c.recipients
  | contract (.call c) => c.recipients
  | oops c => c.recipients

end WalletCommand

/-! ## Templates against pushes -/

section Templates

variable {atEnd : Bool} {p1 p2 : ScriptOp} {ops : List ScriptOp}

/-- A push is none of the opcodes above. -/
lemma ne_of_push {opcode c : UInt8} (h : opcode ≤ OP_PUSHDATA4) (hc : OP_PUSHDATA4 < c) :
    opcode ≠ c := by
  rintro rfl
  exact UInt8.lt_irrefl _ (UInt8.lt_of_lt_of_le hc h)

variable {opcode2 : UInt8} {op1 : ScriptOp}

/-- An opcode that stands for itself does not match a push. -/
lemma matchOne_push (hplain : opcode2 ∉ [OP_PUBKEY, OP_PUBKEYHASH,
    OP_SMALLINTEGER, OP_GAS_LIMIT, OP_GAS_PRICE, OP_DATA])
    (hne : op1.opcode ≠ opcode2) (vSolutions : List Bytes) :
    matchOne opcode2 op1 vSolutions = .mismatch := by
  simp only [mem_cons, not_mem_nil, or_false, not_or] at hplain
  obtain ⟨h1, h2, h3, h4, h5, h6⟩ := hplain
  rw [matchOne, if_neg h1, if_neg h2, if_neg h3, if_neg h4, if_neg h5, if_neg h6,
    if_pos (Or.inl hne)]

/-- A template whose first opcode stands for itself. -/
lemma matchTemplate_plain (hplain : opcode2 ∉ [OP_PUBKEY, OP_PUBKEYHASH,
    OP_SMALLINTEGER, OP_GAS_LIMIT, OP_GAS_PRICE, OP_DATA]) (hkeys : opcode2 ≠ OP_PUBKEYS)
    (hne : p1.opcode ≠ opcode2) (template : List UInt8) (vSolutions : List Bytes) :
    matchTemplate atEnd (opcode2 :: template) (p1 :: ops) vSolutions = .mismatch := by
  rw [matchTemplate, if_neg hkeys, matchOne_push hplain hne]
  rfl

/-- What stands behind the keys is an instruction of the script, or none. -/
lemma takeKeys_opcode : ∀ (ops : List ScriptOp) (op1 : ScriptOp) (vSolutions : List Bytes),
    (takeKeys op1 ops vSolutions).1.opcode = OP_INVALIDOPCODE ∨
      (takeKeys op1 ops vSolutions).1 ∈ op1 :: ops := by
  intro ops
  induction ops with
  | nil =>
    intro op1 vSolutions
    rw [takeKeys]
    split_ifs
    · exact Or.inl rfl
    · exact Or.inr mem_cons_self
  | cons next ops ih =>
    intro op1 vSolutions
    rw [takeKeys]
    split_ifs
    · exact (ih _ _).imp_right (mem_cons_of_mem _)
    · exact Or.inr mem_cons_self

/-- A push is a small number only if it pushes nothing. -/
lemma matchOne_smallInteger (hpush : op1.opcode ≤ OP_PUSHDATA4) (hne : op1.opcode ≠ OP_0)
    (vSolutions : List Bytes) : matchOne OP_SMALLINTEGER op1 vSolutions = .mismatch := by
  have hlow : ¬ OP_1 ≤ op1.opcode := fun hle =>
    UInt8.lt_irrefl _ (UInt8.lt_of_lt_of_le (by decide : OP_PUSHDATA4 < OP_1)
      (UInt8.le_trans hle hpush))
  rw [matchOne, if_neg (by decide), if_neg (by decide), if_pos rfl, if_neg]
  rintro (hzero | hrange)
  · exact hne hzero
  · exact hlow hrange.1

/-- `OP_DATA` goes on or does not match. -/
lemma matchOne_data_andThen (op1 : ScriptOp) {vSolutions : List Bytes} {rest : List Bytes → Match}
    (hrest : rest vSolutions = .mismatch) :
    (matchOne OP_DATA op1 vSolutions).andThen rest = .mismatch := by
  rw [matchOne, if_neg (by decide), if_neg (by decide), if_neg (by decide), if_neg (by decide),
    if_neg (by decide), if_pos rfl]
  split_ifs
  · rfl
  · exact hrest

/-- What the scripts of the wallet have in common: they begin with two pushes, of which the first
    is no key and a number only if the second is neither. -/
structure BeginsWithPushes (p1 p2 : ScriptOp) (ops : List ScriptOp) : Prop where
  first : p1.opcode ≤ OP_PUSHDATA4
  second : p2.opcode ≤ OP_PUSHDATA4
  notKey : isKeySize p1.vch = false
  notNumber : p1.opcode = OP_0 → p2.opcode ≠ OP_0 ∧ isKeySize p2.vch = false
  noSmartCode : ∀ op ∈ p1 :: p2 :: ops, op.opcode ≠ OP_SMARTCODE

variable (h : BeginsWithPushes p1 p2 ops)

include h

lemma BeginsWithPushes.not_pubkey :
    matchTemplate atEnd [OP_PUBKEY, OP_CHECKSIG] (p1 :: p2 :: ops) [] = .mismatch := by
  rw [matchTemplate, if_neg (by decide), matchOne, if_pos rfl, h.notKey]
  rfl

lemma BeginsWithPushes.not_plain (hplain : opcode2 ∉ [OP_PUBKEY, OP_PUBKEYHASH,
    OP_SMALLINTEGER, OP_GAS_LIMIT, OP_GAS_PRICE, OP_DATA]) (hkeys : opcode2 ≠ OP_PUBKEYS)
    (hop : OP_PUSHDATA4 < opcode2) (template : List UInt8) :
    matchTemplate atEnd (opcode2 :: template) (p1 :: p2 :: ops) [] = .mismatch :=
  matchTemplate_plain hplain hkeys (ne_of_push h.first hop) template []

lemma BeginsWithPushes.not_multiSig :
    matchTemplate atEnd [OP_SMALLINTEGER, OP_PUBKEYS, OP_SMALLINTEGER, OP_CHECKMULTISIG]
      (p1 :: p2 :: ops) [] = .mismatch := by
  by_cases hzero : p1.opcode = OP_0
  · -- Nothing is pushed first, which reads as the number of signatures.
    obtain ⟨hne, hkey⟩ := h.notNumber hzero
    rw [matchTemplate, if_neg (by decide), matchOne, if_neg (by decide), if_neg (by decide),
      if_pos rfl, if_pos (Or.inl hzero), Match.andThen, matchTemplate, if_pos rfl]
    have hkeys : ∀ vSolutions, takeKeys p2 ops vSolutions = (p2, ops, vSolutions) := by
      intro vSolutions
      cases ops <;> simp [takeKeys, hkey]
    rw [hkeys]
    dsimp only
    rw [matchTemplate, if_neg (by decide), matchOne_smallInteger h.second hne]
    rfl
  · rw [matchTemplate, if_neg (by decide), matchOne_smallInteger h.first hzero]
    rfl

lemma BeginsWithPushes.not_smartCode :
    matchTemplate atEnd [OP_DATA, OP_PUBKEYS, OP_SMARTCODE] (p1 :: p2 :: ops) [] = .mismatch := by
  rw [matchTemplate, if_neg (by decide)]
  refine matchOne_data_andThen p1 ?_
  rw [matchTemplate, if_pos rfl]
  refine matchTemplate_plain (by decide) (by decide) ?_ _ _
  rcases takeKeys_opcode ops p2 [] with hinvalid | hmem
  · rw [hinvalid]
    decide
  · exact h.noSmartCode _ (mem_cons_of_mem _ hmem)

lemma BeginsWithPushes.not_call (template : List UInt8) :
    matchTemplate atEnd (OP_DATA :: OP_ADDRESS :: template) (p1 :: p2 :: ops) [] = .mismatch := by
  rw [matchTemplate, if_neg (by decide)]
  exact matchOne_data_andThen p1
    (matchTemplate_plain (by decide) (by decide) (ne_of_push h.second (by decide)) _ _)

/-- **A script that begins with two pushes and has no `OP_SMARTCODE` matches no template.** -/
lemma solveTemplates_pushed {script : CScript} (hscan : (scan script).1 = p1 :: p2 :: ops) :
    solveTemplates script templates = ⟨false, some .nonstandard, []⟩ := by
  simp only [templates, solveTemplates, hscan, h.not_pubkey, h.not_multiSig, h.not_smartCode,
    h.not_call, h.not_plain (by decide : OP_DUP ∉ _) (by decide) (by decide),
    h.not_plain (by decide : OP_ADDRESS ∉ _) (by decide) (by decide)]

end Templates

/-! ## The scripts of the commands -/

/-- A push at the beginning of a script, as it is scanned. -/
lemma scan_push {b : Bytes} (rest : Bytes) (hb : b.length < 2 ^ 32) :
    ∃ opcode, opcode ≤ OP_PUSHDATA4 ∧ byteAt (pushBytes [] b ++ rest) 0 = opcode ∧
      (opcode = OP_0 → b = []) ∧
      (scan (pushBytes [] b ++ rest)).1 = ⟨opcode, b, rest⟩ :: (scan rest).1 := by
  obtain ⟨opcode, hop, hget⟩ := getOp_pushBytes rest hb
  obtain ⟨hbyte, hzero⟩ := getOp_opcode hget
  exact ⟨opcode, hop, hbyte, hzero, by rw [scan_eq, hget]⟩

/-- A field takes a byte more than it has. -/
lemma le_pushes_length : ∀ fields : List Bytes,
    (fields.map fun b => b.length + 1).sum ≤ (pushes fields).length
  | [] => le_refl _
  | b :: fields => by
    have hb : b.length + 1 ≤ (pushBytes [] b).length := by
      unfold pushBytes
      split_ifs <;> simp
    have ih := le_pushes_length fields
    simp only [pushes, map_cons, flatten_cons, length_append, sum_cons] at ih ⊢
    omega

/-- A long script that begins with a push is no special case of `Solver`. -/
lemma solver_push {script : CScript} (hlong : 42 < script.length)
    (hpush : byteAt script 0 ≤ OP_PUSHDATA4) : solver script = solveTemplates script templates := by
  have hhash : isPayToScriptHash script = false := by
    simp [isPayToScriptHash, ne_of_push hpush (by decide : OP_PUSHDATA4 < OP_HASH160)]
  have hwitness : isWitnessProgram script = none := by
    rw [isWitnessProgram, if_pos (Or.inr hlong)]
  rw [solver, hhash, hwitness]
  refine (if_neg Bool.false_ne_true).trans (if_neg ?_)
  rintro ⟨-, hreturn, -⟩
  exact ne_of_push hpush (by decide) hreturn

/-- **A script that pushes its fields is not recognised**, if it is long enough and its first two
    fields are short. -/
lemma solver_pushedScript {f1 f2 : Bytes} (fields : List Bytes) {op : UInt8}
    (hop : OP_PUSHDATA4 < op) (hsmart : op ≠ OP_SMARTCODE)
    (hfits : ∀ b ∈ f1 :: f2 :: fields, b.length < 2 ^ 32) (hfirst : f1.length ≤ 20)
    (hsecond : f1 = [] → f2.length = 20)
    (hlong : 42 ≤ ((f1 :: f2 :: fields).map fun b => b.length + 1).sum) :
    solver (pushedScript (f1 :: f2 :: fields) op) = ⟨false, some .nonstandard, []⟩ := by
  have hfind : find (pushedScript (f1 :: f2 :: fields) op) OP_SMARTCODE = 0 := by
    rw [find_pushedScript hop (by decide) hfits, if_neg hsmart]
  have hnone := opcode_ne_of_find_eq_zero hfind
  have hlength : 42 < (pushedScript (f1 :: f2 :: fields) op).length := by
    rw [pushedScript_eq, length_append, length_singleton]
    exact Nat.lt_succ_of_le (hlong.trans (le_pushes_length _))
  have hscript : pushedScript (f1 :: f2 :: fields) op
      = pushBytes [] f1 ++ (pushBytes [] f2 ++ (pushes fields ++ [op])) := by
    rw [pushedScript_eq]
    simp [pushes]
  rw [forall_mem_cons, forall_mem_cons] at hfits
  rw [hscript] at hnone hlength ⊢
  obtain ⟨c1, hc1, hbyte, hzero1, hscan1⟩ :=
    scan_push (pushBytes [] f2 ++ (pushes fields ++ [op])) hfits.1
  obtain ⟨c2, hc2, -, hzero2, hscan2⟩ := scan_push (pushes fields ++ [op]) hfits.2.1
  rw [hscan2] at hscan1
  rw [hscan1] at hnone
  rw [solver_push hlength (hbyte ▸ hc1)]
  refine solveTemplates_pushed ⟨hc1, hc2, ?_, ?_, hnone⟩ hscan1
  · simp only [isKeySize, decide_eq_false_iff_not]
    omega
  · intro hc
    have hlen := hsecond (hzero1 hc)
    refine ⟨fun hc' => ?_, ?_⟩
    · rw [hzero2 hc'] at hlen
      cases hlen
    · simp [isKeySize, hlen]

/-- The items of a command fit into pushes. -/
lemma PushData.lt (b : PushData) : b.val.length < 2 ^ 32 := lt_of_le_of_lt b.property (by decide)

lemma VMAddress.lt (a : VMAddress) : a.val.length < 2 ^ 32 := by
  rw [a.property]
  norm_num

open VMAddress

lemma VMAddress.ne_nil (a : VMAddress) : a.val ≠ [] := by
  intro hnil
  have hlen := a.property
  rw [hnil] at hlen
  cases hlen

lemma Int63.lt (n : Int63) : (serialize n.val).length < 2 ^ 32 :=
  lt_of_le_of_lt (serialize_short n) (by norm_num)

lemma CreateContract.solver_scriptPubKey (c : CreateContract) :
    solver c.scriptPubKey = ⟨false, some .nonstandard, []⟩ := by
  refine solver_pushedScript [serialize c.nGasPrice.val, c.bytecode.val, c.contractAddress.val]
    (by decide) (by decide) ?_ c.originAddress.property.le
    (fun h => absurd h (ne_nil _)) ?_
  · simp only [forall_mem_cons]
    exact ⟨lt _, Int63.lt _, Int63.lt _, PushData.lt _, lt _, by simp⟩
  · simp [c.originAddress.property, c.contractAddress.property]
    omega

lemma SendToContract.solver_scriptPubKey (c : SendToContract) :
    solver c.scriptPubKey = ⟨false, some .nonstandard, []⟩ := by
  refine solver_pushedScript [serialize c.nGasLimit.val, serialize c.nGasPrice.val,
    c.datahex.val, c.contractAddress.val] (by decide) (by decide) ?_ (serialize_short _)
    (fun _ => c.callerAddress.property) ?_
  · simp only [forall_mem_cons]
    exact ⟨Int63.lt _, lt _, Int63.lt _, Int63.lt _, PushData.lt _, lt _, by simp⟩
  · simp [c.callerAddress.property, c.contractAddress.property]
    omega

lemma Oops.solver_scriptPubKey (c : Oops) :
    solver c.scriptPubKey = ⟨false, some .nonstandard, []⟩ := by
  refine solver_pushedScript [c.receiverAddress.val] (by decide) (by decide) ?_
    c.senderAddress.property.le (fun h => absurd h (ne_nil _)) ?_
  · simp only [forall_mem_cons]
    exact ⟨lt _, PushData.lt _, lt _, by simp⟩
  · simp [c.senderAddress.property, c.receiverAddress.property]
    omega

/-! ## No command's output is standard -/

lemma WalletCommand.solver_scriptPubKey (cmd : WalletCommand) :
    solver cmd.scriptPubKey = ⟨false, some .nonstandard, []⟩ := by
  rcases cmd with ⟨c | c⟩ | c
  · exact c.solver_scriptPubKey
  · exact c.solver_scriptPubKey
  · exact c.solver_scriptPubKey

/-- **No contract output of the wallet is recognised.**  Whatever the arguments are, `Solver`
    returns false with `TX_NONSTANDARD` and no solutions, and `IsStandardTx` refuses every
    transaction that has the outputs of the command. -/
theorem WalletCommand.not_recognised (cmd : WalletCommand) :
    solver cmd.scriptPubKey = ⟨false, some .nonstandard, []⟩ ∧
      ∀ (policy : RelayPolicy) (tx : CTransaction), cmd.recipients ⊆ tx.vout →
        isStandardTx policy tx ≠ .ok () := by
  refine ⟨cmd.solver_scriptPubKey, fun policy tx hvout => ?_⟩
  have hmem : ⟨0, cmd.scriptPubKey⟩ ∈ cmd.recipients := by
    rcases cmd with ⟨c | c⟩ | c <;> exact mem_cons_self
  refine isStandardTx_error policy (hvout hmem) ?_
  rw [isStandard, cmd.solver_scriptPubKey]
  rfl

/-- A creation with the default gas limit and price. -/
def defaultCreation : CreateContract where
  contractAddress := ⟨List.replicate 20 1, rfl⟩
  bytecode := ⟨[0x60, 0x00], by decide⟩
  originAddress := ⟨List.replicate 20 2, rfl⟩
  nGasLimit := ⟨2500000, by norm_num⟩
  nGasPrice := ⟨40, by norm_num⟩

/-- The default settings of the node. -/
def defaultPolicy : RelayPolicy := ⟨true, true, 83, true, ⟨3000⟩⟩

/-- The transaction of a creation is refused for its output. -/
theorem defaultCreation_refused :
    solver defaultCreation.scriptPubKey = ⟨false, some .nonstandard, []⟩ ∧
      isStandardTx defaultPolicy
          ⟨2, [⟨⟨1, 0⟩, [], sequenceFinal, []⟩], defaultCreation.recipients, 0⟩
        = .error "scriptpubkey" := by
  decide +kernel

end Ybtc
