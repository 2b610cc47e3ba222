import Ybtc.Contract.Face

/-!
# The casino output of the coinbase

`AddCasinoToCoinBaseTx` from `miner.cpp`, and `CallContract` from `validation.cpp`, by which it asks
the genesis contract for its data.

In the first block the coinbase creates the contract.  In the last block of every later phase it
sets the winners of the next one: the miner asks the contract for the number of players and for a
seed, draws the winners, and calls the contract with them.  The output is executed at once, before
the coinbase is complete, and the refunds of that execution are dropped.

Numbers travel as hexadecimal strings in the source; here they are the bytes these strings stand
for.  The draw itself is a generator of the standard library and a parameter.
-/

namespace Ybtc

open Stateful

/-- What the casino reads besides the contract. -/
structure CasinoParams where
  minerAddress : Bytes
  /-- `GENESIS_CONTRACT_CODE`. -/
  genesisContractCode : Bytes
  /-- `GenerateCasinoList`: the winners drawn among so many players, from a seed. -/
  generateCasinoList : ℕ → ℕ → List ℕ

/-- `CHAIN_PHASE_SIZE`. -/
def chainPhaseSize : ℕ := 256

/-- `CHAIN_PHASE_PLAYER`. -/
def chainPhasePlayer : ℕ := 2

/-- `GENESIS_CONTRACT_ADDRESS_ETH`. -/
def genesisContractAddress : Bytes := 0x1f :: List.replicate 19 0xff

/-- `CASINO_GETTOTALPLAYER`. -/
def casinoGetTotalPlayer : Bytes := [0x01, 0x13, 0xea, 0x5b]

/-- `CASINO_SETNEXTWINNERS`. -/
def casinoSetNextWinners : Bytes := [0x39, 0x38, 0x02, 0x81]

/-- `CASINO_GETWINNERSEED`. -/
def casinoGetWinnerSeed : Bytes := [0x74, 0x70, 0x7c, 0x8d]

/-- `str60zero`. -/
def str60zero : Bytes := List.replicate 30 0

/-- `ConvertUnsignedIntToHexString`: four digits, for which the buffer has room. -/
def convertUnsignedIntToHexString (u : ℕ) : Except Fault Bytes :=
  if u < 2 ^ 16 then .ok [UInt8.ofNat (u / 256), UInt8.ofNat (u % 256)]
  else .error (.undefined .outOfBounds)

/-- `ConvertHexStringToUnsignedInt`: the four digits from position 60 on. -/
def convertHexStringToUnsignedInt (output : Bytes) : Except Fault ℕ :=
  if output.length < 30 then .error (.thrown (.logicError "basic_string::substr"))
  else .ok (readBE ((output.drop 30).take 2))

section Casino

variable (crypto : Crypto) (E : ContractEngine) (c : CasinoParams)

/-! ## Asking the contract -/

/-- The call `CallContract` makes. -/
def queryTransaction (scAddr : H160) (opcode : Bytes) : ScTransaction :=
  ⟨false, 0, 25, 25000000, scAddr, opcode, h160 c.minerAddress⟩

/-- The `try` block of `CallContract` and what follows it; the result is the one of the function,
    with the contents of `*output`. -/
def tryQuery (t : ScTransaction) (oldHashStateRoot : Uint256) (output : Bytes)
    (fStateChange : Bool) : EStateM Fault E.State (Bool × Bytes) := fun s =>
  match E.execute t s with
  | .ok res s' =>
    if fStateChange then .ok (true, res.output) s'
    else (do E.setRoot oldHashStateRoot; pure (true, res.output)) s'
  | .error (.thrown _) s' => (do E.setRoot oldHashStateRoot; pure (false, output)) s'
  | .error fault s' => .error fault s'

/-- `CallContract`. -/
def callContract (scAddr : H160) (opcode output : Bytes) (fStateChange : Bool) :
    EStateM Fault E.State (Bool × Bytes) := do
  let oldHashStateRoot ← E.rootHash
  tryQuery E (queryTransaction c scAddr opcode) oldHashStateRoot output fStateChange

variable {E c} in
/-- **A query that has returned**: its call was executed, or an exception was caught, and in any
    case the old root is set again. -/
lemma callContract_ok {scAddr : H160} {opcode output : Bytes} {r : Bool × Bytes} {s s' : E.State}
    (h : callContract E c scAddr opcode output false s = .ok r s') :
    ∃ old s0, E.rootHash s = .ok old s0 ∧
      E.setRoot old (stateAfter (E.execute (queryTransaction c scAddr opcode) s0)) = .ok () s' ∧
      ((∃ res s1, E.execute (queryTransaction c scAddr opcode) s0 = .ok res s1 ∧
          r = (true, res.output)) ∨
        ∃ e s1, E.execute (queryTransaction c scAddr opcode) s0 = .error (.thrown e) s1) := by
  obtain ⟨old, s0, hold, htry⟩ := bind_ok.mp h
  refine ⟨old, s0, hold, ?_⟩
  unfold tryQuery at htry
  cases hex : E.execute (queryTransaction c scAddr opcode) s0 with
  | ok res s1 =>
    rw [hex] at htry
    obtain ⟨_, s2, hset, hend⟩ := bind_ok.mp htry
    cases hend
    exact ⟨hset, Or.inl ⟨res, s1, rfl, rfl⟩⟩
  | error fault s1 =>
    rw [hex] at htry
    cases fault with
    | thrown e =>
      obtain ⟨_, s2, hset, hend⟩ := bind_ok.mp htry
      cases hend
      exact ⟨hset, Or.inr ⟨e, s1, rfl⟩⟩
    | assertion | exit | undefined | diverged => cases htry

/-- One query of the casino, whose result is not looked at. -/
def casinoQuery (data : Bytes) : EStateM Fault E.State ℕ := do
  let res ← callContract E c (h160 genesisContractAddress) data [] false
  Stateful.liftExcept (convertHexStringToUnsignedInt res.2)

/-! ## The output -/

/-- The script that creates the contract. -/
def casinoCreateScript : CScript :=
  pushBytes (pushBytes (pushNum (pushNum (pushBytes [] c.minerAddress) 60000000) 25)
    c.genesisContractCode) genesisContractAddress ++ [OP_CREATE]

/-- The script that calls the contract. -/
def casinoCallScript (data : Bytes) : CScript :=
  pushBytes (pushBytes (pushNum (pushNum (pushBytes (pushNum [] 0) c.minerAddress) 60000000) 25)
    data) genesisContractAddress ++ [OP_CALL]

/-- `winstr`: the winners, at the end of a field of 64 digits. -/
def winnersField (winner : List ℕ) : Except Fault Bytes := do
  let shown ← winner.mapM convertUnsignedIntToHexString
  .ok (List.replicate (32 - 2 * chainPhasePlayer) 0 ++ shown.flatten)

/-- The data of the call that sets the winners of the next phase. -/
def setWinnersData (currentPhase : ℕ) (winner : List ℕ) : Except Fault Bytes := do
  let phase ← convertUnsignedIntToHexString currentPhase
  let winstr ← winnersField winner
  .ok (casinoSetNextWinners ++ str60zero ++ phase ++ winstr)

/-- The number of players the winners are drawn from. -/
def playersOr (totalPlayer : ℕ) : ℕ := if totalPlayer = 0 then chainPhasePlayer else totalPlayer

/-- The call that sets the winners of the next phase. -/
def casinoWinnersScript (nHeight : ℕ) : EStateM Fault E.State CScript := do
  let currentPhase := (nHeight - 1) / chainPhaseSize
  let totalPlayer ← casinoQuery E c casinoGetTotalPlayer
  let prevPhase ← Stateful.liftExcept (convertUnsignedIntToHexString (currentPhase - 1))
  let winnerSeed ← casinoQuery E c (casinoGetWinnerSeed ++ str60zero ++ prevPhase)
  let data ← Stateful.liftExcept
    (setWinnersData currentPhase (c.generateCasinoList (playersOr totalPlayer) winnerSeed))
  pure (casinoCallScript c data)

/-- The script of the casino output, at the heights that have one. -/
def casinoScript (nHeight : ℕ) : EStateM Fault E.State (Option CScript) :=
  if nHeight = 1 then pure (some (casinoCreateScript c))
  else if 2 < nHeight ∧ (nHeight - 1) % chainPhaseSize = chainPhaseSize - 1 then do
    let script ← casinoWinnersScript E c nHeight
    pure (some script)
  else pure none

/-- The output is added, and executed. -/
def executeCasino (coinbaseTx : CTransaction) (script : CScript) :
    EStateM Fault E.State CTransaction := do
  let _ ← E.rootHash
  let _ ← txContractExec crypto E { coinbaseTx with vout := coinbaseTx.vout ++ [⟨0, script⟩] } []
  pure { coinbaseTx with vout := coinbaseTx.vout ++ [⟨0, script⟩] }

/-- `AddCasinoToCoinBaseTx`. -/
def addCasinoToCoinBaseTx (coinbaseTx : CTransaction) (nHeight : ℕ) :
    EStateM Fault E.State CTransaction := do
  match ← casinoScript E c nHeight with
  | none => pure coinbaseTx
  | some script => executeCasino crypto E coinbaseTx script

end Casino

end Ybtc
