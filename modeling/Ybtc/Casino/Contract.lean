import Mathlib
import Ybtc.Contract.Engine

/-!
# The genesis contract

`CASINO.sol`: the contract that keeps the register of players and names the winners of each phase.
Every player holds tokens; `refill` enters a player or hands out more tokens, and `setNextWinners`
opens the next phase: it takes a token from the players and notes the winners in a ring of
`WINNER_BUFFER_SIZE` phases.

The members are the storage of the contract.  The arrays have a fixed length; an index that is
computed from storage is checked, as the compiler does, and a failed check reverts the call.
`totalSupply` is left out, which no function reads or writes.
-/

namespace Ybtc

open Function

/-- An index of the register, below `MAX_REGISTER`. -/
abbrev Slot := Fin 256

/-- The storage of the contract. -/
structure Casino where
  phaseHeight : U256
  addresses : Slot → U256
  balances : Slot → U256
  /-- `WINNER_BUFFER_SIZE * CHAIN_PHASE_PLAYER` entries. -/
  winners : Fin 256 → U256
  winnerSeeds : Fin 128 → U256

namespace Casino

/-- `CHAIN_PHASE_PLAYER`, the constant of the contract. -/
def chainPhasePlayer : ℕ := 2

/-- `REGISTER_REWARD`. -/
def registerReward : U256 := 20

/-- `WINNER_BUFFER_SIZE`. -/
def winnerBufferSize : ℕ := 128

/-- `TOTAL_SUPPLY`. -/
def supply : U256 := 21000000

/-- `uint256(msg.sender)`. -/
def usender (sender : H160) : U256 := sender.setWidth 256

/-- The index of a slot, as it is stored. -/
def slotWord (i : Slot) : U256 := BitVec.ofNat 256 i

/-- The constructor. -/
def create (sender : H160) : Casino where
  phaseHeight := 0
  addresses := update (fun _ => 0) 0 (usender sender)
  balances := update (fun _ => 0) 0 supply
  winners := fun _ => 0
  winnerSeeds := fun _ => 0

/-- The register in the order of its loops. -/
def slots : List Slot := List.finRange 256

/-! ## Entering the register -/

/-- What the loop of `refill` ends with. -/
inductive Search
  /-- The sender has this slot. -/
  | found (i : Slot)
  /-- The sender has none; `index` is the first slot with the lowest balance, if one is below
      `TOTAL_SUPPLY`. -/
  | lowest (index : Option Slot)

/-- The loop of `refill`. -/
def search (c : Casino) (usender : U256) : List Slot → U256 → Option Slot → Search
  | [], _, index => .lowest index
  | i :: is, low, index =>
    if c.addresses i = usender then .found i
    else if c.balances i < low then search c usender is (c.balances i) (some i)
    else search c usender is low index

variable (c : Casino)

/-- A slot gets a balance. -/
def setBalance (i : Slot) (value : U256) : Casino :=
  { c with balances := update c.balances i value }

/-- A slot gets a new owner. -/
def register (i : Slot) (usender : U256) : Casino :=
  { c.setBalance i registerReward with addresses := update c.addresses i usender }

/-- `refill`, with its result. -/
def refill (sender : H160) (c : Casino) : U256 × Casino :=
  match search c (usender sender) slots supply none with
  | .found i => (c.balances i + registerReward, c.setBalance i (c.balances i + registerReward))
  | .lowest (some i) => (registerReward, c.register i (usender sender))
  | .lowest none => (0, c)

/-! ## The next phase -/

/-- The loop of `isWinnerId`, with the number of turns it has left. -/
def isWinnerIdLoop : ℕ → ℕ → U256 → Bool
  | 0, _, _ => false
  | m + 1, seq, w =>
    if seq = (w &&& 0xffff).toNat then true else isWinnerIdLoop m seq (w >>> 32)

/-- `isWinnerId`. -/
def isWinnerId (seq : ℕ) (winnerList : U256) : Bool :=
  isWinnerIdLoop chainPhasePlayer seq winnerList

/-- `phase % WINNER_BUFFER_SIZE`. -/
def phaseIndex (phase : U256) : Fin 128 := Fin.ofNat 128 phase.toNat

/-- `phaseIndex * CHAIN_PHASE_PLAYER + j`, which is in the array for the two values of `j`. -/
def winnerEntry (index : Fin 128) (j : ℕ) : Fin 256 := Fin.ofNat 256 (index * chainPhasePlayer + j)

/-- `winnerSeeds[phaseIndex] = seed`. -/
def setSeed (index : Fin 128) (seed : U256) : Casino :=
  { c with winnerSeeds := update c.winnerSeeds index seed }

/-- `winners[phaseIndex * CHAIN_PHASE_PLAYER + j] = i`. -/
def setWinner (index : Fin 128) (j : ℕ) (i : Slot) : Casino :=
  { c with winners := update c.winners (winnerEntry index j) (slotWord i) }

/-- The loop of `setNextWinners`, with `j` winners noted and `k` players passed. -/
def winnerLoop (winnerList : U256) (index : Fin 128) : List Slot → ℕ → ℕ → U256 → Casino → Casino
  | [], _, _, seed, c => c.setSeed index seed
  | i :: is, j, k, seed, c =>
    if c.balances i = 0 then winnerLoop winnerList index is j k seed c
    else
      let c1 := c.setBalance i (c.balances i - 1)
      if isWinnerId (k + 1) winnerList then
        let c2 := c1.setWinner index j i
        let seed := seed ^^^ (c2.addresses i &&& 0xffff)
        if chainPhasePlayer ≤ j + 1 then c2.setSeed index seed
        else winnerLoop winnerList index is (j + 1) (k + 1) seed c2
      else winnerLoop winnerList index is j (k + 1) seed c1

/-- `setNextWinners`, or nothing where `require` reverts. -/
def setNextWinners (currentPhase winnerList : U256) (c : Casino) : Option (Bool × Casino) :=
  if currentPhase = c.phaseHeight then
    let phaseHeight := c.phaseHeight + 1
    some (true, winnerLoop winnerList (phaseIndex phaseHeight) slots 0 0 0
      { c with phaseHeight := phaseHeight })
  else none

/-! ## Reading -/

/-- `getTotalPlayer`. -/
def getTotalPlayer : U256 :=
  slots.foldl (fun ret i => if 0 < c.balances i then ret + 1 else ret) 0

/-- The phases the ring has no room for. -/
def outside (currentPhase : U256) : Bool :=
  c.phaseHeight < currentPhase || currentPhase + BitVec.ofNat 256 winnerBufferSize ≤ c.phaseHeight

/-- `addresses[win]`, with the check of the index. -/
def addressAt (win : U256) : Option U256 :=
  if h : win.toNat < 256 then some (c.addresses ⟨win.toNat, h⟩) else none

/-- The loop of `isWinnerMe` over the entries from `i` on; it ends with the last value of `win`. -/
def isWinnerMeLoop (c : Casino) (index : Fin 128) (usender : U256) : List ℕ → U256 → Option U256
  | [], win => some win
  | i :: is, _ => do
    let win := c.winners (winnerEntry index i)
    let owner ← c.addressAt win
    if owner = usender then some (BitVec.ofNat 256 (i + 1))
    else isWinnerMeLoop c index usender is win

/-- `isWinnerMe`. -/
def isWinnerMe (sender : H160) (currentPhase : U256) (c : Casino) : Option U256 :=
  if c.outside currentPhase then some 0
  else isWinnerMeLoop c (phaseIndex currentPhase) (usender sender) (List.range chainPhasePlayer) 0

/-- `balanceOf`. -/
def balanceOf (sender : H160) (c : Casino) : U256 :=
  ((slots.find? fun i => c.addresses i = usender sender).map c.balances).getD 0

/-- `getWinnerSeed`. -/
def getWinnerSeed (currentPhase : U256) (c : Casino) : U256 :=
  if c.outside currentPhase then 0 else c.winnerSeeds (phaseIndex currentPhase)

/-! ## Calls -/

/-- The calls that write. -/
inductive Call
  | refill
  | setNextWinners (currentPhase winnerList : U256)
deriving Repr, DecidableEq

/-- A call and who makes it. -/
structure Message where
  sender : H160
  call : Call
deriving Repr, DecidableEq

/-- The storage after a call; a call that is reverted changes nothing. -/
def perform (m : Message) : Casino :=
  match m.call with
  | .refill => (refill m.sender c).2
  | .setNextWinners currentPhase winnerList =>
    ((setNextWinners currentPhase winnerList c).map Prod.snd).getD c

/-- The storage after a sequence of calls. -/
def run (ms : List Message) : Casino := ms.foldl perform c

end Casino

end Ybtc
