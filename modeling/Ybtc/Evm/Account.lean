import Ybtc.Evm.TrieDB

/-!
# Accounts

`sc::Account`: what the state knows of one address.  The storage of an account is the trie under its
`storageRoot` with the entries of `storageOverlay` on top of it; its code is known by its hash, and
`codeCache` holds it once it was read or set.
-/

namespace Ybtc

/-- `std::unordered_map<u256, u256>`, the entries of a storage that are in memory. -/
abbrev StorageMap := AList fun _ : U256 => U256

/-- The bytes of an address, which are the key of its account. -/
def addressBytes (a : H160) : Bytes := (writeLE 20 a.toNat).reverse

/-- `EmptySHA3`, the hash of no code. -/
def emptySHA3 (sha3 : Bytes → Uint256) : Uint256 := sha3 []

/-- `Account`. -/
structure Account where
  isAlive : Bool
  isUnchanged : Bool
  hasNewCode : Bool
  nonce : U256
  balance : U256
  storageRoot : Uint256
  codeHash : Uint256
  storageOverlay : StorageMap
  codeCache : Bytes
deriving DecidableEq

namespace Account

variable (sha3 : Bytes → Uint256)

/-- `Account()`, which is dead. -/
def dead : Account where
  isAlive := false
  isUnchanged := false
  hasNewCode := false
  nonce := 0
  balance := 0
  storageRoot := emptyTrie sha3
  codeHash := emptySHA3 sha3
  storageOverlay := ∅
  codeCache := []

/-- `Account(nonce, balance)`: an account that has not been in the trie. -/
def created (nonce balance : U256) : Account :=
  { dead sha3 with isAlive := true, nonce := nonce, balance := balance }

/-- `Account(nonce, balance, contractRoot, codeHash, Unchanged)`: an account from the trie. -/
def loaded (nonce balance : U256) (storageRoot codeHash : Uint256) : Account where
  isAlive := true
  isUnchanged := true
  hasNewCode := false
  nonce := nonce
  balance := balance
  storageRoot := storageRoot
  codeHash := codeHash
  storageOverlay := ∅
  codeCache := []

variable (acc : Account)

def isDirty : Bool := !acc.isUnchanged

def isEmpty : Bool :=
  acc.nonce == 0 && acc.balance == 0 && acc.codeHash == emptySHA3 sha3

/-- `kill`.  The code in memory and the flag for new code stay as they are. -/
def kill : Account :=
  { acc with
    isAlive := false
    storageOverlay := ∅
    codeHash := emptySHA3 sha3
    storageRoot := emptyTrie sha3
    balance := 0
    nonce := 0
    isUnchanged := false }

def untouch : Account := { acc with isUnchanged := true }

def addBalance (value : U256) : Account :=
  { acc with balance := acc.balance + value, isUnchanged := false }

def incNonce : Account := { acc with nonce := acc.nonce + 1, isUnchanged := false }

def setNonce (nonce : U256) : Account :=
  { acc with nonce := nonce, isUnchanged := false }

def setStorage (p v : U256) : Account :=
  { acc with storageOverlay := acc.storageOverlay.insert p v, isUnchanged := false }

/-- `setStorageCache`: a value that was read, which is no change. -/
def setStorageCache (p v : U256) : Account :=
  { acc with storageOverlay := acc.storageOverlay.insert p v }

/-- `setNewCode`, which does not call `changed`. -/
def setNewCode (code : Bytes) : Account :=
  { acc with codeCache := code, hasNewCode := true, codeHash := sha3 code }

def resetCode : Account :=
  { acc with codeCache := [], hasNewCode := false, codeHash := emptySHA3 sha3 }

/-- `baseRoot`, with its assertion. -/
def baseRoot : Except Fault Uint256 :=
  if acc.storageRoot = 0 then .error .assertion else .ok acc.storageRoot

/-- `noteCode`, with its assertion. -/
def noteCode (code : Bytes) : Except Fault Account :=
  if sha3 code = acc.codeHash then .ok { acc with codeCache := code } else .error .assertion

end Account

/-! ## Records -/

/-- The record of an account in the state trie. -/
def accountRecord (nonce balance : U256) (storageRoot codeHash : Uint256) : Bytes :=
  rlpList [rlpInt nonce, rlpInt balance, rlpBytes (hashBytes storageRoot),
    rlpBytes (hashBytes codeHash)]

/-- The account of a record. -/
def readAccount (stateBack : Bytes) : Except Fault Account := do
  let r ← RLP.ofBytes stateBack
  let i0 ← RLP.item r 0
  let nonce ← RLP.toInt i0
  let i1 ← RLP.item r 1
  let balance ← RLP.toInt i1
  let i2 ← RLP.item r 2
  let contractRoot ← RLP.toHash i2
  let i3 ← RLP.item r 3
  let codeHash ← RLP.toHash i3
  if contractRoot = 0 then .error .assertion
  else .ok (Account.loaded nonce balance contractRoot codeHash)

end Ybtc
