import Ybtc.Evm.Account

/-!
# The account state

`sc::State`: a facade for the state trie.  Accounts are loaded into a cache and changed there;
`commit` writes the changed ones to the trie.  A change log lets a failed execution be undone.

The table `m_aux`, which only serves to list the keys of a trie, is left out.
-/

namespace Ybtc

/-- `AccountMap`. -/
abbrev AccountMap := AList fun _ : H160 => Account

/-- `detail::Change`. -/
inductive Change
  | balance (address : H160) (value : U256)
  | storage (address : H160) (key value : U256)
  | nonce (address : H160)
  | create (address : H160)
  | newCode (address : H160)
  | touch (address : H160)
deriving Repr, DecidableEq

/-- What the class leaves open. -/
structure StateEnv where
  sha3 : Bytes → Uint256
  /-- The orders in which the hash tables are iterated. -/
  accountOrder : AccountMap → List (Σ _ : H160, Account)
  slotOrder : StorageMap → List (Σ _ : U256, U256)
  /-- The outcome of a random draw, by its number and the number of possibilities. -/
  randomIndex : ℕ → ℕ → ℕ
  /-- The word that the machine gets when it takes the twenty bytes of an address for a longer
      number; the reads of one run are told apart by the gas that is left. -/
  shortObject : ℕ → U256
  accountOrder_perm : ∀ m, (accountOrder m).Perm m.entries
  slotOrder_perm : ∀ m, (slotOrder m).Perm m.entries

/-- `State`.  The change log has its newest entry in front; `codeSizes` is the global
    `CodeSizeCache` and `draws` counts the random draws. -/
structure State where
  db : OverlayDB
  root : Uint256
  cache : AccountMap
  unchangedCacheEntries : List H160
  nonExistingAccountsCache : List H160
  touched : List H160
  accountStartNonce : U256
  changeLog : List Change
  codeSizes : List (Uint256 × ℕ)
  draws : ℕ

/-- A choice of what the class leaves open: hash tables are iterated in the order of their entries,
    and the first possibility is drawn. -/
def StateEnv.inOrder (sha3 : Bytes → Uint256) : StateEnv where
  sha3 := sha3
  accountOrder m := m.entries
  slotOrder m := m.entries
  randomIndex _ _ := 0
  shortObject _ := 0
  accountOrder_perm _ := .refl _
  slotOrder_perm _ := .refl _

/-- A state with empty caches. -/
def State.blank (db : OverlayDB) (root : Uint256) : State where
  db := db
  root := root
  cache := ∅
  unchangedCacheEntries := []
  nonExistingAccountsCache := []
  touched := []
  accountStartNonce := 0
  changeLog := []
  codeSizes := []
  draws := 0

/-- Code that works on the state. -/
abbrev ScM := EStateM Fault State

/-- Code that works on the node store of the state. -/
def onDb {α : Type} (x : TrieM α) : ScM α := fun s =>
  match x s.db with
  | .ok a db => .ok a { s with db := db }
  | .error e db => .error e { s with db := db }

/-- `Invalid256`. -/
def invalid256 : U256 := BitVec.allOnes 256

/-- `CommitBehaviour`. -/
inductive CommitBehaviour
  | keepEmptyAccounts
  | removeEmptyAccounts
deriving Repr, DecidableEq

namespace State

variable (env : StateEnv)

variable (a : H160)

/-- The key of an account in the state trie: its address, hashed. -/
def accountKey : Bytes := hashBytes (env.sha3 (addressBytes a))

/-- The key of a storage position in its trie. -/
def slotKey (p : U256) : Bytes := hashBytes (env.sha3 (hashBytes p))

/-! ## The caches -/

/-- `m_cache[address]`, which makes an account if there is none. -/
def cacheAt (s : State) (a : H160) : Account := (s.cache.lookup a).getD (Account.dead env.sha3)

/-- The account in the cache is replaced. -/
def setCache (s : State) (a : H160) (acc : Account) : State :=
  { s with cache := s.cache.insert a acc }

/-- The entry leaves the cache unless it was changed. -/
def evict (cache : AccountMap) (a : H160) : AccountMap :=
  match cache.lookup a with
  | some acc => if acc.isDirty then cache else cache.erase a
  | none => cache

/-- One turn of `clearCacheIfTooLarge`: the last entry takes the place of the one that is drawn. -/
def evictRandom (s : State) : State :=
  match s.unchangedCacheEntries.getLast? with
  | none => s
  | some last =>
    let i := env.randomIndex s.draws s.unchangedCacheEntries.length % s.unchangedCacheEntries.length
    { s with
      cache := evict s.cache (s.unchangedCacheEntries.getD i 0)
      unchangedCacheEntries := (s.unchangedCacheEntries.set i last).dropLast
      draws := s.draws + 1 }

/-- `clearCacheIfTooLarge`: every turn takes one entry out. -/
def clearCacheIfTooLarge (s : State) : State :=
  (evictRandom env)^[s.unchangedCacheEntries.length - 1000] s

/-- `CodeSizeCache::store`. -/
def storeCodeSize (h : Uint256) (size : ℕ) (s : State) : State :=
  if 50000 ≤ s.codeSizes.length then
    { s with
      codeSizes := (h, size) ::
        (s.codeSizes.eraseIdx (env.randomIndex s.draws s.codeSizes.length
          % s.codeSizes.length)).filter (·.1 != h)
      draws := s.draws + 1 }
  else { s with codeSizes := (h, size) :: s.codeSizes.filter (·.1 != h) }

/-- An account that was found in the trie enters the cache. -/
def cacheLoaded (stateBack : Bytes) : ScM Account := fun s =>
  match readAccount stateBack with
  | .error e => .error e (clearCacheIfTooLarge env s)
  | .ok acc =>
    .ok acc { (clearCacheIfTooLarge env s).setCache a acc with
      unchangedCacheEntries := (clearCacheIfTooLarge env s).unchangedCacheEntries ++ [a] }

/-- `account`: the account, from the cache or from the trie. -/
def account : ScM (Option Account) := fun s =>
  match s.cache.lookup a with
  | some acc => .ok (some acc) s
  | none =>
    if a ∈ s.nonExistingAccountsCache then .ok none s
    else
      match trieAt s.db s.root (accountKey env a) with
      | .error e => .error e s
      | .ok stateBack =>
        if stateBack = [] then
          .ok none { s with nonExistingAccountsCache := a :: s.nonExistingAccountsCache }
        else (some <$> cacheLoaded env a stateBack) s

/-! ## Changes -/

/-- A new entry of the change log. -/
def logChange (c : Change) : ScM Unit := fun s => .ok () { s with changeLog := c :: s.changeLog }

/-- The account in the cache is replaced. -/
def putAccount (acc : Account) : ScM Unit := fun s => .ok () (s.setCache a acc)

def requireAccountStartNonce : ScM U256 := fun s =>
  if s.accountStartNonce = invalid256 then
    .error (rangeError "Invalid Account Start Nonce State") s
  else .ok s.accountStartNonce s

def addressInUse : ScM Bool := do
  let acc ← account env a
  pure acc.isSome

/-- `createAccount`, with its assertion. -/
def createAccount (acc : Account) : ScM Unit := do
  let inUse ← addressInUse env a
  if inUse then throw .assertion
  else do
    putAccount a acc
    fun s => .ok () { s with
      nonExistingAccountsCache := s.nonExistingAccountsCache.filter (· != a) }
    logChange (.create a)

def createContract : ScM Unit := do
  let nonce ← requireAccountStartNonce
  createAccount env a (Account.created env.sha3 nonce 0)

def incNonce : ScM Unit := do
  let acc ← account env a
  match acc with
  | some acc => do
    putAccount a acc.incNonce
    logChange (.nonce a)
  | none => do
    let nonce ← requireAccountStartNonce
    createAccount env a (Account.created env.sha3 (nonce + 1) 0)

/-- `if (!a->isDirty() && a->isEmpty()) m_changeLog.emplace_back(Change::Touch, id);` -/
def logTouch (acc : Account) : ScM Unit :=
  if acc.isDirty = false ∧ acc.isEmpty env.sha3 then logChange (.touch a) else pure ()

/-- The two branches of `addBalance`. -/
def creditAccount (amount : U256) : Option Account → ScM Unit
  | some acc => do
    logTouch env a acc
    putAccount a (acc.addBalance amount)
  | none => do
    let nonce ← requireAccountStartNonce
    createAccount env a (Account.created env.sha3 nonce amount)

def addBalance (amount : U256) : ScM Unit := do
  let acc ← account env a
  creditAccount env a amount acc
  if amount = 0 then pure () else logChange (.balance a amount)

def subBalance (value : U256) : ScM Unit :=
  if value = 0 then pure ()
  else do
    let acc ← account env a
    match acc with
    | none => throw (rangeError "Not Enough Cash")
    | some acc =>
      if acc.balance < value then throw (rangeError "Not Enough Cash")
      else addBalance env a (0 - value)

def transferBalance (sender receiver : H160) (value : U256) : ScM Unit := do
  subBalance env sender value
  addBalance env receiver value

def kill : ScM Unit := do
  let acc ← account env a
  match acc with
  | some acc => putAccount a (acc.kill env.sha3)
  | none => pure ()

/-- `setNewCode`. -/
def setNewCode (code : Bytes) : ScM Unit := do
  fun s => .ok () (s.setCache a ((cacheAt env s a).setNewCode env.sha3 code))
  logChange (.newCode a)

/-! ## Reads -/

def balance : ScM U256 := do
  let acc ← account env a
  pure (acc.elim 0 Account.balance)

def getNonce : ScM U256 := do
  let acc ← account env a
  match acc with
  | some acc => pure acc.nonce
  | none => fun s => .ok s.accountStartNonce s

def codeHash : ScM Uint256 := do
  let acc ← account env a
  pure (acc.elim (emptySHA3 env.sha3) Account.codeHash)

def addressHasCode : ScM Bool := do
  let acc ← account env a
  pure (acc.elim false fun acc => acc.codeHash != emptySHA3 env.sha3)

/-- The code is loaded from the node store. -/
def loadCode (acc : Account) : ScM Bytes := fun s =>
  match acc.noteCode env.sha3 (s.db.lookup acc.codeHash) with
  | .error e => .error e s
  | .ok acc' =>
    .ok acc'.codeCache (storeCodeSize env acc.codeHash acc'.codeCache.length (s.setCache a acc'))

def code : ScM Bytes := do
  let acc ← account env a
  match acc with
  | none => pure []
  | some acc =>
    if acc.codeHash = emptySHA3 env.sha3 then pure []
    else if acc.codeCache = [] then loadCode env a acc
    else pure acc.codeCache

/-- `codeSize`, with the sizes that are remembered. -/
def codeSize : ScM ℕ := do
  let acc ← account env a
  match acc with
  | none => pure 0
  | some acc =>
    if acc.hasNewCode then pure acc.codeCache.length
    else fun s =>
      match s.codeSizes.lookup acc.codeHash with
      | some size => .ok size s
      | none => (do
          let c ← code env a
          fun s => .ok c.length (storeCodeSize env acc.codeHash c.length s)) s

/-- The value under a storage key in the trie of the account. -/
def loadSlot (storageRoot : Uint256) (p : U256) : TrieM U256 := do
  openRoot env.sha3 storageRoot
  fun db => Stateful.liftExcept (do
    let payload ← trieAt db storageRoot (slotKey env p)
    if payload = [] then .ok 0
    else do
      let r ← RLP.ofBytes payload
      RLP.toInt r) db

/-- `storage(id, key)`. -/
def storage (p : U256) : ScM U256 := do
  let acc ← account env a
  match acc with
  | none => pure 0
  | some acc =>
    match acc.storageOverlay.lookup p with
    | some v => pure v
    | none => do
      let storageRoot ← Stateful.liftExcept acc.baseRoot
      let v ← onDb (loadSlot env storageRoot p)
      putAccount a (acc.setStorageCache p v)
      pure v

/-- `setStorage`: what was there before goes to the change log. -/
def setStorage (p v : U256) : ScM Unit := do
  let old ← storage env a p
  logChange (.storage a p old)
  fun s => .ok () (s.setCache a ((cacheAt env s a).setStorage p v))

/-! ## The change log -/

def savepoint : ScM ℕ := fun s => .ok s.changeLog.length s

/-- One turn of `rollback`, for the newest entry. -/
def undo (s : State) (c : Change) : State :=
  match c with
  | .storage a p v => s.setCache a ((cacheAt env s a).setStorage p v)
  | .balance a v => s.setCache a ((cacheAt env s a).addBalance (0 - v))
  | .nonce a => s.setCache a ((cacheAt env s a).setNonce ((cacheAt env s a).nonce - 1))
  | .create a => { s with cache := s.cache.erase a }
  | .newCode a => s.setCache a ((cacheAt env s a).resetCode env.sha3)
  | .touch a =>
    { s.setCache a (cacheAt env s a).untouch with
      unchangedCacheEntries := s.unchangedCacheEntries ++ [a] }

/-- The loop of `rollback` over the entries of the log that are left. -/
def rollbackFrom (savepoint : ℕ) : List Change → ScM Unit
  | [] => fun s =>
    if savepoint = 0 then .ok () { s with changeLog := [] }
    else .error (.undefined .emptyVector) { s with changeLog := [] }
  | c :: rest => fun s =>
    if savepoint = rest.length + 1 then .ok () { s with changeLog := c :: rest }
    else rollbackFrom savepoint rest (undo env s c)

def rollback (savepoint : ℕ) : ScM Unit := fun s => rollbackFrom env savepoint s.changeLog s

/-! ## Commit -/

/-- An account that was changed and is empty is killed. -/
def killIfEmpty (cache : AccountMap) (a : H160) : AccountMap :=
  match cache.lookup a with
  | some acc =>
    if acc.isDirty && acc.isEmpty env.sha3 then cache.insert a (acc.kill env.sha3) else cache
  | none => cache

/-- `removeEmptyAccounts`. -/
def removeEmptyAccounts (s : State) : State :=
  { s with cache := s.cache.keys.foldl (killIfEmpty env) s.cache }

/-- The entries of the overlay go to the storage trie. -/
def commitSlots (storageRoot : Uint256) (slots : List (Σ _ : U256, U256)) : TrieM Uint256 :=
  slots.foldlM (fun root slot =>
    if slot.2 = 0 then trieRemove env.sha3 root (slotKey env slot.1)
    else trieInsert env.sha3 root (slotKey env slot.1) (rlpInt slot.2)) storageRoot

/-- The storage root of an account after its overlay was written. -/
def commitStorage (acc : Account) : TrieM Uint256 := do
  let storageRoot ← Stateful.liftExcept acc.baseRoot
  if acc.storageOverlay.entries = [] then pure storageRoot
  else do
    openRoot env.sha3 storageRoot
    let root ← commitSlots env storageRoot (env.slotOrder acc.storageOverlay)
    trieAssert (root ≠ 0)
    pure root

/-- New code goes to the node store. -/
def commitCode (acc : Account) : ScM Unit := fun s =>
  if acc.hasNewCode then
    .ok () { storeCodeSize env acc.codeHash acc.codeCache.length s with
      db := s.db.insert acc.codeHash acc.codeCache }
  else .ok () s

/-- An update of the state trie. -/
def updateTrie (x : Uint256 → TrieM Uint256) : ScM Unit := fun s =>
  match x s.root s.db with
  | .ok root db => .ok () { s with root := root, db := db }
  | .error e db => .error e { s with db := db }

/-- One account of the cache goes to the trie. -/
def commitAccount (acc : Account) : ScM Unit :=
  if acc.isDirty = false then pure ()
  else if acc.isAlive then do
    let storageRoot ← onDb (commitStorage env acc)
    commitCode env acc
    updateTrie fun root => trieInsert env.sha3 root (accountKey env a)
      (accountRecord acc.nonce acc.balance storageRoot acc.codeHash)
  else updateTrie fun root => trieRemove env.sha3 root (accountKey env a)

/-- `sc::commit`. -/
def commitAccounts : List (Σ _ : H160, Account) → ScM Unit
  | [] => pure ()
  | entry :: entries => do
    commitAccount env entry.1 entry.2
    commitAccounts entries

/-- The addresses that `sc::commit` returns. -/
def dirtyAddresses (cache : AccountMap) : List H160 :=
  (cache.entries.filter fun entry => entry.2.isDirty).map Sigma.fst

/-- The end of `commit`. -/
def cleared (s : State) : State :=
  { s with
    touched := dirtyAddresses s.cache ++ s.touched
    changeLog := []
    cache := ∅
    unchangedCacheEntries := [] }

/-- `commit`. -/
def commit (behaviour : CommitBehaviour) : ScM Unit := do
  fun s => .ok () (if behaviour = .removeEmptyAccounts then removeEmptyAccounts env s else s)
  fun s => commitAccounts env (env.accountOrder s.cache) s
  fun s => .ok () (cleared s)

/-- `setRoot`: the caches are emptied and the root is set before it is looked up. -/
def setRoot (root : Uint256) : ScM Unit := do
  fun s => .ok () { s with
    cache := ∅, unchangedCacheEntries := [], nonExistingAccountsCache := [], root := root }
  onDb (openRoot env.sha3 root)

end State

end Ybtc
