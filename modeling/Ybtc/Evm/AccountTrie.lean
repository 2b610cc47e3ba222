import Ybtc.Evm.State
import Ybtc.Evm.TrieHash

/-!
# What the state trie says

The state trie maps hashed addresses to records of accounts, and each record names the root of a
second trie, which maps hashed positions to the words of the account's storage, and the hash of the
account's code.  Seen from outside, all of this is a map from hashed addresses to accounts.
-/

namespace Ybtc

open Option (Rel)

open RadixTrie Function List

variable {sha3 : Bytes → Uint256} {db db' : OverlayDB} {root root' : Uint256}

/-! ## One map, one root -/

/-- Every string of 32 bytes is a hash. -/
lemma exists_hashBytes {b : Bytes} (h : b.length = 32) : ∃ k, hashBytes k = b := by
  have hlt := readLE_lt b.reverse
  rw [length_reverse, h, show (256 : ℕ) ^ 32 = 2 ^ 256 by norm_num] at hlt
  refine ⟨BitVec.ofNat 256 (readLE b.reverse), ?_⟩
  rw [hashBytes, BitVec.toNat_ofNat, Nat.mod_eq_of_lt hlt, ← h, ← length_reverse, writeLE_readLE,
    reverse_reverse]

/-- Every key of 64 half bytes is the key of a hash. -/
lemma exists_hashKey {key : List Nibble} (h : key.length = 64) : ∃ k, hashKey k = key := by
  obtain ⟨k, hk⟩ := exists_hashBytes (b := packNibbles key) (by rw [packNibbles_length, h])
  exact ⟨k, by rw [hashKey, hk, nibblesOf_packNibbles (by rw [h])]⟩

/-- A tree is determined by what is found in it, and so is its root. -/
lemma TreeAt.root_unique {n : ℕ} {t t' : NodeTrie} (h : TreeAt sha3 n db root t)
    (h' : TreeAt sha3 n db' root' t') (hn : n < 2 ^ 31)
    (heq : ∀ key, lookup t key = lookup t' key) : root = root' := by
  have hcontents : contents t = contents t' :=
    OrderedMap.ext_find fun key => by rw [find_contents, find_contents, heq]
  have hentries : entries t = entries t' := congrArg OrderedMap.entries hcontents
  have he : hash256rlp sha3 (n + 1) ((entries t).map (behind [])) 0 = .ok (encodeTrie sha3 t) :=
    hash256rlp_encodeTrie h.shape (by simpa using hn) n.lt_succ_self
  have he' : hash256rlp sha3 (n + 1) ((entries t').map (behind [])) 0 = .ok (encodeTrie sha3 t') :=
    hash256rlp_encodeTrie h'.shape (by simpa using hn) n.lt_succ_self
  rw [hentries, he'] at he
  rw [h.hash, h'.hash, Except.ok.inj he]

/-- **A map has one root**, in whatever order it was built. -/
lemma MapAt.root_unique {m : Uint256 → Option Bytes} (h : MapAt sha3 db root m)
    (h' : MapAt sha3 db' root' m) : root = root' := by
  obtain ⟨t, ht, hm⟩ := h
  obtain ⟨t', ht', hm'⟩ := h'
  refine ht.root_unique ht' (by norm_num) fun key => ?_
  by_cases hk : key.length = 64
  · obtain ⟨k, rfl⟩ := exists_hashKey hk
    rw [hm k, hm' k]
  · -- A key of another length is in neither tree.
    have hnone : ∀ {t : NodeTrie}, Shape (fun v : Bytes => v.length < sizeLimit) t 64 →
        lookup t key = none := by
      intro t hs
      cases hl : lookup t key with
      | none => rfl
      | some v => exact absurd (hs.length_of_lookup hl) hk
    rw [hnone ht.shape, hnone ht'.shape]

/-- A root whose node is there is opened, and nothing happens. -/
lemma openRoot_of_stored (h : db.lookup root ≠ []) : openRoot sha3 root db = .ok () db := by
  have hcontains : db.contains root = true := by
    rcases db.lookup_cases root with ⟨e, he, rfl, -⟩ | hd
    · obtain ⟨e', he'⟩ := OverlayDB.find_isSome he
      rw [OverlayDB.contains, he']
      rfl
    · rw [hd] at h
      simp [OverlayDB.contains, h]
  have hinit : initIfEmpty sha3 root db = .ok () db := if_neg (by simp [hcontains])
  have hnode : storedNode root db = .ok (db.lookup root) db := rfl
  refine (Stateful.bind_of_ok hinit).trans ((Stateful.bind_of_ok hnode).trans ?_)
  rw [if_neg h]
  rfl

/-! ## Storage -/

/-- The entry of a word in a storage trie: zero has none. -/
def slotRecord (v : U256) : Option Bytes := if v = 0 then none else some (rlpInt v)

variable (sha3) in
/-- **The words under a storage root**, by their hashed positions. -/
def StorageAt (db : OverlayDB) (root : Uint256) (store : Uint256 → U256) : Prop :=
  MapAt sha3 db root fun k => slotRecord (store k)

section Storage

variable {store store' : Uint256 → U256}

section

variable (h : StorageAt sha3 db root store)

include h

lemma StorageAt.mono (hg : Grown db db') (hc : NoCollision db') :
    StorageAt sha3 db' root store := MapAt.mono h hg hc

lemma StorageAt.nonempty : db.lookup root ≠ [] := MapAt.nonempty h

lemma StorageAt.root_unique (h' : StorageAt sha3 db' root' store) :
    root = root' := MapAt.root_unique h h'

end

lemma storageAt_empty (h : db.lookup (emptyTrie sha3) = rlpNull) :
    StorageAt sha3 db (emptyTrie sha3) 0 := mapAt_empty h

lemma rlpInt_length (v : U256) : (rlpInt v).length ≤ 41 :=
  le_trans (rlpBytes_length _) (Nat.add_le_add_right (bigEndian_length 32 v.toNat) 9)

lemma isItem_rlpInt (v : U256) : IsItem (rlpInt v) :=
  isItem_rlpBytes (lt_of_le_of_lt (bigEndian_length 32 v.toNat) (by decide))

lemma slotRecord_update (k : Uint256) (v : U256) : (fun j => slotRecord (update store k v j)) =
      update (fun j => slotRecord (store j)) k (slotRecord v) :=
  funext fun _ => apply_update (fun _ => slotRecord) store k v _

/-- **A word is written.** -/
lemma StorageAt.write (h : StorageAt sha3 db root store) (k : Uint256) (v : U256) :
    Yields (if v = 0 then trieRemove sha3 root (hashBytes k)
      else trieInsert sha3 root (hashBytes k) (rlpInt v)) db
        fun root' db' => StorageAt sha3 db' root' (update store k v) := by
  unfold StorageAt
  rw [slotRecord_update]
  split_ifs with hv
  · rw [slotRecord, if_pos hv]
    exact MapAt.remove h k
  · rw [slotRecord, if_neg hv]
    exact MapAt.insert h k (lt_of_le_of_lt (rlpInt_length v) (by decide))

/-- **A word is read.** -/
lemma StorageAt.load {env : StateEnv} (h : StorageAt env.sha3 db root store) (p : U256) :
    State.loadSlot env root p db = .ok (store (env.sha3 (hashBytes p))) db := by
  refine (Stateful.bind_of_ok (openRoot_of_stored h.nonempty)).trans ?_
  rw [State.slotKey, MapAt.at h, Fallible.ok_bind, slotRecord]
  split_ifs with hz hnil
  · rw [hz]
    rfl
  · exact absurd rfl hnil
  · rename_i hne
    exact absurd hne (isItem_rlpInt _).nonempty
  · rw [Option.getD_some, (isItem_rlpInt _).ofBytes, Fallible.ok_bind, toInt_rlpInt]
    rfl

end Storage

/-! ## Records -/

/-- The fields of a record of the state trie. -/
structure StoredAccount where
  nonce : U256
  balance : U256
  storageRoot : Uint256
  codeHash : Uint256
deriving Repr, DecidableEq

namespace StoredAccount

def record (st : StoredAccount) : Bytes :=
  accountRecord st.nonce st.balance st.storageRoot st.codeHash

/-- The account that is loaded from the record. -/
def account (st : StoredAccount) : Account :=
  Account.loaded st.nonce st.balance st.storageRoot st.codeHash

/-- The items of the record. -/
def items (st : StoredAccount) : List Bytes :=
  [rlpInt st.nonce, rlpInt st.balance, rlpBytes (hashBytes st.storageRoot),
    rlpBytes (hashBytes st.codeHash)]

section

variable (st : StoredAccount)

lemma isItem_items : ∀ d ∈ st.items, IsItem d := by
  have hhash : ∀ h : Uint256, IsItem (rlpBytes (hashBytes h)) :=
    fun h => isItem_rlpBytes (hashBytes_short _)
  intro d hd
  simp only [items, mem_cons, not_mem_nil, or_false] at hd
  rcases hd with rfl | rfl | rfl | rfl
  · exact isItem_rlpInt _
  · exact isItem_rlpInt _
  · exact hhash _
  · exact hhash _

lemma items_length : st.items.flatten.length ≤ 164 := by
  have h0 := rlpInt_length st.nonce
  have h1 := rlpInt_length st.balance
  have h2 := rlpBytes_length (hashBytes st.storageRoot)
  have h3 := rlpBytes_length (hashBytes st.codeHash)
  rw [hashBytes_length] at h2 h3
  simp only [items, flatten_cons, flatten_nil, append_nil, length_append]
  omega

lemma items_lt : st.items.flatten.length < rlpLimit := lt_of_le_of_lt st.items_length (by decide)

lemma isItem_record : IsItem st.record := isItem_rlpList st.items_lt

lemma record_length : st.record.length < sizeLimit := by
  have hlen := st.items_length
  have hhead := rlpHeader_length 0xc0 st.items.flatten.length
  have heq : st.record.length = (rlpHeader 0xc0 st.items.flatten.length).length +
      st.items.flatten.length := length_append
  exact lt_of_le_of_lt (b := 200) (by omega) (by decide)

/-- **A record is read back.** -/
lemma readAccount_record (h : st.storageRoot ≠ 0) : readAccount st.record = .ok st.account := by
  have hitem : ∀ i, RLP.item st.record i = .ok (st.items.getD i []) := fun i =>
    item_rlpList st.items_lt st.isItem_items i
  simp only [readAccount, st.isItem_record.ofBytes, Fallible.ok_bind, hitem, items,
    getD_cons_zero, getD_cons_succ, toInt_rlpInt, toHash_hashBytes]
  rw [if_neg h]
  rfl

end

end StoredAccount

open StoredAccount

/-! ## Accounts -/

/-- An account as it is seen from outside.  Its storage is a map from hashed positions. -/
structure Content where
  nonce : U256
  balance : U256
  code : Bytes
  store : Uint256 → U256

variable (sha3) in
/-- The code is in the node store, under its hash.  No code needs no record. -/
def CodeAt (db : OverlayDB) (codeHash : Uint256) (code : Bytes) : Prop :=
  codeHash = sha3 code ∧ (code ≠ [] → codeHash ≠ emptySHA3 sha3 ∧ db.lookup codeHash = code)

variable (sha3) in
/-- **The record stands for the account.** -/
structure RecordOf (db : OverlayDB) (st : StoredAccount) (c : Content) : Prop where
  nonce : st.nonce = c.nonce
  balance : st.balance = c.balance
  code : CodeAt sha3 db st.codeHash c.code
  root_ne : st.storageRoot ≠ 0
  storage : StorageAt sha3 db st.storageRoot c.store

variable (sha3) in
/-- **The accounts under a root**, by their hashed addresses. -/
def WorldAt (db : OverlayDB) (root : Uint256) (world : Uint256 → Option Content) : Prop :=
  ∃ recs : Uint256 → Option StoredAccount, MapAt sha3 db root (fun k => (recs k).map record) ∧
    ∀ k, Rel (RecordOf sha3 db) (recs k) (world k)

section Accounts

variable {c : Content} {st st' : StoredAccount} {world : Uint256 → Option Content}

lemma CodeAt.mono {codeHash : Uint256} {code : Bytes} (h : CodeAt sha3 db codeHash code)
    (hg : Grown db db') (hc : NoCollision db') : CodeAt sha3 db' codeHash code := by
  refine ⟨h.1, fun hne => ⟨(h.2 hne).1, ?_⟩⟩
  have hl := (h.2 hne).2
  rw [hg.lookup hc (by rw [hl]; exact hne), hl]

lemma RecordOf.mono (h : RecordOf sha3 db st c) (hg : Grown db db') (hc : NoCollision db') :
    RecordOf sha3 db' st c :=
  ⟨h.nonce, h.balance, h.code.mono hg hc, h.root_ne, h.storage.mono hg hc⟩

/-- An account has one record. -/
lemma RecordOf.unique (h : RecordOf sha3 db st c) (h' : RecordOf sha3 db' st' c) : st = st' := by
  obtain ⟨n, b, r, ch⟩ := st
  obtain ⟨n', b', r', ch'⟩ := st'
  have hroot := h.storage.root_unique h'.storage
  have hcode := h.code.1.trans h'.code.1.symm
  have hnonce := h.nonce.trans h'.nonce.symm
  have hbalance := h.balance.trans h'.balance.symm
  dsimp only at hroot hcode hnonce hbalance
  rw [hroot, hcode, hnonce, hbalance]

variable {o : Option StoredAccount}

lemma rel_mono {o' : Option Content} (h : Rel (RecordOf sha3 db) o o')
    (hg : Grown db db') (hc : NoCollision db') : Rel (RecordOf sha3 db') o o' := by
  cases h with
  | some h => exact .some (h.mono hg hc)
  | none => exact .none

variable {oc : Option Content}

lemma rel_unique {o' : Option StoredAccount} (h : Rel (RecordOf sha3 db) o oc)
    (h' : Rel (RecordOf sha3 db') o' oc) : o = o' := by
  cases h with
  | some h =>
    cases h' with
    | some h' => rw [h.unique h']
  | none =>
    cases h'
    rfl

section

variable (h : WorldAt sha3 db root world)

include h

/-- **What is under a root stays**, whatever is stored later. -/
lemma WorldAt.mono (hg : Grown db db') (hc : NoCollision db') : WorldAt sha3 db' root world := by
  obtain ⟨recs, hm, hrel⟩ := h
  exact ⟨recs, hm.mono hg hc, fun k => rel_mono (hrel k) hg hc⟩

lemma WorldAt.nonempty : db.lookup root ≠ [] := by
  obtain ⟨recs, hm, -⟩ := h
  exact hm.nonempty

/-- **The same accounts have the same root.** -/
lemma WorldAt.root_unique (h' : WorldAt sha3 db' root' world) : root = root' := by
  obtain ⟨recs, hm, hrel⟩ := h
  obtain ⟨recs', hm', hrel'⟩ := h'
  obtain rfl : recs = recs' := funext fun k => rel_unique (hrel k) (hrel' k)
  exact hm.root_unique hm'

end

/-- An address without an account has no record. -/
lemma WorldAt.at_none (h : WorldAt sha3 db root world) {k : Uint256} (hk : world k = none) :
    trieAt db root (hashBytes k) = .ok [] := by
  obtain ⟨recs, hm, hrel⟩ := h
  have hr := hrel k
  rw [hm.at k]
  cases hrk : recs k with
  | none => rfl
  | some st =>
    rw [hk, hrk] at hr
    cases hr

/-- **The record of an account is read.** -/
lemma WorldAt.at_some (h : WorldAt sha3 db root world) {k : Uint256} (hk : world k = some c) :
    ∃ st, RecordOf sha3 db st c ∧ trieAt db root (hashBytes k) = .ok st.record := by
  obtain ⟨recs, hm, hrel⟩ := h
  have hr := hrel k
  rw [hk] at hr
  obtain ⟨st, hst, heq⟩ : ∃ st, RecordOf sha3 db st c ∧ recs k = some st := by
    cases hrk : recs k with
    | none => rw [hrk] at hr; cases hr
    | some st =>
      rw [hrk] at hr
      cases hr with
      | some hst => exact ⟨st, hst, rfl⟩
  refine ⟨st, hst, ?_⟩
  rw [hm.at k, heq]
  rfl

lemma map_record_update (recs : Uint256 → Option StoredAccount) (k : Uint256)
    (o : Option StoredAccount) :
    (fun j => (update recs k o j).map record) =
      update (fun j => (recs j).map record) k (o.map record) :=
  funext fun _ => apply_update (fun _ => Option.map record) recs k o _

lemma rel_update {recs : Uint256 → Option StoredAccount}
    (h : ∀ k, Rel (RecordOf sha3 db) (recs k) (world k)) (ho : Rel (RecordOf sha3 db) o oc)
    (k j : Uint256) : Rel (RecordOf sha3 db) (update recs k o j) (update world k oc j) := by
  rw [update_apply, update_apply]
  split_ifs
  · exact ho
  · exact h j

/-- **A record is written.** -/
lemma WorldAt.insert (h : WorldAt sha3 db root world) (hst : RecordOf sha3 db st c) (k : Uint256) :
    Yields (trieInsert sha3 root (hashBytes k) st.record) db
      fun root' db' => WorldAt sha3 db' root' (update world k (some c)) := by
  obtain ⟨recs, hm, hrel⟩ := h
  refine ((hm.insert k st.record_length).grown (trieInsert_grows _ _ _)).weaken ?_
  rintro root' db' ⟨hm', hg, hc⟩ -
  refine ⟨update recs k (some st), ?_, fun j => ?_⟩
  · rw [map_record_update]
    exact hm'
  · exact rel_update (fun k => rel_mono (hrel k) hg hc) (.some (hst.mono hg hc)) k j

/-- **A record is removed.** -/
lemma WorldAt.remove (h : WorldAt sha3 db root world) (k : Uint256) :
    Yields (trieRemove sha3 root (hashBytes k)) db
      fun root' db' => WorldAt sha3 db' root' (update world k none) := by
  obtain ⟨recs, hm, hrel⟩ := h
  refine ((hm.remove k).grown (trieRemove_grows _ _)).weaken ?_
  rintro root' db' ⟨hm', hg, hc⟩ -
  refine ⟨update recs k none, ?_, fun j => ?_⟩
  · rw [map_record_update]
    exact hm'
  · exact rel_update (fun k => rel_mono (hrel k) hg hc) .none k j

end Accounts

end Ybtc
