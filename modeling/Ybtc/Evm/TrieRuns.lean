import Ybtc.Evm.TrieMap
import Ybtc.Core.RadixOrder

/-!
# Runs of a trie

A trie that is initialised and then changed by insertions and removals, with keys of one length,
holds what a finite map holds after the same changes.

The number of half bytes of a key is kept in 32 bits, and some functions take it as an `int`; the
bound on the length of the keys is for them.  The keys of the state are hashes of 32 bytes.
-/

namespace Ybtc

open RadixTrie Stateful List OrderedMap

/-! ## The order of byte strings -/

instance uint8LinearOrder : LinearOrder UInt8 where
  le_refl := UInt8.le_refl
  le_trans _ _ _ := UInt8.le_trans
  le_antisymm _ _ := UInt8.le_antisymm
  le_total := UInt8.le_total
  lt_iff_le_not_ge _ _ := by
    simp only [UInt8.le_iff_toNat_le, UInt8.lt_iff_toNat_lt]
    omega
  toDecidableLE := inferInstance

/-- `BytesMap`. -/
abbrev BytesMap := OrderedMap Bytes Bytes

lemma nibblesOf_inj {k k' : Bytes} : nibblesOf k = nibblesOf k' ↔ k = k' := by
  refine ⟨fun h => ?_, congrArg nibblesOf⟩
  rw [← packNibbles_nibblesOf k, ← packNibbles_nibblesOf k', h]

/-! ## Changes -/

/-- A change of a trie. -/
inductive TrieOp
  | insert (key value : Bytes)
  | remove (key : Bytes)
deriving DecidableEq

open TrieOp

/-- The keys are `len` bytes long and the values are not empty. -/
def TrieOp.Legal (len : ℕ) : TrieOp → Prop
  | .insert key value => key.length = len ∧ value ≠ []
  | .remove key => key.length = len

/-- The value is of a possible size. -/
def TrieOp.Fits : TrieOp → Prop
  | .insert _ value => value.length < sizeLimit
  | .remove _ => True

/-- What a finite map does. -/
def TrieOp.onMap (m : BytesMap) : TrieOp → BytesMap
  | .insert key value => m.insert key value
  | .remove key => m.erase key

/-- The finite map after a run. -/
def finalMap (ops : List TrieOp) : BytesMap := ops.foldl onMap empty

section

variable (sha3 : Bytes → Uint256)

/-- `init()`. -/
def trieInit : TrieM Uint256 := do
  let root ← forceInsertNode sha3 rlpNull
  openRoot sha3 root
  pure root

/-- A change; the new root. -/
def TrieOp.run (root : Uint256) : TrieOp → TrieM Uint256
  | .insert key value => trieInsert sha3 root key value
  | .remove key => trieRemove sha3 root key

/-- A trie that is initialised and changed; its root. -/
def trieRun (ops : List TrieOp) : TrieM Uint256 := do
  let root ← trieInit sha3
  ops.foldlM (run sha3) root

/-- **The trie under the root holds the map**, whose keys are `len` bytes long. -/
def Represents (len : ℕ) (db : OverlayDB) (root : Uint256) (m : BytesMap) : Prop :=
  ∃ t, TreeAt sha3 (2 * len) db root t ∧ ∀ k, lookup t (nibblesOf k) = m.find k

end

variable {sha3 : Bytes → Uint256} {len : ℕ} {db : OverlayDB} {root : Uint256} {m : BytesMap}

/-! ## Growth -/

@[grind ←] lemma initIfEmpty_grows (root : Uint256) : Grows (initIfEmpty sha3 root) := by
  intro db
  unfold initIfEmpty
  split_ifs
  · exact Grown.insert _ _ _
  · exact Grown.refl db

variable (sha3) in
@[grind ←] lemma openRoot_grows (root : Uint256) : Grows (openRoot sha3 root) := by grind [openRoot]

lemma TrieOp.run_grows (root : Uint256) (op : TrieOp) : Grows (op.run sha3 root) := by
  cases op with
  | insert key value => exact trieInsert_grows _ _ _
  | remove key => exact trieRemove_grows _ _

/-! ## Runs -/

lemma nibbleSlice_of_length {key : Bytes} (hlen : len < 2 ^ 30) (hk : key.length = len) :
    nibbleSlice key = nibblesOf key ∧ (nibblesOf key).length = 2 * len :=
  ⟨nibbleSlice_eq (by omega), by rw [nibblesOf_length, hk]⟩

variable (sha3) in
/-- A root that is in the store is opened. -/
lemma openRoot_yields (hne : db.lookup root ≠ []) :
    Yields (openRoot sha3 root) db fun _ db' => db'.lookup root = db.lookup root := by
  refine Yields.bind (initIfEmpty_grows root) (Q := fun _ _ => True) ?_ (by grind) ?_
  · intro _
    unfold initIfEmpty
    split_ifs
    · exact ⟨(), _, rfl, trivial⟩
    · exact ⟨(), db, rfl, trivial⟩
  · intro _ db' _ hg hc _
    have hl := hg.lookup hc hne
    refine ⟨(), db', ?_, hl⟩
    rw [bind_apply]
    change (if db'.lookup root = [] then throw _ else pure () : TrieM Unit) db' = _
    rw [hl, if_neg hne]
    rfl

/-- A trie is initialised without an entry. -/
lemma trieInit_represents (hlen : len < 2 ^ 30) :
    Yields (trieInit sha3) db fun root db' => Represents sha3 len db' root empty := by
  have hshort : 2 * len < sizeLimit := lt_of_lt_of_le (b := 2 ^ 31) (by omega) (by decide)
  refine Yields.bind (forceInsertNode_grows sha3 _)
    (forceInsertNode_yields (t := .empty) hshort trivial trivial)
    (by grind) fun root db1 ht _ _ => ?_
  exact Yields.bind (openRoot_grows sha3 _)
    (openRoot_yields sha3 (by rw [ht.node]; exact ht.nonempty))
    (fun _ => Grows.pure _) fun _ db2 _ hg hc => Yields.pure ⟨.empty, ht.mono hg hc, fun k => rfl⟩

/-- **One change.** -/
lemma TrieOp.run_represents (hlen : len < 2 ^ 30) (h : Represents sha3 len db root m) {op : TrieOp}
    (hl : op.Legal len) (hf : op.Fits) :
    Yields (op.run sha3 root) db fun root' db' => Represents sha3 len db' root' (op.onMap m) := by
  obtain ⟨t, ht, hm⟩ := h
  cases op with
  | insert key value =>
    obtain ⟨hs, hn⟩ := nibbleSlice_of_length hlen hl.1
    refine (ht.insert (by rw [hs, hn]) hf).weaken fun root' db' ht' _ => ⟨_, ht', fun k => ?_⟩
    rw [hs, lookup_insert value ht.shape hn, onMap, find_insert, hm]
    simp only [nibblesOf_inj]
    split_ifs <;> rfl
  | remove key =>
    obtain ⟨hs, hn⟩ := nibbleSlice_of_length hlen hl
    refine (ht.remove (by rw [hs, hn])).weaken fun root' db' ht' _ => ⟨_, ht', fun k => ?_⟩
    rw [hs, lookup_afterDelete ht.shape hn, onMap, find_erase, hm]
    simp only [nibblesOf_inj]
    split_ifs <;> rfl

/-- **A whole run.** -/
lemma trieRun_represents (hlen : len < 2 ^ 30) {ops : List TrieOp} (hl : ∀ op ∈ ops, op.Legal len)
    (hf : ∀ op ∈ ops, op.Fits) (db : OverlayDB) : Yields (trieRun sha3 ops) db fun root db' =>
      Represents sha3 len db' root (finalMap ops) := by
  refine Yields.bind (by grind [trieInit]) (trieInit_represents hlen)
    (fun root => Grows.foldlM run_grows ops root) ?_
  intro root db1 hr _ _
  have hstep : ∀ op ∈ ops, ∀ done root db', Represents sha3 len db' root (finalMap done) →
      Yields (op.run sha3 root) db' fun root' db'' =>
        Represents sha3 len db'' root' (finalMap (done ++ [op])) := by
    intro op hop done root db' hI
    rw [finalMap, foldl_append]
    exact run_represents hlen hI (hl op hop) (hf op hop)
  have hstart : Represents sha3 len db1 root (finalMap []) := hr
  exact Yields.foldlM (I := fun done root db' => Represents sha3 len db' root (finalMap done))
    run_grows hstep hstart

lemma Represents.at (hlen : len < 2 ^ 30) (h : Represents sha3 len db root m) {k : Bytes}
    (hk : k.length = len) : trieAt db root k = .ok ((m.find k).getD []) := by
  obtain ⟨t, ht, hm⟩ := h
  obtain ⟨hs, hn⟩ := nibbleSlice_of_length hlen hk
  rw [ht.at (by rw [hs, hn]), hs, hm]

/-! ## Small stores -/

/-- A hash without collisions among short records: the bytes as digits of a number. -/
def digitsHash (b : Bytes) : Uint256 :=
  BitVec.ofNat 256 (b.foldl (fun h d => h * 257 + d.toNat + 1) 0)

/-- A store without a record. -/
def emptyStore : OverlayDB := ⟨[], fun _ => []⟩

/-- Records in the table alone do not collide if any two under one hash are the same. -/
lemma noCollision_of_all {db : OverlayDB} (hdisk : ∀ h, db.disk h = [])
    (hall : db.main.all (fun e => db.main.all fun e' => e'.hash != e.hash || e'.value == e.value)) :
    NoCollision db := by
  intro e he
  refine ⟨fun e' he' hh => ?_, fun hne => absurd (hdisk e.hash) hne⟩
  have := all_eq_true.mp (all_eq_true.mp hall e he) e' he'
  simpa [hh] using this

variable (sha3) in
lemma trieRun_grows (ops : List TrieOp) : Grows (trieRun sha3 ops) :=
  Grows.bind (by grind [trieInit]) fun _ => Grows.foldlM run_grows ops _

/-! ## Look-up -/

/-- **Look-up after a run.**  As long as no two records collide, the run ends well, and every key
    has the value that was inserted last and not removed since. -/
theorem trieRun_at (sha3 : Bytes → Uint256) (len : ℕ) (hlen : len < 2 ^ 30) (ops : List TrieOp)
    (hl : ∀ op ∈ ops, op.Legal len) (hf : ∀ op ∈ ops, op.Fits) (db : OverlayDB) :
    Yields (trieRun sha3 ops) db fun root db' =>
      ∀ k : Bytes, k.length = len → trieAt db' root k = .ok (((finalMap ops).find k).getD []) :=
  (trieRun_represents hlen hl hf db).weaken fun _ _ h _ _ hk => h.at hlen hk

/-- A run of three changes. -/
def threeChanges : List TrieOp := [.insert [1, 2] [7], .insert [1, 3] [8], .remove [1, 2]]

lemma threeChanges_legal : ∀ op ∈ threeChanges, op.Legal 2 := by simp [threeChanges, TrieOp.Legal]

lemma threeChanges_fits : ∀ op ∈ threeChanges, op.Fits := by
  simp [threeChanges, TrieOp.Fits]
  decide

lemma threeChanges_noCollision :
    NoCollision (stateAfter (trieRun digitsHash threeChanges emptyStore)) :=
  noCollision_of_all (fun h => by rw [(trieRun_grows _ _ emptyStore).disk]; rfl) (by decide +kernel)

theorem trieRun_at_three : ∃ root db', trieRun digitsHash threeChanges emptyStore = .ok root db' ∧
    ∀ k : Bytes, k.length = 2 →
      trieAt db' root k = .ok (((finalMap threeChanges).find k).getD []) :=
  trieRun_at digitsHash 2 (by decide) _ threeChanges_legal threeChanges_fits emptyStore
    threeChanges_noCollision

end Ybtc
