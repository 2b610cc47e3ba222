import Ybtc.Evm.Rlp

/-!
# The node store

Trie nodes and contract code live in an `OverlayDB`: a table in memory, with a reference count for
each record, above a leveldb database.  A record is stored under its own hash.

The table is `m_main`, a hash map.  Here it is a list in which the entry nearest to the front
counts, so that the list also remembers what was under a hash before; nothing looks at those
entries.
-/

namespace Ybtc

open List

/-- An entry of `m_main`. -/
structure DbEntry where
  hash : Uint256
  value : Bytes
  refs : ℕ
deriving Repr, DecidableEq

/-- `OverlayDB`; `disk` is the answer of leveldb, empty where there is no record. -/
structure OverlayDB where
  main : List DbEntry
  disk : Uint256 → Bytes

namespace OverlayDB

variable (db : OverlayDB)

/-- `m_main.find(h)`. -/
def find (h : Uint256) : Option DbEntry := db.main.find? fun e => e.hash == h

/-- `MemoryDB::lookup`. -/
def memLookup (h : Uint256) : Bytes :=
  match db.find h with
  | some e => e.value
  | none => []

/-- `OverlayDB::lookup`. -/
def lookup (h : Uint256) : Bytes :=
  if db.memLookup h = [] then db.disk h else db.memLookup h

/-- `OverlayDB::exists`. -/
def contains (h : Uint256) : Bool := (db.find h).isSome || db.disk h != []

/-- `MemoryDB::insert`. -/
def insert (h : Uint256) (v : Bytes) : OverlayDB :=
  match db.find h with
  | some e => { db with main := ⟨h, v, e.refs + 1⟩ :: db.main }
  | none => { db with main := ⟨h, v, 1⟩ :: db.main }

/-- `OverlayDB::kill`: one reference less.  Without a reference left there is only a warning. -/
def kill (h : Uint256) : OverlayDB :=
  match db.find h with
  | some e => if 0 < e.refs then { db with main := ⟨h, e.value, e.refs - 1⟩ :: db.main } else db
  | none => db

/-- `OverlayDB::commit`: the records that are referred to are written, and the table is emptied. -/
def commit : OverlayDB where
  main := []
  disk h :=
    match db.find h with
    | some e => if 0 < e.refs then e.value else db.disk h
    | none => db.disk h

end OverlayDB

/-! ## Records that stay -/

/-- **No two different records were stored under one hash**, in the table or on disk. -/
def NoCollision (db : OverlayDB) : Prop :=
  ∀ e ∈ db.main, (∀ e' ∈ db.main, e'.hash = e.hash → e'.value = e.value) ∧
    (db.disk e.hash ≠ [] → db.disk e.hash = e.value)

/-- What every operation but `commit` does to the store: entries were added to the table, and the
    disk is as it was. -/
structure Grown (db db' : OverlayDB) : Prop where
  main : db.main <:+ db'.main
  disk : db'.disk = db.disk

namespace Grown

variable (db : OverlayDB)

lemma refl : Grown db db := ⟨suffix_refl _, rfl⟩

lemma trans {db db1 db2 : OverlayDB} (h1 : Grown db db1) (h2 : Grown db1 db2) : Grown db db2 :=
  ⟨h1.main.trans h2.main, h2.disk.trans h1.disk⟩

lemma insert (h : Uint256) (v : Bytes) : Grown db (db.insert h v) := by
  unfold OverlayDB.insert
  cases db.find h with
  | none | some e => exact ⟨suffix_cons _ _, rfl⟩

lemma kill (h : Uint256) : Grown db (db.kill h) := by
  unfold OverlayDB.kill
  cases db.find h with
  | none => exact refl db
  | some e =>
    dsimp only
    split_ifs
    · exact ⟨suffix_cons _ _, rfl⟩
    · exact refl db

/-- What holds of all entries holds of the earlier ones. -/
lemma noCollision {db db' : OverlayDB} (h : Grown db db') (hc : NoCollision db') :
    NoCollision db := by
  intro e he
  obtain ⟨h1, h2⟩ := hc e (h.main.subset he)
  rw [h.disk] at h2
  exact ⟨fun e' he' => h1 e' (h.main.subset he'), h2⟩

end Grown

namespace OverlayDB

variable {db : OverlayDB} {h : Uint256} {v : Bytes} {e : DbEntry}

lemma find_some (hf : db.find h = some e) : e ∈ db.main ∧ e.hash = h :=
  ⟨mem_of_find?_eq_some hf, by simpa using find?_some hf⟩

lemma find_isSome (he : e ∈ db.main) : ∃ e', db.find e.hash = some e' := by
  rw [← Option.isSome_iff_exists, find, find?_isSome]
  exact ⟨e, he, by simp⟩

/-- A record in the table is what is found under its hash, unless it is empty. -/
lemma lookup_of_mem (hc : NoCollision db) (he : e ∈ db.main) : db.lookup e.hash = e.value := by
  obtain ⟨e', he'⟩ := find_isSome he
  obtain ⟨hm, hh⟩ := find_some he'
  have hv : e'.value = e.value := (hc e he).1 e' hm hh
  have hmem : db.memLookup e.hash = e.value := by rw [memLookup, he']; exact hv
  unfold lookup
  split_ifs with hnil
  · -- An empty record hides nothing on disk, where there is none under its hash.
    rw [hmem] at hnil
    by_contra hne
    rw [hnil] at hne
    exact hne ((hc e he).2 hne ▸ hnil)
  · exact hmem

/-- A record that is found is in the table or on disk. -/
lemma lookup_cases (db : OverlayDB) (h : Uint256) :
    (∃ e ∈ db.main, e.hash = h ∧ e.value = db.lookup h) ∨ db.lookup h = db.disk h := by
  unfold lookup
  split_ifs with hnil
  · exact Or.inr rfl
  · refine Or.inl ?_
    unfold memLookup at hnil ⊢
    cases hf : db.find h with
    | none => rw [hf] at hnil; exact absurd rfl hnil
    | some e =>
      obtain ⟨hm, hh⟩ := find_some hf
      exact ⟨e, hm, hh, rfl⟩

lemma mem_insert (db : OverlayDB) (h : Uint256) (v : Bytes) :
    ∃ e ∈ (db.insert h v).main, e.hash = h ∧ e.value = v := by
  unfold insert
  cases db.find h with
  | none | some e => exact ⟨_, mem_cons_self, rfl, rfl⟩

/-- **What was stored is found.** -/
lemma lookup_insert (hc : NoCollision (db.insert h v)) : (db.insert h v).lookup h = v := by
  obtain ⟨e, he, rfl, rfl⟩ := mem_insert db h v
  exact lookup_of_mem hc he

end OverlayDB

/-- **What could be read before can be read after.** -/
lemma Grown.lookup {db db' : OverlayDB} (hg : Grown db db') (hc : NoCollision db') {h : Uint256}
    (hne : db.lookup h ≠ []) : db'.lookup h = db.lookup h := by
  rcases db.lookup_cases h with ⟨e, he, rfl, hv⟩ | hd
  · rw [OverlayDB.lookup_of_mem hc (hg.main.subset he), hv]
  · rcases db'.lookup_cases h with ⟨e, he, rfl, hv⟩ | hd'
    · rw [hd] at hne ⊢
      rw [← hg.disk] at hne ⊢
      rw [(hc e he).2 hne, hv]
    · rw [hd, hd', hg.disk]

end Ybtc
