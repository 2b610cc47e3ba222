import Ybtc.Evm.Rlp

/-!
# Random access to the items of a list

A view of class `RLP` keeps where its last `operator[]` ended, and the next one starts from there if
it can.  The main result is `RLP.subscripts_sequential`.
-/

namespace Ybtc

open Fallible List Nat RLP

namespace RLP

/-! ## Access -/

/-- `m_lastIndex`, `m_lastEnd` and `m_lastItem`. -/
structure Cursor where
  lastIndex : ℕ
  lastEnd : ℕ
  lastItem : Bytes

/-- The cursor of a new view; its index is `(size_t)-1`. -/
def Cursor.fresh : Cursor := ⟨2 ^ 64 - 1, 0, []⟩

/-- The cursor goes back to the first item. -/
def restart (d : Bytes) : Except Fault Cursor := do
  let p ← payload d
  let s ← sizeAsEncoded p
  .ok ⟨0, s, cropped 0 s p⟩

/-- The body of the loop of `operator[]`. -/
def nextItem (d : Bytes) (c : Cursor) : Except Fault Cursor := do
  let p ← payload d
  let s ← sizeAsEncoded (p.drop c.lastEnd)
  let item := cropped 0 s (p.drop c.lastEnd)
  .ok ⟨c.lastIndex + 1, c.lastEnd + item.length, item⟩

/-- The loop, which ends at an empty item or after so many turns. -/
def seek (d : Bytes) : ℕ → Cursor → Except Fault Cursor
  | 0, c => .ok c
  | turns + 1, c =>
    if c.lastItem = [] then .ok c
    else do
      let c ← nextItem d c
      seek d turns c

/-- `operator[]`; what a call that throws leaves of the cursor is not kept. -/
def subscript (d : Bytes) (i : ℕ) (c : Cursor) : Except Fault (Bytes × Cursor) := do
  let c ← if i < c.lastIndex then restart d else .ok c
  let c ← seek d (i - c.lastIndex) c
  let _ ← sizeAsEncoded c.lastItem
  .ok (c.lastItem, c)

/-- Calls one after the other, on the same view. -/
def subscripts (d : Bytes) : List ℕ → Cursor → Except Fault (List Bytes)
  | [], _ => .ok []
  | i :: indices, c => do
    let r ← subscript d i c
    let items ← subscripts d indices r.2
    .ok (r.1 :: items)

/-- The items of a payload, as a loop over it finds them. -/
def splitItems : ℕ → Bytes → Except Fault (List Bytes)
  | _, [] => .ok []
  | 0, _ :: _ => .error .diverged
  | turns + 1, d => do
    let s ← sizeAsEncoded d
    let rest ← splitItems turns (d.drop s)
    .ok (cropped 0 s d :: rest)

/-- `toList`: the items one after the other. -/
def toList (d : Bytes) : Except Fault (List Bytes) :=
  if isList d then do
    let p ← payload d
    splitItems p.length p
  else .error (rangeError "Bad Cast")

end RLP

/-! ## Items -/

section Items

variable {c : UInt8} {q rest : Bytes} {k l m s : ℕ}

lemma head?_take_append (hm : 0 < m) (hq : m ≤ q.length) : (q.take m ++ rest).head? = q.head? := by
  obtain ⟨m, rfl⟩ := exists_eq_succ_of_ne_zero hm.ne'
  obtain ⟨x, q, rfl⟩ := exists_cons_of_length_pos (by omega : 0 < q.length)
  rfl

lemma longLength_take (h : longLength k q = .ok l) (hk : 0 < k) (hkm : k ≤ m)
    (hm : m ≤ q.length) : longLength k (q.take m ++ rest) = .ok l := by
  have hhead : (q.take m ++ rest).head? = q.head? := head?_take_append (hk.trans_le hkm) hm
  have htake : (q.take m ++ rest).take k = q.take k := by
    rw [take_append_of_le_length (by rw [length_take]; omega), take_take, min_eq_left hkm]
  rw [longLength] at h ⊢
  rw [if_neg (by rw [length_append, length_take]; omega), hhead, htake]
  rwa [if_neg (by omega)] at h

/-- The length is read from the bytes of the item only. -/
lemma rlpLength_take (h : RLP.length (c :: q) = .ok l) (hc : ¬ c.toNat < 0x80)
    (hs : payloadOffset (c :: q) + l = m + 1) (hm : m ≤ q.length) :
    RLP.length (c :: (q.take m ++ rest)) = .ok l := by
  rw [RLP.length] at h ⊢
  obtain ⟨hgood, h⟩ := bind_unit_ok.mp h
  rw [payloadOffset, if_neg hc] at hs
  have hgood' : requireGood (c :: (q.take m ++ rest)) = .ok () := by
    rw [requireGood] at hgood ⊢
    split_ifs at hgood with hbad
    refine if_neg fun hbad' => hbad ⟨hbad'.1, ?_⟩
    have hn : c.toNat = 0x81 := by rw [hbad'.1]; rfl
    rw [if_neg hc, if_pos (by omega)] at h
    have hl := Except.ok.inj h
    rw [if_pos (by omega)] at hs
    rw [← head?_take_append (show 0 < m by omega) hm]
    exact hbad'.2
  rw [hgood', ok_bind]
  split_ifs at h ⊢ with h1 h2 h3
  · exact h
  · rw [if_pos h2] at hs
    exact longLength_take h (by omega) (by omega) hm
  · exact h
  · rw [if_neg h2] at hs
    exact longLength_take h (by omega) (by omega) hm

/-- **Where the size of an item can be read, the bytes of this size are an item.** -/
lemma isItem_take {p : Bytes} (h : sizeAsEncoded p = .ok s) (hp : p ≠ []) :
    s ≤ p.length ∧ IsItem (p.take s) := by
  obtain ⟨c, q, rfl⟩ := exists_cons_of_ne_nil hp
  obtain ⟨s', hs, h⟩ := bind_ok.mp h
  split_ifs at h with hle
  cases h
  refine ⟨not_lt.mp hle, ?_⟩
  have hsize : ∀ m, s = m + 1 → ∀ rest, actualSize (c :: (q.take m ++ rest)) = .ok s := by
    rintro m rfl rest
    rw [actualSize] at hs ⊢
    split_ifs at hs ⊢ with hc
    · exact hs
    · obtain ⟨l, hl, hs⟩ := bind_ok.mp hs
      have he := Except.ok.inj hs
      rw [rlpLength_take hl hc he (by simp at hle; omega)]
      exact hs
  obtain ⟨m, rfl⟩ : ∃ m, s = m + 1 := by
    refine exists_eq_succ_of_ne_zero fun h0 => ?_
    rw [actualSize, h0] at hs
    split_ifs at hs with hc
    · cases hs
    obtain ⟨l, -, hl⟩ := bind_ok.mp hs
    have hl := Except.ok.inj hl
    rw [payloadOffset, if_neg hc] at hl
    split_ifs at hl <;> omega
  have hlen : ((c :: q).take (m + 1)).length = m + 1 := by
    rw [length_take]
    omega
  refine ⟨by simp, fun rest => ?_⟩
  rw [sizeAsEncoded, take_succ_cons, cons_append, hsize m rfl rest, ok_bind, if_neg]
  · rw [← hlen, take_succ_cons]
  · simp at hlen ⊢
    omega

end Items

lemma cropped_zero {d : Bytes} {s : ℕ} (h : s ≤ d.length) : cropped 0 s d = d.take s := by
  rw [cropped, if_pos (by omega), drop_zero]

lemma splitItems_ok : ∀ {turns : ℕ} {p : Bytes} {items : List Bytes},
    splitItems turns p = .ok items →
      items.length ≤ turns ∧ items.flatten = p ∧ ∀ x ∈ items, IsItem x
  | _, [], _, h => by
    rw [splitItems] at h
    cases h
    simp
  | 0, _ :: _, _, h => by cases h
  | turns + 1, c :: q, items, h => by
    obtain ⟨s, hs, h⟩ := bind_ok.mp h
    obtain ⟨rest, hrest, h⟩ := bind_ok.mp h
    obtain ⟨hle, hitem⟩ := isItem_take hs (cons_ne_nil c q)
    obtain ⟨hturns, hflat, hall⟩ := splitItems_ok hrest
    cases h
    rw [cropped_zero hle, flatten_cons, hflat, take_append_drop]
    exact ⟨succ_le_succ hturns, rfl, forall_mem_cons.mpr ⟨hitem, hall⟩⟩

lemma payload_length {d p : Bytes} (h : payload d = .ok p) : p.length ≤ d.length := by
  obtain ⟨l, -, h⟩ := bind_ok.mp h
  split_ifs at h
  cases h
  rw [cropped]
  split_ifs
  · rw [length_take, length_drop]
    omega
  · exact zero_le _

/-! ## Calls -/

namespace RLP

/-- The cursor at an item, or behind the last one. -/
def Cursor.at (items : List Bytes) (k : ℕ) : Cursor :=
  ⟨k, (items.take (k + 1)).flatten.length, items.getD k []⟩

section Calls

variable {d : Bytes} {items : List Bytes} (hp : payload d = .ok items.flatten)
  (hi : ∀ x ∈ items, IsItem x)

include hi

/-- The item at the front of the rest of the payload. -/
lemma sizeAsEncoded_drop (k : ℕ) :
    sizeAsEncoded (items.drop k).flatten = .ok (items.getD k []).length ∧
    cropped 0 (items.getD k []).length (items.drop k).flatten = items.getD k [] := by
  rcases lt_or_ge k items.length with hk | hk
  · have hx := hi _ (getElem_mem hk)
    rw [drop_eq_getElem_cons hk, flatten_cons, getD_eq_getElem _ _ hk, hx.size,
      cropped_zero (by simp), take_left]
    exact ⟨rfl, rfl⟩
  · rw [drop_of_length_le hk, getD_eq_default _ _ hk]
    exact ⟨rfl, rfl⟩

include hp

lemma restart_ok : restart d = .ok (.at items 0) := by
  obtain ⟨hsize, hcrop⟩ := sizeAsEncoded_drop hi 0
  rw [drop_zero] at hsize hcrop
  rw [restart, hp, ok_bind, hsize, ok_bind, hcrop, Cursor.at]
  cases items <;> simp

lemma nextItem_ok (k : ℕ) : nextItem d (.at items k) = .ok (.at items (k + 1)) := by
  obtain ⟨hsize, hcrop⟩ := sizeAsEncoded_drop hi (k + 1)
  have hdrop : items.flatten.drop (items.take (k + 1)).flatten.length =
      (items.drop (k + 1)).flatten := by
    conv_lhs => rw [← take_append_drop (k + 1) items, flatten_append]
    rw [take_append_drop, drop_left]
  have hend : (items.take (k + 1 + 1)).flatten.length =
      (items.take (k + 1)).flatten.length + (items.getD (k + 1) []).length := by
    rw [take_add_one, flatten_append, length_append, getD_eq_getElem?_getD]
    cases items[k + 1]? <;> simp
  rw [nextItem, hp, ok_bind, Cursor.at, hdrop, hsize, ok_bind, hcrop, Cursor.at, hend]

/-- The loop goes on to the item, or to the end. -/
lemma seek_ok : ∀ (turns : ℕ) {k : ℕ}, k ≤ items.length →
    seek d turns (.at items k) = .ok (.at items (min (k + turns) items.length))
  | 0, k, hk => by rw [seek, add_zero, min_eq_left hk]
  | turns + 1, k, hk => by
    rw [seek, show (Cursor.at items k).lastItem = items.getD k [] from rfl]
    rcases hk.lt_or_eq with hk | rfl
    · have hne : items.getD k [] ≠ [] := by
        rw [getD_eq_getElem _ _ hk]
        exact (hi _ (getElem_mem hk)).nonempty
      rw [if_neg hne, nextItem_ok hp hi, ok_bind, seek_ok turns hk, succ_add_eq_add_succ]
    · rw [getD_eq_default _ _ le_rfl, if_pos rfl, min_eq_right (by omega)]

/-- **One call**, whatever the calls before it have left. -/
lemma subscript_ok (hlen : items.length < 2 ^ 64) (i : ℕ) {c : Cursor}
    (hc : c = .fresh ∨ ∃ k ≤ items.length, c = .at items k) :
    ∃ c', subscript d i c = .ok (items.getD i [], c') ∧
      (c' = .fresh ∨ ∃ k ≤ items.length, c' = .at items k) := by
  have hfound : ∀ {k : ℕ}, k ≤ items.length → k ≤ i → (seek d (i - k) (.at items k) >>= fun c =>
      sizeAsEncoded c.lastItem >>= fun _ => .ok (c.lastItem, c)) =
        .ok (items.getD i [], .at items (min i items.length)) := by
    intro k hk hki
    rw [seek_ok hp hi _ hk, Nat.add_sub_cancel' hki, ok_bind, Cursor.at]
    rcases Nat.lt_or_ge i items.length with h | h
    · rw [min_eq_left h.le, getD_eq_getElem _ _ h, (hi _ (getElem_mem h)).sizeAsEncoded]
      rfl
    · rw [min_eq_right h, getD_eq_default _ _ le_rfl, getD_eq_default _ _ h]
      rfl
  rw [subscript]
  by_cases hlt : i < c.lastIndex
  · rw [if_pos hlt, restart_ok hp hi, ok_bind]
    exact ⟨_, hfound (zero_le _) (zero_le i), Or.inr ⟨_, min_le_right _ _, rfl⟩⟩
  · rw [if_neg hlt, ok_bind]
    rcases hc with rfl | ⟨k, hk, rfl⟩
    · -- the index of a new view is behind every item
      have hle : items.length ≤ i := by
        change ¬ i < 2 ^ 64 - 1 at hlt
        omega
      have hseek : ∀ turns, seek d turns .fresh = .ok .fresh
        | 0 => rfl
        | _ + 1 => if_pos rfl
      refine ⟨.fresh, ?_, Or.inl rfl⟩
      rw [getD_eq_default _ _ hle]
      dsimp only
      rw [hseek]
      rfl
    · exact ⟨_, hfound hk (not_lt.mp hlt), Or.inr ⟨_, min_le_right _ _, rfl⟩⟩

end Calls

/-- **Random access is sequential access.**  For every view of a list whose items can be read one
    after the other (its bytes are counted in a `size_t`), every sequence of calls of `operator[]`
    finds the items at the given indices, and the view of nothing past the end. -/
theorem subscripts_sequential {d : Bytes} {items : List Bytes} (hd : d.length < 2 ^ 64)
    (h : toList d = .ok items) (indices : List ℕ) :
    subscripts d indices .fresh = .ok (indices.map (items.getD · [])) := by
  rw [toList] at h
  split_ifs at h
  obtain ⟨p, hp, h⟩ := bind_ok.mp h
  obtain ⟨hturns, rfl, hi⟩ := splitItems_ok h
  have hlen := (hturns.trans (payload_length hp)).trans_lt hd
  have hrun : ∀ (indices : List ℕ) {c : Cursor},
      (c = .fresh ∨ ∃ k ≤ items.length, c = .at items k) →
      subscripts d indices c = .ok (indices.map (items.getD · [])) := by
    intro indices
    induction indices with
    | nil => exact fun _ => rfl
    | cons i indices ih =>
      intro c hc
      obtain ⟨c', hcall, hc'⟩ := subscript_ok hp hi hlen i hc
      rw [subscripts, hcall, ok_bind, ih hc']
      rfl
  exact hrun indices (Or.inl rfl)

/-- A list of two items, asked for the second, for one past the end, and for the first. -/
theorem subscripts_sequential_two : toList [0xc3, 0x05, 0x81, 0x80] = .ok [[0x05], [0x81, 0x80]] ∧
    subscripts [0xc3, 0x05, 0x81, 0x80] [1, 7, 0] .fresh = .ok [[0x81, 0x80], [], [0x05]] :=
  have h : toList [0xc3, 0x05, 0x81, 0x80] = .ok [[0x05], [0x81, 0x80]] := by decide +kernel
  ⟨h, subscripts_sequential (by decide) h [1, 7, 0]⟩

end RLP

end Ybtc
