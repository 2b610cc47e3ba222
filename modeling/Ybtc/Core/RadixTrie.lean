import Mathlib.Data.List.Basic
import Mathlib.Logic.Function.Basic
import Mathlib.Tactic

/-!
# Radix trees over keys of one length

A radix tree stores values under keys, which are lists of digits.  A node is a leaf with the rest of
its key, a run of digits in front of a branch, or a branch with one child for each digit.  All keys
of a tree have the same length, so that no key ends inside another one.
-/

namespace RadixTrie

open Function List Nat Option

variable {D V : Type}

/-- A tree with digits `D` and values `V`. -/
inductive Trie (D V : Type)
  | empty
  | leaf (k : List D) (v : V)
  | ext (k : List D) (t : Trie D V)
  | branch (cs : D → Trie D V)

/-- The tree is a branch. -/
def Trie.IsBranch : Trie D V → Prop
  | .branch _ => True
  | _ => False

variable {t : Trie D V}

lemma Trie.IsBranch.exists (h : t.IsBranch) : ∃ cs, t = .branch cs := by
  cases t with
  | branch cs => exact ⟨cs, rfl⟩
  | _ => exact h.elim

/-! ## Keys -/

section Keys

variable [DecidableEq D]

/-- How many digits two keys share at the beginning. -/
def shared : List D → List D → ℕ
  | a :: as, b :: bs => if a = b then shared as bs + 1 else 0
  | _, _ => 0

lemma shared_le : ∀ k k' : List D, shared k k' ≤ k.length
  | [], _ | _ :: _, [] => by simp [shared]
  | a :: k, b :: k' => by
    rw [shared]
    split_ifs
    · rw [length_cons]
      exact succ_le_succ (shared_le k k')
    · exact zero_le _

/-- Behind a common beginning two keys that part at once share nothing more. -/
lemma shared_append {a b : D} (h : a ≠ b) (as bs : List D) :
    ∀ p : List D, shared (p ++ a :: as) (p ++ b :: bs) = p.length
  | [] => by
    change shared (a :: as) (b :: bs) = 0
    rw [shared, if_neg h]
  | c :: p => by
    change shared (c :: (p ++ a :: as)) (c :: (p ++ b :: bs)) = _
    rw [shared, if_pos rfl, shared_append h as bs p, length_cons]

lemma shared_le_right : ∀ k k' : List D, shared k k' ≤ k'.length
  | [], _ | _ :: _, [] => by simp [shared]
  | a :: k, b :: k' => by
    rw [shared]
    split_ifs
    · rw [length_cons]
      exact succ_le_succ (shared_le_right k k')
    · exact zero_le _

/-- A common beginning is shared. -/
lemma shared_append_append (k k' : List D) :
    ∀ p : List D, shared (p ++ k) (p ++ k') = p.length + shared k k'
  | [] => by rw [nil_append, nil_append, length_nil, zero_add]
  | c :: p => by
    rw [cons_append, cons_append, shared, if_pos rfl, shared_append_append k k' p, length_cons]
    omega

/-- Of the first `j` digits those are shared that are shared at all. -/
lemma shared_take : ∀ (j : ℕ) (k k' : List D), shared (k.take j) (k'.take j) = min j (shared k k')
  | 0, _, _ | _ + 1, [], _ | _ + 1, _ :: _, [] => by simp [shared]
  | j + 1, a :: k, b :: k' => by
    rw [take_succ_cons, take_succ_cons, shared, shared, shared_take j k k']
    split_ifs
    · omega
    · omega

/-- Behind digits that are shared the rest is shared. -/
lemma shared_drop : ∀ {i : ℕ} {k k' : List D}, i ≤ shared k k' →
    i + shared (k.drop i) (k'.drop i) = shared k k'
  | 0, _, _, _ => by simp
  | i + 1, [], _, h | i + 1, _ :: _, [], h => by simp [shared] at h
  | i + 1, a :: k, b :: k', h => by
    rw [shared] at h ⊢
    split_ifs at h with hab
    · rw [if_pos hab, drop_succ_cons, drop_succ_cons]
      have := shared_drop (le_of_succ_le_succ h)
      omega
    · omega

/-- **Where two keys part**, when the second is not longer and not a beginning of the first. -/
lemma exists_parting : ∀ {k k' : List D}, ¬ k' <+: k → k'.length ≤ k.length →
    ∃ p a as b bs, k = p ++ a :: as ∧ k' = p ++ b :: bs ∧ a ≠ b
  | _, [], hp, _ => absurd nil_prefix hp
  | [], _ :: _, _, hl => by simp at hl
  | a :: k, b :: k', hp, hl => by
    by_cases hab : a = b
    · subst hab
      have hp' : ¬ k' <+: k := fun h => hp (cons_prefix_cons.mpr ⟨rfl, h⟩)
      obtain ⟨p, x, xs, y, ys, rfl, rfl, hne⟩ := exists_parting hp' (le_of_succ_le_succ hl)
      exact ⟨a :: p, x, xs, y, ys, rfl, rfl, hne⟩
    · exact ⟨[], a, k, b, k', rfl, rfl, hab⟩

end Keys

/-! ## Operations -/

section Operations

variable [DecidableEq D]

/-- The value under a key. -/
def lookup : Trie D V → List D → Option V
  | .empty, _ => none
  | .leaf k v, key => if key = k then some v else none
  | .ext k t, key => if k <+: key then lookup t (key.drop k.length) else none
  | .branch _, [] => none
  | .branch cs, d :: rest => lookup (cs d) rest

/-- A run of digits in front of a tree, if there are any. -/
def extend (p : List D) (t : Trie D V) : Trie D V := if p = [] then t else .ext p t

/-- A branch with two children. -/
def fork (a : D) (t : Trie D V) (b : D) (u : Trie D V) : Trie D V :=
  .branch (update (update (fun _ => .empty) a t) b u)

/-- A new leaf beside what was under the old key `k`, where the keys part. -/
def split (key : List D) (v : V) (k : List D) (old : List D → Trie D V) : Trie D V :=
  match key.drop (shared key k), k.drop (shared key k) with
  | a :: as, b :: bs => extend (key.take (shared key k)) (fork b (old bs) a (.leaf as v))
  | _, _ => .empty

/-- Insertion. -/
def insert : Trie D V → List D → V → Trie D V
  | .empty, key, v => .leaf key v
  | .leaf k w, key, v =>
    if k = key then .leaf key v else split key v k fun rest => .leaf rest w
  | .ext k t, key, v =>
    if k <+: key then .ext k (insert t (key.drop k.length) v)
    else split key v k fun rest => extend rest t
  | .branch cs, [], _ => .branch cs
  | .branch cs, d :: rest, v => .branch (update cs d (insert (cs d) rest v))

/-- A run of digits in front of a tree, made one with a run or a key at its top. -/
def join (k : List D) : Trie D V → Trie D V
  | .leaf k' v => .leaf (k ++ k') v
  | .ext k' t => .ext (k ++ k') t
  | t => .ext k t

open Classical in
/-- A branch; with one child left it is no branch any more. -/
noncomputable def collapse (cs : D → Trie D V) : Trie D V :=
  if h : ∃! d, cs d ≠ .empty then join [h.choose] (cs h.choose) else .branch cs

/-- Removal; `none` when the key is not there. -/
noncomputable def delete : Trie D V → List D → Option (Trie D V)
  | .empty, _ => none
  | .leaf k _, key => if k = key then some .empty else none
  | .ext k t, key =>
    if k <+: key then (delete t (key.drop k.length)).map (join k) else none
  | .branch _, [] => none
  | .branch cs, d :: rest =>
    (delete (cs d) rest).map fun t' => collapse (update cs d t')

end Operations

/-! ## Shapes -/

/-- At least two children. -/
def Two (cs : D → Trie D V) : Prop := ∃ a b, a ≠ b ∧ cs a ≠ .empty ∧ cs b ≠ .empty

/-- **The trees that occur**, for keys with `n` digits and values that satisfy `ok`: runs are not
    empty and stand in front of branches, and a branch has at least two children. -/
def Shape (ok : V → Prop) : Trie D V → ℕ → Prop
  | .empty, _ => True
  | .leaf k v, n => k.length = n ∧ ok v
  | .ext k t, n => k ≠ [] ∧ t.IsBranch ∧ ∃ m, n = k.length + m ∧ Shape ok t m
  | .branch cs, n => Two cs ∧ ∃ m, n = m + 1 ∧ ∀ d, Shape ok (cs d) m

open Shape

/-! ## Look-up -/

section Lookup

variable [DecidableEq D]

/-- What `f` finds behind the digits `k`. -/
def under (k : List D) (f : List D → Option V) (key : List D) : Option V :=
  if k <+: key then f (key.drop k.length) else none

variable (f : List D → Option V)

@[simp] lemma under_nil : under [] f = f := by
  funext key
  simp [under]

variable (k : List D)

@[simp] lemma under_append_left (rest : List D) : under k f (k ++ rest) = f rest := by
  rw [under, if_pos (prefix_append k rest), drop_left]

lemma under_of_not_below {k key : List D} (h : ¬ k <+: key) :
    under k f key = none := if_neg h

lemma under_cons_cons (a d : D) (k key : List D) (f : List D → Option V) :
    under (a :: k) f (d :: key) = if a = d then under k f key else none := by
  unfold under
  by_cases had : a = d
  · subst had
    simp
  · rw [if_neg had, if_neg]
    exact fun h => had (cons_prefix_cons.mp h).1

/-- Digits in front of digits. -/
lemma under_append (p q : List D) (f : List D → Option V) :
    under (p ++ q) f = under p (under q f) := by
  funext key
  by_cases hp : p <+: key
  · obtain ⟨r, rfl⟩ := hp
    rw [under_append_left]
    unfold under
    by_cases hq : q <+: r
    · rw [if_pos ((prefix_append_right_inj p).mpr hq), if_pos hq, length_append,
        ← drop_drop, drop_left]
    · rw [if_neg (fun h => hq ((prefix_append_right_inj p).mp h)), if_neg hq]
  · rw [under_of_not_below _ hp, under_of_not_below]
    exact fun h => hp ((prefix_append p q).trans h)

/-- The value of a leaf, once its key is consumed. -/
def atEnd (v : V) (rest : List D) : Option V := if rest = [] then some v else none

lemma lookup_leaf (v : V) : lookup (.leaf k v) = under k (atEnd v) := by
  funext key
  by_cases hk : k <+: key
  · obtain ⟨r, rfl⟩ := hk
    rw [under_append_left, lookup, atEnd]
    simp
  · rw [under_of_not_below _ hk, lookup, if_neg]
    rintro rfl
    exact hk prefix_rfl

lemma lookup_ext (t : Trie D V) : lookup (.ext k t) = under k (lookup t) := by
  funext key
  rw [lookup, under]

lemma lookup_extend (p : List D) (t : Trie D V) : lookup (extend p t) = under p (lookup t) := by
  unfold extend
  split_ifs with hp
  · rw [hp, under_nil]
  · exact lookup_ext p t

lemma lookup_fork (a b : D) (t u : Trie D V) (d : D) (rest : List D) :
    lookup (fork a t b u) (d :: rest) =
      if d = b then lookup u rest else if d = a then lookup t rest else none := by
  rw [fork, lookup, update_apply, update_apply]
  split_ifs <;> rfl

/-- The keys part, and there is the new branch. -/
lemma split_eq {a b : D} (hab : a ≠ b) (p as bs : List D) (v : V) (old : List D → Trie D V) :
    split (p ++ a :: as) v (p ++ b :: bs) old = extend p (fork b (old bs) a (.leaf as v)) := by
  rw [split, shared_append hab, drop_left, drop_left, take_left]

/-- **Look-up after a split.** -/
lemma lookup_split {key k : List D} (hk : ¬ k <+: key) (hl : k.length ≤ key.length) (v : V)
    {old : List D → Trie D V} {f : List D → Option V} (hold : ∀ r, lookup (old r) = under r f)
    (key' : List D) :
    lookup (split key v k old) key' = if key' = key then some v else under k f key' := by
  obtain ⟨p, a, as, b, bs, rfl, rfl, hab⟩ := exists_parting hk hl
  rw [split_eq hab, lookup_extend, under_append]
  by_cases hp : p <+: key'
  · obtain ⟨r, rfl⟩ := hp
    simp only [under_append_left, append_cancel_left_eq]
    cases r with
    | nil => simp [fork, lookup, under]
    | cons d r =>
      rw [lookup_fork, hold, under_cons_cons, lookup]
      by_cases ha : d = a
      · subst ha
        by_cases hr : r = as
        · simp [hr]
        · simp [hr, hab.symm]
      · rw [if_neg ha, if_neg (fun h => ha (List.cons.inj h).1)]
        by_cases hb : d = b
        · rw [if_pos hb, if_pos hb.symm]
        · rw [if_neg hb, if_neg (Ne.symm hb)]
  · rw [under_of_not_below _ hp, under_of_not_below _ hp, if_neg]
    rintro rfl
    exact hp (prefix_append _ _)

lemma lookup_join (t : Trie D V) : lookup (join k t) = under k (lookup t) := by
  cases t with
  | empty => exact lookup_ext k _
  | leaf k' v => rw [join, lookup_leaf, lookup_leaf, under_append]
  | ext k' t => rw [join, lookup_ext, lookup_ext, under_append]
  | branch cs => exact lookup_ext k _

/-- A branch with one child left holds what the child does. -/
lemma lookup_collapse (cs : D → Trie D V) : lookup (collapse cs) = lookup (.branch cs) := by
  unfold collapse
  split_ifs with h
  · obtain ⟨hne, huniq⟩ := h.choose_spec
    generalize h.choose = d at hne huniq
    funext key
    rw [lookup_join]
    cases key with
    | nil => simp [under, lookup]
    | cons e rest =>
      rw [under_cons_cons, lookup]
      by_cases hde : d = e
      · rw [if_pos hde, hde, under_nil]
      · -- All other children are empty.
        have he : cs e = .empty := by
          by_contra hne'
          exact hde (huniq e hne').symm
        rw [if_neg hde, he]
        rfl
  · rfl

end Lookup

/-! ## The tree is a map -/

section Map

variable [DecidableEq D] {ok : V → Prop}

omit [DecidableEq D] in
/-- Keys of one length: the one is a beginning of the other only if they are the same. -/
lemma not_prefix_of_ne {k key : List D} (hl : k.length = key.length) (hne : k ≠ key) :
    ¬ k <+: key := fun h => hne (h.eq_of_length hl)

/-- **Insertion changes the value under its key.** -/
lemma lookup_insert (v : V) : ∀ {t : Trie D V} {n : ℕ} {key : List D}, Shape ok t n →
    key.length = n → ∀ key', lookup (insert t key v) key'
      = if key' = key then some v else lookup t key'
  | .empty, _, key, _, _, key' => rfl
  | .leaf k w, n, key, hs, hn, key' => by
    obtain ⟨hk, -⟩ := hs
    rw [insert]
    by_cases hkk : k = key
    · rw [if_pos hkk, hkk, lookup, lookup]
      split_ifs <;> rfl
    · rw [if_neg hkk]
      have hl : k.length = key.length := hk.trans hn.symm
      rw [lookup_split (not_prefix_of_ne hl hkk) hl.le v (lookup_leaf · w), lookup_leaf]
  | .ext k t, n, key, hs, hn, key' => by
    obtain ⟨-, -, m, rfl, hst⟩ := hs
    rw [insert]
    by_cases hk : k <+: key
    · rw [if_pos hk]
      obtain ⟨r, rfl⟩ := hk
      rw [drop_left, lookup_ext, lookup_ext]
      rw [length_append, add_left_cancel_iff] at hn
      by_cases hp : k <+: key'
      · obtain ⟨r', rfl⟩ := hp
        rw [under_append_left, under_append_left, lookup_insert v hst hn]
        simp only [append_cancel_left_eq]
      · rw [under_of_not_below _ hp, under_of_not_below _ hp, if_neg]
        rintro rfl
        exact hp (prefix_append _ _)
    · rw [if_neg hk, lookup_split hk (by omega) v (fun r => lookup_extend r t), lookup_ext]
  | .branch cs, n, [], hs, hn, key' => by
    obtain ⟨-, m, rfl, -⟩ := hs
    simp at hn
  | .branch cs, n, d :: rest, hs, hn, [] => by
    rw [insert, lookup, lookup, if_neg (by simp)]
  | .branch cs, n, d :: rest, hs, hn, e :: rest' => by
    obtain ⟨-, m, rfl, hcs⟩ := hs
    rw [insert, lookup, lookup]
    by_cases hde : e = d
    · subst hde
      rw [update_self, lookup_insert v (hcs e) (by simpa using hn)]
      simp only [List.cons.injEq, true_and]
    · rw [update_of_ne hde, if_neg fun h => hde (List.cons.inj h).1]

/-- What the outcome of a removal means. -/
def Removed (t : Trie D V) (key : List D) : Option (Trie D V) → Prop
  | none => lookup t key = none
  | some t' => ∀ key', lookup t' key' = if key' = key then none else lookup t key'

/-- **Removal takes the value under its key away**, and says so when there is none. -/
lemma lookup_delete : ∀ {t : Trie D V} {n : ℕ} {key : List D}, Shape ok t n → key.length = n →
    Removed t key (delete t key)
  | .empty, _, key, _, _ => rfl
  | .leaf k v, n, key, hs, hn => by
    rw [delete]
    split_ifs with hk
    · subst hk
      intro key'
      rw [lookup, lookup]
      split_ifs <;> rfl
    · exact if_neg (Ne.symm hk)
  | .ext k t, n, key, hs, hn => by
    obtain ⟨-, -, m, rfl, hst⟩ := hs
    rw [delete]
    split_ifs with hk
    · obtain ⟨r, rfl⟩ := hk
      rw [length_append, add_left_cancel_iff] at hn
      have ih := lookup_delete hst hn
      rw [drop_left]
      cases hd : delete t r with
      | none =>
        rw [hd] at ih
        rw [map_none, Removed, lookup_ext, under_append_left]
        exact ih
      | some t' =>
        rw [hd] at ih
        rw [map_some]
        intro key'
        rw [lookup_join, lookup_ext]
        by_cases hp : k <+: key'
        · obtain ⟨r', rfl⟩ := hp
          rw [under_append_left, under_append_left, ih]
          simp only [append_cancel_left_eq]
        · rw [under_of_not_below _ hp, under_of_not_below _ hp, ite_self]
    · rw [Removed, lookup_ext, under_of_not_below _ hk]
  | .branch cs, n, [], hs, hn => rfl
  | .branch cs, n, d :: rest, hs, hn => by
    obtain ⟨-, m, rfl, hcs⟩ := hs
    have ih : Removed (cs d) rest (delete (cs d) rest) := lookup_delete (hcs d) (by simpa using hn)
    rw [delete]
    cases hd : delete (cs d) rest with
    | none =>
      rw [hd] at ih
      exact ih
    | some t' =>
      rw [hd] at ih
      rw [map_some]
      intro key'
      rw [lookup_collapse]
      cases key' with
      | nil => rw [lookup, lookup, ite_self]
      | cons e rest' =>
        rw [lookup, lookup]
        by_cases hde : e = d
        · subst hde
          rw [update_self, ih]
          simp only [List.cons.injEq, true_and]
        · rw [update_of_ne hde, if_neg fun h => hde (List.cons.inj h).1]

end Map

/-! ## The shape is kept -/

section Shapes

variable [DecidableEq D] {ok : V → Prop}

variable {m : ℕ}

omit [DecidableEq D] in
/-- A run of digits in front of a branch, if there are any. -/
lemma Shape.extend (hs : Shape ok t m) (p : List D) (ht : t.IsBranch) :
    Shape ok (extend p t) (p.length + m) := by
  unfold RadixTrie.extend
  split_ifs with hp
  · rw [hp, length_nil, zero_add]
    exact hs
  · exact ⟨hp, ht, m, rfl, hs⟩

omit [DecidableEq D] in
lemma extend_ne_empty {p : List D} (ht : t ≠ .empty) : extend p t ≠ .empty := by
  unfold RadixTrie.extend
  split_ifs
  · exact ht
  · simp

/-- A branch with two children that are there. -/
lemma Shape.fork {a b : D} (hab : a ≠ b) {u : Trie D V} (ht : Shape ok t m) (hu : Shape ok u m)
    (ht0 : t ≠ .empty) (hu0 : u ≠ .empty) : Shape ok (fork a t b u) (m + 1) := by
  have hone : ∀ d, Shape ok (update (fun _ => Trie.empty) a t d) m :=
    (forall_update_iff _ fun _ => (Shape ok · m)).mpr ⟨ht, fun _ _ => trivial⟩
  refine ⟨⟨a, b, hab, ?_, ?_⟩, m, rfl,
    (forall_update_iff _ fun _ => (Shape ok · m)).mpr ⟨hu, fun d _ => hone d⟩⟩
  · rw [update_of_ne hab, update_self]
    exact ht0
  · rw [update_self]
    exact hu0

/-- A new leaf beside an old subtree. -/
lemma Shape.split {key k : List D} {n : ℕ} (hk : ¬ k <+: key) (hl : k.length ≤ key.length)
    (hn : key.length = n) {v : V} (hv : ok v) {old : List D → Trie D V}
    (hold : ∀ p b bs, k = p ++ b :: bs → Shape ok (old bs) (n - p.length - 1) ∧ old bs ≠ .empty) :
    Shape ok (split key v k old) n ∧ split key v k old ≠ .empty := by
  obtain ⟨p, a, as, b, bs, rfl, rfl, hab⟩ := exists_parting hk hl
  obtain ⟨hso, hne⟩ := hold p b bs rfl
  rw [length_append, length_cons] at hn
  have hm : n - p.length - 1 = as.length := by omega
  rw [hm] at hso
  rw [split_eq hab]
  have hf := fork hab.symm hso (u := .leaf as v) ⟨rfl, hv⟩ hne (by simp)
  refine ⟨?_, extend_ne_empty (by simp [RadixTrie.fork])⟩
  have := hf.extend p (t := RadixTrie.fork b (old bs) a (.leaf as v)) trivial
  rwa [show p.length + (as.length + 1) = n by omega] at this

/-- **Insertion keeps the shape.** -/
lemma Shape.insert {v : V} (hv : ok v) : ∀ {t : Trie D V} {n : ℕ} {key : List D}, Shape ok t n →
    key.length = n → Shape ok (insert t key v) n ∧ RadixTrie.insert t key v ≠ .empty
  | .empty, _, key, _, hn => ⟨⟨hn, hv⟩, by simp [RadixTrie.insert]⟩
  | .leaf k w, n, key, hs, hn => by
    obtain ⟨hk, hw⟩ := hs
    rw [RadixTrie.insert]
    split_ifs with hkk
    · exact ⟨⟨hn, hv⟩, by simp⟩
    · have hl : k.length = key.length := hk.trans hn.symm
      refine split (not_prefix_of_ne hl hkk) hl.le hn hv fun p b bs hp => ⟨⟨?_, hw⟩, by simp⟩
      have := congrArg List.length hp
      rw [length_append, length_cons] at this
      omega
  | .ext k t, n, key, hs, hn => by
    obtain ⟨hk0, ht, m, rfl, hst⟩ := hs
    rw [RadixTrie.insert]
    split_ifs with hk
    · obtain ⟨r, rfl⟩ := hk
      rw [length_append, add_left_cancel_iff] at hn
      obtain ⟨ih, -⟩ := insert hv hst hn
      rw [drop_left]
      refine ⟨⟨hk0, ?_, m, rfl, ih⟩, by simp⟩
      -- A branch stays a branch.
      obtain ⟨cs, rfl⟩ := ht.exists
      cases r <;> trivial
    · refine split hk (by omega) hn hv fun p b bs hp => ?_
      refine ⟨?_, extend_ne_empty (by rintro rfl; exact ht)⟩
      have := congrArg List.length hp
      rw [length_append, length_cons] at this
      have hsh := hst.extend bs ht
      rwa [show bs.length + m = k.length + m - p.length - 1 by omega] at hsh
  | .branch cs, n, [], hs, hn => by
    obtain ⟨-, m, rfl, -⟩ := hs
    simp at hn
  | .branch cs, n, d :: rest, hs, hn => by
    obtain ⟨⟨a, b, hab, ha, hb⟩, m, rfl, hcs⟩ := hs
    obtain ⟨ih, hne⟩ := insert hv (hcs d) (show rest.length = m by simpa using hn)
    have hkeep : ∀ e, cs e ≠ .empty → update cs d (RadixTrie.insert (cs d) rest v) e ≠ .empty :=
      (forall_update_iff cs fun e t => cs e ≠ .empty → t ≠ .empty).mpr
        ⟨fun _ => hne, fun _ _ he => he⟩
    rw [RadixTrie.insert]
    exact ⟨⟨⟨a, b, hab, hkeep a ha, hkeep b hb⟩, m, rfl,
      (forall_update_iff cs fun _ => (Shape ok · m)).mpr ⟨ih, fun e _ => hcs e⟩⟩, by simp⟩

omit [DecidableEq D] in
/-- Digits joined to a tree that is there. -/
lemma Shape.join {k : List D} (hk : k ≠ []) (hs : Shape ok t m)
    (hne : t ≠ .empty) : Shape ok (join k t) (k.length + m) := by
  cases t with
  | empty => exact absurd rfl hne
  | leaf k' v => exact ⟨by rw [length_append, hs.1], hs.2⟩
  | ext k' t =>
    obtain ⟨-, ht, m', rfl, hst⟩ := hs
    exact ⟨by simp [hk], ht, m', by rw [length_append, add_assoc], hst⟩
  | branch cs => exact ⟨hk, trivial, m, rfl, hs⟩

omit [DecidableEq D] in
lemma join_ne_empty (k : List D) (t : Trie D V) : join k t ≠ .empty := by
  cases t <;> simp [RadixTrie.join]

/-- A branch of which at least one child is left. -/
lemma Shape.collapse {cs : D → Trie D V} (hcs : ∀ d, Shape ok (cs d) m) {e : D}
    (he : cs e ≠ .empty) : Shape ok (collapse cs) (m + 1) ∧ collapse cs ≠ .empty := by
  unfold RadixTrie.collapse
  split_ifs with h
  · refine ⟨?_, join_ne_empty _ _⟩
    have := join (k := [h.choose]) (by simp) (hcs h.choose) h.choose_spec.1
    rwa [length_singleton, add_comm] at this
  · refine ⟨⟨?_, m, rfl, hcs⟩, by simp⟩
    -- Another one is there too, or it would be the only one.
    by_contra htwo
    refine h ⟨e, he, fun e' he' => ?_⟩
    by_contra hne
    exact htwo ⟨e, e', Ne.symm hne, he, he'⟩

/-- **Removal keeps the shape**, and does not empty a branch. -/
lemma Shape.delete : ∀ {t t' : Trie D V} {n : ℕ} {key : List D}, Shape ok t n → key.length = n →
    delete t key = some t' → Shape ok t' n ∧ (t.IsBranch → t' ≠ .empty)
  | .empty, _, _, _, _, _, h => by simp [RadixTrie.delete] at h
  | .leaf k v, t', n, key, hs, hn, h => by
    rw [RadixTrie.delete] at h
    split_ifs at h
    cases h
    exact ⟨trivial, fun hb => hb.elim⟩
  | .ext k t, t', n, key, hs, hn, h => by
    obtain ⟨hk0, ht, m, rfl, hst⟩ := hs
    rw [RadixTrie.delete] at h
    split_ifs at h with hk
    obtain ⟨r, rfl⟩ := hk
    rw [length_append, add_left_cancel_iff] at hn
    rw [drop_left] at h
    obtain ⟨u, hu, rfl⟩ := map_eq_some_iff.mp h
    obtain ⟨ih, hne⟩ := delete hst hn hu
    exact ⟨join hk0 ih (hne ht), fun hb => hb.elim⟩
  | .branch cs, t', n, [], hs, hn, h => by simp [RadixTrie.delete] at h
  | .branch cs, t', n, d :: rest, hs, hn, h => by
    obtain ⟨⟨a, b, hab, ha, hb⟩, m, rfl, hcs⟩ := hs
    rw [RadixTrie.delete] at h
    obtain ⟨u, hu, rfl⟩ := map_eq_some_iff.mp h
    obtain ⟨ih, -⟩ := delete (hcs d) (show rest.length = m by simpa using hn) hu
    have hall : ∀ e, Shape ok (update cs d u e) m :=
      (forall_update_iff cs fun _ => (Shape ok · m)).mpr ⟨ih, fun e _ => hcs e⟩
    -- Of two children at most one has changed.
    obtain ⟨e, hed, he⟩ : ∃ e, e ≠ d ∧ cs e ≠ .empty := by
      by_cases had : a = d
      · exact ⟨b, fun hbd => hab (had.trans hbd.symm), hb⟩
      · exact ⟨a, had, ha⟩
    have he' : update cs d u e ≠ .empty := by rwa [update_of_ne hed]
    obtain ⟨h1, h2⟩ := collapse hall he'
    exact ⟨h1, fun _ => h2⟩

end Shapes

end RadixTrie
