import Mathlib.Data.List.Basic
import Mathlib.Tactic

/-!
# Reading back what was written

A stream format is a writer, which is a function to lists of bytes, and a reader, which takes some
bytes off the front of a list.  The one property a format has to have is that its reader takes off
exactly what its writer put there and leaves whatever follows.
-/

namespace Codec

variable {α β : Type}

/-- A reader; `none` is the failure of the stream. -/
abbrev Reader := StateT (List UInt8) Option

/-- The reader takes `bs` off the front and returns the value. -/
def Reads (r : Reader α) (bs : List UInt8) (a : α) : Prop := ∀ rest, r (bs ++ rest) = some (a, rest)

variable {r : Reader α} {bs : List UInt8} {a : α} {P : α → Prop}

lemma Reads.pure (a : α) : Reads (Pure.pure a) [] a := fun _ => rfl

variable {f : α → Reader β}

/-- Formats are composed as their readers are. -/
lemma Reads.bind {cs : List UInt8} {b : β} (hr : Reads r bs a)
    (hf : Reads (f a) cs b) : Reads (r >>= f) (bs ++ cs) b := by
  intro rest
  change (r (bs ++ cs ++ rest)).bind (fun p => f p.1 p.2) = _
  rw [List.append_assoc, hr]
  exact hf rest

/-- A format at the end of a sequence. -/
lemma Reads.map (f : α → β) (hr : Reads r bs a) : Reads (f <$> r) bs (f a) := by
  intro rest
  change (r (bs ++ rest)).bind (fun p => some (f p.1, p.2)) = _
  rw [hr]
  rfl

/-- A part that is there only under a condition; otherwise the reader takes a default. -/
def readIf (c : Prop) [Decidable c] (d : α) (r : Reader α) : Reader α :=
  if c then r else Pure.pure d

lemma Reads.cond {d : α} {c : Prop} [Decidable c] (hr : c → Reads r bs a) :
    Reads (readIf c d r) (if c then bs else []) (if c then a else d) := by
  unfold readIf
  split_ifs with h
  · exact hr h
  · exact Reads.pure d

/-- So many values, one after the other. -/
def readList (r : Reader α) : ℕ → Reader (List α)
  | 0 => Pure.pure []
  | n + 1 => r >>= fun a => List.cons a <$> readList r n

/-- A list, after its length. -/
lemma Reads.list {w : α → List UInt8} {l : List α} (h : ∀ a ∈ l, Reads r (w a) a) :
    Reads (readList r l.length) (l.flatMap w) l := by
  induction l with
  | nil => exact Reads.pure []
  | cons a l ih =>
    rw [List.forall_mem_cons] at h
    exact h.1.bind ((ih h.2).map _)

/-- What a reader returns satisfies a property. -/
def Returns (r : Reader α) (P : α → Prop) : Prop := ∀ bs a rest, r bs = some (a, rest) → P a

lemma Returns.pure (h : P a) : Returns (Pure.pure a) P := by
  intro bs b rest hb
  obtain ⟨rfl, _⟩ := Prod.mk.inj (Option.some.inj hb)
  exact h

variable {Q : β → Prop}

lemma Returns.bind (hr : Returns r P) (hf : ∀ a, P a → Returns (f a) Q) : Returns (r >>= f) Q := by
  intro bs b rest h
  obtain ⟨⟨a, cs⟩, ha, hb⟩ := Option.bind_eq_some_iff.mp
    (show (r bs).bind (fun p => f p.1 p.2) = some (b, rest) from h)
  exact hf a (hr bs a cs ha) cs b rest hb

lemma Returns.map {f : α → β} (hr : Returns r P) (hf : ∀ a, P a → Q (f a)) :
    Returns (f <$> r) Q := by
  intro bs b rest h
  obtain ⟨⟨a, cs⟩, ha, hb⟩ := Option.bind_eq_some_iff.mp
    (show (r bs).bind (fun p => some (f p.1, p.2)) = some (b, rest) from h)
  obtain ⟨rfl, _⟩ := Prod.mk.inj (Option.some.inj hb)
  exact hf a (hr bs a cs ha)

lemma Returns.cond {d : α} {c : Prop} [Decidable c] (hr : Returns r P) (hd : P d) :
    Returns (readIf c d r) P := by
  unfold readIf
  split_ifs
  · exact hr
  · exact Returns.pure hd

/-- Every reader returns something. -/
lemma Returns.trivial (r : Reader α) : Returns r fun _ => True := fun _ _ _ _ => True.intro

/-! ## Fixed width -/

/-- A number in `k` bytes, the lowest first. -/
def writeLE : ℕ → ℕ → List UInt8
  | 0, _ => []
  | k + 1, n => UInt8.ofNat (n % 256) :: writeLE k (n / 256)

/-- The number that bytes stand for, the lowest first. -/
def readLE : List UInt8 → ℕ
  | [] => 0
  | b :: bs => b.toNat + 256 * readLE bs

/-- A number that fits is read back. -/
lemma readLE_writeLE : ∀ (k n : ℕ), n < 256 ^ k → readLE (writeLE k n) = n
  | 0, n, h => by
    have : n = 0 := by simpa using h
    subst this
    rfl
  | k + 1, n, h => by
    have hk : n / 256 < 256 ^ k := Nat.div_lt_of_lt_mul (pow_succ' 256 k ▸ h)
    simp only [writeLE, readLE, readLE_writeLE k (n / 256) hk, UInt8.toNat_ofNat']
    omega

@[simp] lemma writeLE_length : ∀ k n : ℕ, (writeLE k n).length = k
  | 0, _ => rfl
  | k + 1, n => by rw [writeLE, List.length_cons, writeLE_length k]

/-- Bytes are written back. -/
lemma writeLE_readLE : ∀ b : List UInt8, writeLE b.length (readLE b) = b
  | [] => rfl
  | x :: b => by
    have hx := x.toNat_lt
    have hmod : (x.toNat + 256 * readLE b) % 256 = x.toNat := by omega
    have hdiv : (x.toNat + 256 * readLE b) / 256 = readLE b := by omega
    rw [List.length_cons, writeLE, readLE, hmod, hdiv, writeLE_readLE b, UInt8.ofNat_toNat]

lemma readLE_lt : ∀ b : List UInt8, readLE b < 256 ^ b.length
  | [] => by decide
  | b :: bs => by
    have hb := b.toNat_lt
    have := readLE_lt bs
    rw [readLE, List.length_cons, pow_succ]
    omega

lemma readLE_append : ∀ a b : List UInt8, readLE (a ++ b) = readLE a + 256 ^ a.length * readLE b
  | [], b => by simp [readLE]
  | x :: a, b => by
    simp only [List.cons_append, readLE, readLE_append a b, List.length_cons, pow_succ]
    ring

/-- `k` bytes taken off as a number. -/
def takeLE (k : ℕ) : Reader ℕ := fun bs =>
  if bs.length < k then none else some (readLE (bs.take k), bs.drop k)

/-- **Numbers of fixed width are read back**, the lowest byte first. -/
lemma reads_le {k n : ℕ} (h : n < 256 ^ k) : Reads (takeLE k) (writeLE k n) n := by
  intro rest
  rw [takeLE, if_neg (by simp), List.take_left' (writeLE_length k n),
    List.drop_left' (writeLE_length k n), readLE_writeLE k n h]

end Codec
