import Ybtc.Evm.ViewCommit
import Ybtc.Core.Simulation

/-!
# Rollback

The change log undoes what was done since a savepoint.  This holds whatever was read in between and
whatever was dropped from the cache, with one exception: new code is written to the entry of the
cache, which is not loaded if it is not there and not kept if it is there and was not changed.  The
main result is `rollback_exact`.
-/

namespace Ybtc

open Function State View Option

open Stateful (stateAfter bind_of_ok bind_of_error)
open Simulation (endState EachStep)

/-! ## Operations between a savepoint and a rollback -/

/-- The operations that the change log undoes, and the reads. -/
inductive LogOp
  | balance (a : H160)
  | getNonce (a : H160)
  | code (a : H160)
  | codeSize (a : H160)
  | storage (a : H160) (p : U256)
  | addressInUse (a : H160)
  | addBalance (a : H160) (amount : U256)
  | subBalance (a : H160) (value : U256)
  | transferBalance (sender receiver : H160) (value : U256)
  | incNonce (a : H160)
  | setStorage (a : H160) (p w : U256)
  | createContract (a : H160)
  | setNewCode (a : H160) (c : Bytes)
deriving Repr, DecidableEq

open LogOp

section

variable (env : StateEnv)

/-- The operation, without its answer. -/
def LogOp.run : LogOp → ScM Unit
  | .balance a => do let _ ← State.balance env a
  | .getNonce a => do let _ ← State.getNonce env a
  | .code a => do let _ ← State.code env a
  | .codeSize a => do let _ ← State.codeSize env a
  | .storage a p => do let _ ← State.storage env a p
  | .addressInUse a => do let _ ← State.addressInUse env a
  | .addBalance a amount => State.addBalance env a amount
  | .subBalance a value => State.subBalance env a value
  | .transferBalance sender receiver value => State.transferBalance env sender receiver value
  | .incNonce a => State.incNonce env a
  | .setStorage a p w => State.setStorage env a p w
  | .createContract a => State.createContract env a
  | .setNewCode a c => State.setNewCode env a c

/-- The answer of a read, if there is one. -/
def answer {α : Type} (x : ScM α) (s : State) : Option α :=
  match x s with
  | .ok v _ => some v
  | .error _ _ => none

/-- Storage is written where there is an account, contracts are made where there is none, and new
    code is given to accounts without code. -/
def LogOp.Legal (s : State) : LogOp → Prop
  | .setStorage a _ _ => answer (State.addressInUse env a) s = some true
  | .createContract a => answer (State.addressInUse env a) s = some false
  | .setNewCode a _ => answer (State.addressInUse env a) s = some true ∧
      answer (State.code env a) s = some []
  | _ => True

/-- The account was changed. -/
def Changed (s : State) (a : H160) : Prop := (s.cache.lookup a).any Account.isDirty = true

instance (s : State) (a : H160) : Decidable (Changed s a) := inferInstanceAs (Decidable (_ = true))

/-- **New code is given to accounts that were changed.**  Its hash is not the hash of no code. -/
def LogOp.Safe (s : State) : LogOp → Prop
  | .setNewCode a c => Changed s a ∧ (env.sha3 c = emptySHA3 env.sha3 → c = [])
  | _ => True

end

/-! ## Maps that are alike -/

/-- **The same account.**  It may have been marked as changed, and new code may be gone. -/
structure View.Like (v u : View) : Prop where
  alive : u.alive = v.alive
  nonce : u.nonce = v.nonce
  balance : u.balance = v.balance
  code : u.code = v.code
  base : u.base = v.base
  words : u.words = v.words
  dirty : v.dirty = true → u.dirty = true
  newCode : u.newCode = true → v.newCode = true

/-- The same accounts. -/
def LikeMap (V U : H160 → Option View) : Prop := ∀ a, Rel View.Like (V a) (U a)

variable {env : StateEnv} {s s₁ s' t : State} {a : H160} {acc : Account} {v u : View}
  {world : Uint256 → Option Content} {V V' U : H160 → Option View} {notes : List Change}

lemma View.Like.refl (v : View) : v.Like v := ⟨rfl, rfl, rfl, rfl, rfl, rfl, id, id⟩

lemma View.Like.eq (h : v.Like u) (hd : u.dirty = v.dirty) (hn : u.newCode = v.newCode) :
    u = v := by
  cases v
  cases u
  rw [mk.injEq]
  exact ⟨h.alive, hd, hn, h.nonce, h.balance, h.code, h.base, h.words⟩

lemma LikeMap.refl (V : H160 → Option View) : LikeMap V V := by
  intro a
  cases V a with
  | none => exact .none
  | some v => exact .some (.refl v)

lemma LikeMap.some (h : LikeMap V U) (hv : V a = some v) : ∃ u, U a = some u ∧ v.Like u := by
  have ha := h a
  rw [hv] at ha
  cases hu : U a with
  | none =>
    rw [hu] at ha
    cases ha
  | some u =>
    rw [hu] at ha
    cases ha with
    | some hl => exact ⟨u, rfl, hl⟩

/-- Maps that are alike but for one address, at which both are replaced. -/
lemma LikeMap.update {o o' : Option View} (h : LikeMap (update V a o) U) {o0 : Option View}
    (hV : V a = o0) (hl : Rel View.Like o0 o') : LikeMap V (update U a o') := by
  intro b
  by_cases hb : b = a
  · subst hb
    rw [update_self, hV]
    exact hl
  · have hb' := h b
    rw [update_of_ne hb] at hb' ⊢
    exact hb'

/-! ## Undoing one note -/

section Undo

variable (env) in
/-- **Undoing the notes leads from the second map back to the first**, from every state that shows
    the second one. -/
def Undoes (world : Uint256 → Option Content) (V V' : H160 → Option View)
    (notes : List Change) : Prop :=
  ∀ t U, Coherent env t world U → LikeMap V' U →
    ∃ U', Coherent env (notes.foldl (undo env) t) world U' ∧ LikeMap V U'

lemma Undoes.nil (V : H160 → Option View) : Undoes env world V V [] := fun _ U hc hl => ⟨U, hc, hl⟩

/-- The newest notes are undone first. -/
lemma Undoes.trans {V'' : H160 → Option View} {notes' : List Change}
    (h1 : Undoes env world V V' notes) (h2 : Undoes env world V' V'' notes') :
    Undoes env world V V'' (notes' ++ notes) := by
  intro t U hc hl
  obtain ⟨U1, hc1, hl1⟩ := h2 t U hc hl
  rw [List.foldl_append]
  exact h1 _ U1 hc1 hl1

section

variable (h : Coherent env t world U)

include h

section

variable (hu : U a = some u) (hd : u.dirty = true)

include hu hd

/-- An operation on the entry of the cache of an account that was changed. -/
lemma Coherent.modify {f : Account → Account} {u' : View}
    (hf : ∀ acc, Shows env t.db acc u → Shows env t.db (f acc) u')
    (hdf : ∀ acc, acc.isDirty = true → (f acc).isDirty = true)
    (haf : ∀ acc, (f acc).isAlive = acc.isAlive) :
    Coherent env (t.setCache a (f (cacheAt env t a))) world (update U a (some u')) := by
  obtain ⟨acc, hl, hsh⟩ := h.cached_of_dirty hu hd
  have hat : cacheAt env t a = acc := by rw [cacheAt, hl]; rfl
  rw [hat]
  exact h.replace hl (hf acc hsh) (hdf acc (hsh.dirty.symm.trans hd)) (haf acc)

lemma undo_nonce : Coherent env (undo env t (.nonce a)) world
      (update U a (some (u.setNonce (u.nonce - 1)))) :=
  h.modify (f := fun acc => acc.setNonce (acc.nonce - 1)) hu hd
    (fun _ hsh => hsh.nonce ▸ hsh.setNonce _) (fun _ _ => rfl) fun _ => rfl

end

/-- An account that was made is gone. -/
lemma undo_create (a : H160) : Coherent env (undo env t (.create a)) world
      (update U a ((world (addressHash env a)).map (stored env))) := by
  have herase : ∀ {b acc}, (t.cache.erase a).lookup b = some acc → t.cache.lookup b = some acc := by
    intro b acc hb
    by_cases hba : b = a
    · subst hba
      cases (AList.lookup_erase _ _).symm.trans hb
    · rwa [AList.lookup_erase_ne hba] at hb
  refine h.change { h.toSound with
    cache := fun hl => h.cache (herase hl)
    dead := fun hn hl => h.dead hn (herase hl) } rfl (fun b hb => AList.lookup_erase_ne hb) ?_
  exact Or.inl ⟨AList.lookup_erase _ _, rfl⟩

/-- An account that was only touched is as it is in the trie. -/
lemma undo_touch (hu : U a = some u) (hd : u.dirty = true)
    (hw : some { u with dirty := false } = (world (addressHash env a)).map (stored env)) :
    Coherent env (undo env t (.touch a)) world (update U a (some { u with dirty := false })) := by
  obtain ⟨acc, hl, hsh⟩ := h.cached_of_dirty hu hd
  have hat : cacheAt env t a = acc := by rw [cacheAt, hl]; rfl
  have hsh' : Shows env t.db acc.untouch { u with dirty := false } :=
    ⟨hsh.alive, rfl, hsh.newCode, hsh.nonce, hsh.balance, hsh.code, hsh.fresh,
      hsh.root_ne, hsh.base,
      hsh.words⟩
  have hs : Sound env (t.setCache a acc.untouch) world := h.toSound.replace hl hsh'.backed rfl
  rw [undo, hat]
  refine h.change (hs.congr rfl rfl rfl rfl hs.sizes) rfl (fun b hb => AList.lookup_insert_ne hb) ?_
  exact Or.inr ⟨_, _, AList.lookup_insert _, rfl, hsh', fun _ => hw⟩

end

/-- Undoing leaves everything but the accounts alone. -/
lemma foldl_undo_frame : ∀ (notes : List Change) (t : State), Frame [] t (notes.foldl (undo env) t)
  | [], t => ⟨rfl, rfl, rfl, rfl, rfl⟩
  | c :: notes, t => by
    have hc : Frame [] t (undo env t c) := by cases c <;> exact ⟨rfl, rfl, rfl, rfl, rfl⟩
    exact hc.trans (foldl_undo_frame notes _)

end Undo

/-! ## Every operation is undone -/

section Undoes

/-- An account that was not changed is as it is in the trie, and so is no account. -/
lemma Coherent.stored_of_clean (h : Coherent env s world V)
    (hd : ∀ v, V a = some v → v.dirty = false) :
    V a = (world (addressHash env a)).map (stored env) := by
  rcases h.held a with ⟨-, ho⟩ | ⟨acc, v, -, ho, hsh, hc⟩
  · exact ho
  · exact hc (hsh.dirty.symm.trans (hd v ho))

lemma undoes_create (h : Coherent env s world V) (hv : V a = none) (v : View) :
    Undoes env world V (update V a (some v)) [.create a] := by
  intro t U hc hl
  refine ⟨_, undo_create hc a, hl.update hv ?_⟩
  rw [← h.stored_of_clean (fun v hv' => by cases hv.symm.trans hv'), hv]
  exact .none

lemma undoes_balance (hv : V a = some v) (amount : U256) :
    Undoes env world V (update V a (some (v.addBalance amount))) (balanceNotes a amount) := by
  intro t U hc hl
  obtain ⟨u, hu, hlike⟩ := hl.some (update_self ..)
  unfold balanceNotes
  split_ifs with ha
  · refine ⟨U, hc, ?_⟩
    have hbal : u.balance = v.balance := by
      rw [hlike.balance, View.addBalance, ha]
      exact BitVec.add_zero _
    have hlike' : v.Like u := ⟨hlike.alive, hlike.nonce, hbal, hlike.code, hlike.base, hlike.words,
      fun _ => hlike.dirty rfl, hlike.newCode⟩
    rw [← update_eq_self a U]
    exact hl.update hv (hu ▸ .some hlike')
  · refine ⟨_, hc.modify hu (hlike.dirty rfl) (fun _ hsh => hsh.addBalance (0 - amount))
      (fun _ _ => rfl) fun _ => rfl, hl.update hv (.some ?_)⟩
    refine ⟨hlike.alive, hlike.nonce, ?_, hlike.code, hlike.base, hlike.words, fun _ => rfl,
      hlike.newCode⟩
    rw [View.addBalance, hlike.balance]
    change v.balance + amount + (0 - amount) = v.balance; bv_omega

lemma undoes_touch (h : Coherent env s world V) (hv : V a = some v) (hd : v.dirty = false) :
    Undoes env world V (update V a (some { v with dirty := true })) [.touch a] := by
  intro t U hc hl
  obtain ⟨u, hu, hlike⟩ := hl.some (update_self ..)
  have hw := h.stored_of_clean fun v' hv' => by cases hv.symm.trans hv'; exact hd
  obtain ⟨c, -, hst⟩ := map_eq_some_iff.mp (hw.symm.trans hv)
  have hnew : v.newCode = false := by rw [← hst]; rfl
  have hunew : u.newCode = false := by
    by_contra hne
    rw [Bool.not_eq_false] at hne
    exact Bool.false_ne_true (hnew.symm.trans (hlike.newCode hne))
  have hlike' : v.Like { u with dirty := false } :=
    ⟨hlike.alive, hlike.nonce, hlike.balance, hlike.code, hlike.base, hlike.words,
      fun h => (Bool.false_ne_true (hd.symm.trans h)).elim, hlike.newCode⟩
  have heq : { u with dirty := false } = v := hlike'.eq hd.symm (hunew.trans hnew.symm)
  refine ⟨_, undo_touch hc hu (hlike.dirty rfl) (by rw [heq, ← hv, hw]), hl.update hv ?_⟩
  rw [heq]
  exact .some (.refl v)

lemma undoes_credit (h : Coherent env s world V) (start amount : U256) :
    Undoes env world V (update V a (some (credit start amount (V a))))
      (balanceNotes a amount ++ creditNotes a (V a)) := by
  cases hv : V a with
  | none =>
    have h1 := undoes_create h hv (View.created start 0)
    have h2 : Undoes env world _ _ _ := undoes_balance
      (update_self a (some (View.created start 0)) V) amount
    have heq : (View.created start 0).addBalance amount = View.created start amount := by
      simp [View.created, View.addBalance]
    rw [update_idem, heq] at h2
    exact h1.trans h2
  | some v =>
    by_cases ht : v.dirty = false ∧ v.isEmpty
    · have hnotes : creditNotes a (some v) = [.touch a] := if_pos ht
      have h1 := undoes_touch h hv ht.1
      have h2 : Undoes env world _ _ _ := undoes_balance
        (update_self a (some { v with dirty := true }) V) amount
      rw [update_idem] at h2
      rw [hnotes]
      exact h1.trans h2
    · have hnotes : creditNotes a (some v) = [] := if_neg ht
      rw [hnotes, List.append_nil]
      exact undoes_balance hv amount

lemma undoes_bump (h : Coherent env s world V) (start : U256) :
    Undoes env world V (update V a (some (bump start (V a)))) (bumpNotes a (V a)) := by
  cases hv : V a with
  | none => exact undoes_create h hv _
  | some v =>
    intro t U hc hl
    obtain ⟨u, hu, hlike⟩ := hl.some (update_self ..)
    refine ⟨_, undo_nonce hc hu (hlike.dirty rfl), hl.update hv (.some ?_)⟩
    refine ⟨hlike.alive, ?_, hlike.balance, hlike.code, hlike.base, hlike.words, fun _ => rfl,
      hlike.newCode⟩
    rw [setNonce, hlike.nonce, bump, setNonce, BitVec.add_sub_cancel]

lemma undoes_setStorage (hv : V a = some v) (p w : U256) :
    Undoes env world V (update V a (some (v.setStorage p w))) [.storage a p (v.words p)] := by
  intro t U hc hl
  obtain ⟨u, hu, hlike⟩ := hl.some (update_self ..)
  refine ⟨_, hc.modify hu (hlike.dirty rfl) (fun _ hsh => hsh.setStorage p (v.words p))
    (fun _ _ => rfl) fun _ => rfl, hl.update hv (.some ?_)⟩
  refine ⟨hlike.alive, hlike.nonce, hlike.balance, hlike.code, hlike.base, ?_, fun _ => rfl,
    hlike.newCode⟩
  rw [View.setStorage, hlike.words, View.setStorage, update_idem, update_eq_self]

lemma undoes_setNewCode (hv : V a = some v) (hd : v.dirty = true) (hcode : v.code = [])
    (c : Bytes) : Undoes env world V (update V a (some (v.setNewCode c))) [.newCode a] := by
  intro t U hc hl
  obtain ⟨u, hu, hlike⟩ := hl.some (update_self ..)
  have hud : u.dirty = true := hlike.dirty hd
  refine ⟨_, hc.modify hu hud (fun _ hsh => hsh.resetCode) (fun _ hd => hd) fun _ => rfl,
    hl.update hv (.some ?_)⟩
  exact ⟨hlike.alive, hlike.nonce, hlike.balance, hcode.symm, hlike.base, hlike.words, fun _ => hud,
    fun hf => (Bool.false_ne_true hf).elim⟩

lemma undoes_debit (h : Coherent env s world V) {value : U256} (hp : CanPay V a value) :
    Undoes env world V (debited V a value) (debitNotes V a value) := by
  unfold debited debitNotes
  split_ifs with hv
  · exact .nil V
  · obtain ⟨v, hva, -⟩ := hp.resolve_left hv
    have hu := undoes_credit h (a := a) 0 (0 - value)
    rw [hva] at hu ⊢
    exact hu

end Undoes

/-! ## Operations -/

section Operations

lemma Changed.cached (h : Changed s a) :
    ∃ acc, s.cache.lookup a = some acc ∧ acc.isDirty = true := by
  unfold Changed at h
  cases hl : s.cache.lookup a with
  | none =>
    rw [hl] at h
    cases h
  | some acc =>
    rw [hl] at h
    exact ⟨acc, rfl, h⟩

/-- The operation has changed the map, and its notes lead back. -/
def Undone (env : StateEnv) (world : Uint256 → Option Content) (V : H160 → Option View)
    (s s' : State) : Prop :=
  ∃ V' notes, Becomes env world s s' V' notes ∧ Undoes env world V V' notes

lemma Undone.same (h : Becomes env world s s' V []) : Undone env world V s s' := ⟨V, [], h, .nil V⟩

/-- A read, without its answer. -/
lemma Undone.read {α : Type} {x : ScM α} {w : α}
    (hx : ∃ s', x s = .ok w s' ∧ Becomes env world s s' V []) :
    Undone env world V s (stateAfter ((do let _ ← x) s : EStateM.Result Fault State Unit)) := by
  obtain ⟨s', hx, hb⟩ := hx
  have hr : (do let _ ← x) s = (.ok () s' : EStateM.Result Fault State Unit) := bind_of_ok hx
  rw [hr]
  exact .same hb

lemma Undone.ok {x : ScM Unit} (hx : ∃ s', x s = .ok () s' ∧ Becomes env world s s' V' notes)
    (hu : Undoes env world V V' notes) : Undone env world V s (stateAfter (x s)) := by
  obtain ⟨s', hx, hb⟩ := hx
  rw [hx]
  exact ⟨V', notes, hb, hu⟩

lemma Undone.error {x : ScM Unit} {f : Fault}
    (hx : ∃ s', x s = .error f s' ∧ Becomes env world s s' V []) :
    Undone env world V s (stateAfter (x s)) := by
  obtain ⟨s', hx, hb⟩ := hx
  rw [hx]
  exact .same hb

lemma answer_of_ok {α : Type} {x : ScM α} {w : α} (hx : x s = .ok w s') : answer x s = some w := by
  rw [answer, hx]

lemma addBalance_undone (h : Coherent env s world V) (a : H160) (amount : U256) :
    Undone env world V s (stateAfter (addBalance env a amount s)) := by
  by_cases hn : s.accountStartNonce ≠ invalid256 ∨ V a ≠ none
  · exact .ok (addBalance_view h hn amount) (undoes_credit h _ _)
  · rw [not_or, not_not, not_not] at hn
    exact .error (addBalance_view_error h hn.1 hn.2 amount)

lemma incNonce_undone (h : Coherent env s world V) (a : H160) :
    Undone env world V s (stateAfter (incNonce env a s)) := by
  by_cases hn : s.accountStartNonce ≠ invalid256 ∨ V a ≠ none
  · exact .ok (incNonce_view h hn) (undoes_bump h _)
  · rw [not_or, not_not, not_not] at hn
    exact .error (incNonce_view_error h hn.1 hn.2)

lemma subBalance_undone (h : Coherent env s world V) (a : H160) (value : U256) :
    Undone env world V s (stateAfter (subBalance env a value s)) := by
  by_cases hp : CanPay V a value
  · exact .ok (subBalance_view h hp) (undoes_debit h hp)
  · exact .error (subBalance_view_error h hp)

lemma Undone.trans (h1 : Becomes env world s s₁ V' notes) (hu : Undoes env world V V' notes)
    (h2 : Undone env world V' s₁ s') : Undone env world V s s' := by
  obtain ⟨V'', notes', hb, hu'⟩ := h2
  exact ⟨V'', _, h1.trans hb, hu.trans hu'⟩

lemma transferBalance_undone (h : Coherent env s world V) (a b : H160) (value : U256) :
    Undone env world V s (stateAfter (transferBalance env a b value s)) := by
  by_cases hp : CanPay V a value
  · obtain ⟨s₁, hx, hb⟩ := subBalance_view h hp
    have hx' : transferBalance env a b value s = addBalance env b value s₁ := bind_of_ok hx
    rw [hx']
    exact .trans hb (undoes_debit h hp) (addBalance_undone hb.coherent b value)
  · obtain ⟨s', hx, hb⟩ := subBalance_view_error h hp
    exact .error ⟨s', bind_of_error hx, hb⟩

/-- **Every operation is undone by its notes.** -/
lemma LogOp.undoes (h : Coherent env s world V) (op : LogOp) (hl : op.Legal env s)
    (hsafe : op.Safe env s) : Undone env world V s (stateAfter (op.run env s)) := by
  cases op with
  | balance a => exact .read (balance_view h a)
  | getNonce a => exact .read (getNonce_view h a)
  | code a => exact .read (code_view h a)
  | codeSize a => obtain ⟨n, s', hx, hb, -⟩ := codeSize_view h a; exact .read ⟨s', hx, hb⟩
  | storage a p => exact .read (storage_view h a p)
  | addressInUse a => exact .read (addressInUse_view h a)
  | addBalance a amount => exact addBalance_undone h a amount
  | subBalance a value => exact subBalance_undone h a value
  | transferBalance a b value => exact transferBalance_undone h a b value
  | incNonce a => exact incNonce_undone h a
  | setStorage a p w =>
    obtain ⟨s₁, hin, -⟩ := addressInUse_view h a
    obtain ⟨v, hv⟩ := isSome_iff_exists.mp (some.inj ((answer_of_ok hin).symm.trans hl))
    exact .ok (setStorage_view h hv p w) (undoes_setStorage hv p w)
  | createContract a =>
    obtain ⟨s₁, hin, -⟩ := addressInUse_view h a
    have hv : V a = none := by
      rw [← not_isSome_iff_eq_none, Bool.not_eq_true]
      exact some.inj ((answer_of_ok hin).symm.trans hl)
    by_cases hn : s.accountStartNonce = invalid256
    · have hx : State.createContract env a s =
          .error (rangeError "Invalid Account Start Nonce State") s :=
        bind_of_error (requireAccountStartNonce_error hn)
      exact .error ⟨s, hx, .refl h⟩
    · exact .ok (createContract_view h hv hn) (undoes_create h hv _)
  | setNewCode a c =>
    obtain ⟨hch, hc⟩ := hsafe
    obtain ⟨acc, hacc, hd⟩ := hch.cached
    obtain ⟨v, hv, hsh⟩ := h.shown hacc
    have hd' : v.dirty = true := hsh.dirty.trans hd
    obtain ⟨s₁, hcode, -⟩ := code_view h a
    have hnil : v.code = [] := by
      have := some.inj ((answer_of_ok hcode).symm.trans hl.2)
      rwa [hv] at this
    exact .ok (setNewCode_view h hv hd' hc) (undoes_setNewCode hv hd' hnil c)

/-- **So is a sequence of operations.** -/
lemma endState_undone {ops : List LogOp} : ∀ {s : State} {V : H160 → Option View},
    Coherent env s world V → EachStep (run env) (LogOp.Legal env) ops s →
      EachStep (run env) (LogOp.Safe env) ops s →
      Undone env world V s (endState (run env) ops s) := by
  induction ops with
  | nil => exact fun h _ _ => .same (.refl h)
  | cons op ops ih =>
    intro s V h hl hs
    obtain ⟨V1, notes, hb, hu⟩ := op.undoes h hl.1 hs.1
    exact .trans hb hu (ih hb.coherent hl.2 hs.2)

end Operations

/-! ## Rollback -/

section Rollback

/-- The loop undoes the notes that were made since the savepoint. -/
lemma rollbackFrom_append (log : List Change) : ∀ (notes : List Change) (t : State),
    rollbackFrom env log.length (notes ++ log) t =
      .ok () { notes.foldl (undo env) t with changeLog := log }
  | [], t => by
    cases log with
    | nil => rfl
    | cons c rest => exact if_pos rfl
  | c :: notes, t => by
    have hne : log.length ≠ (notes ++ log).length + 1 := by
      rw [List.length_append]
      omega
    exact (if_neg hne).trans (rollbackFrom_append log notes _)

lemma Coherent.withLog (h : Coherent env s world V) (log : List Change) :
    Coherent env { s with changeLog := log } world V :=
  ⟨h.toSound.congr rfl rfl rfl rfl h.sizes, h.shown, h.rest, h.clean⟩

/-- **`rollback` leads back to the map at the savepoint.** -/
lemma Undone.rollback (h : Undone env world V s s₁) : ∃ s' U,
    State.rollback env s.changeLog.length s₁ = .ok () s' ∧ Coherent env s' world U ∧ LikeMap V U ∧
      Frame [] s s' := by
  obtain ⟨V', notes, hb, hu⟩ := h
  obtain ⟨U, hc, hl⟩ := hu s₁ V' hb.coherent (.refl V')
  refine ⟨_, U, ?_, hc.withLog s.changeLog, hl, ?_⟩
  · rw [State.rollback, hb.log]
    exact rollbackFrom_append s.changeLog notes s₁
  · have hf : Frame [] s₁ (notes.foldl (State.undo env) s₁) := foldl_undo_frame notes s₁
    exact ⟨hf.db.trans hb.db, hf.root.trans hb.root, hf.touched.trans hb.touched,
      hf.accountStartNonce.trans hb.accountStartNonce, rfl⟩

variable (env)

/-- The read answers, and it answers the same. -/
def SameAnswer {α : Type} (x : ScM α) (s t : State) : Prop :=
  ∃ w, answer x s = some w ∧ answer x t = some w

/-- **All reads of the account answer the same.** -/
structure SameReads (a : H160) (s t : State) : Prop where
  balance : SameAnswer (balance env a) s t
  nonce : SameAnswer (getNonce env a) s t
  code : SameAnswer (code env a) s t
  storage : ∀ p, SameAnswer (storage env a p) s t
  inUse : SameAnswer (addressInUse env a) s t

variable {env}

lemma sameAnswer {α : Type} {x : ScM α} {w w' : α}
    (hs : ∃ s', x s = .ok w s' ∧ Becomes env world s s' V [])
    (ht : ∃ t', x t = .ok w' t' ∧ Becomes env world t t' U []) (h : w' = w) : SameAnswer x s t :=
  ⟨w, answer_of_ok hs.choose_spec.1, h ▸ answer_of_ok ht.choose_spec.1⟩

lemma LikeMap.elim {β : Type} (h : LikeMap V U) (d : β) {f : View → β}
    (hf : ∀ v u : View, v.Like u → f u = f v) (a : H160) : (U a).elim d f = (V a).elim d f := by
  cases hv : V a with
  | none =>
    have ha := h a
    rw [hv] at ha
    cases hu : U a with
    | none => rfl
    | some u =>
      rw [hu] at ha
      cases ha
  | some v =>
    obtain ⟨u, hu, hl⟩ := h.some hv
    rw [hu]
    exact hf v u hl

/-- States that show the same accounts answer the same. -/
lemma LikeMap.sameReads (h : LikeMap V U) (hs : Coherent env s world V)
    (ht : Coherent env t world U) (hf : Frame notes s t) (a : H160) : SameReads env a s t where
  balance :=
    sameAnswer (balance_view hs a) (balance_view ht a) (h.elim 0 (fun _ _ hl => hl.balance) a)
  nonce := sameAnswer (getNonce_view hs a) (getNonce_view ht a) (by
    rw [hf.accountStartNonce]
    exact h.elim _ (fun _ _ hl => hl.nonce) a)
  code := sameAnswer (code_view hs a) (code_view ht a) (h.elim _ (fun _ _ hl => hl.code) a)
  storage p := sameAnswer (storage_view hs a p) (storage_view ht a p)
    (h.elim 0 (fun _ _ hl => congrFun hl.words p) a)
  inUse := by
    have hsome : ∀ o : Option View, o.isSome = o.elim false fun _ => true :=
      fun o => by cases o <;> rfl
    refine sameAnswer (addressInUse_view hs a) (addressInUse_view ht a) ?_
    rw [hsome, hsome, h.elim false fun _ _ _ => rfl]

lemma View.Like.kept {P : U256 → Prop} (h : v.Like u) : u.kept env P = v.kept env P := by
  have hstore : u.store env P = v.store env P := by
    funext k
    unfold store
    rw [h.words, h.base]
  unfold View.kept View.content
  rw [h.alive, h.nonce, h.balance, h.code, hstore]

variable (env)

/-- No two addresses and no two positions in the caches of the two states have one hash. -/
def CachesApart (s t : State) : Prop :=
  Apart env (fun a => ∃ acc, s.cache.lookup a = some acc ∨ t.cache.lookup a = some acc)
    fun p => ∃ a acc w, (s.cache.lookup a = some acc ∨ t.cache.lookup a = some acc) ∧
      acc.storageOverlay.lookup p = some w

variable {env}

/-- States that show the same accounts commit to the same root. -/
lemma LikeMap.commit_root (h : LikeMap V U) (hs : Coherent env s world V)
    (ht : Coherent env t world U) (hap : CachesApart env s t)
    (hcs : HashesApart env (stateAfter (commit env .keepEmptyAccounts s)))
    (hct : HashesApart env (stateAfter (commit env .keepEmptyAccounts t))) :
    ∃ s' t', commit env .keepEmptyAccounts s = .ok () s' ∧
      commit env .keepEmptyAccounts t = .ok () t' ∧ s'.root = t'.root := by
  obtain ⟨_, s', hxs, world', hds⟩ := commit_assuming hs.toSound .keepEmptyAccounts hcs
  obtain ⟨_, t', hxt, world'', hdt⟩ := commit_assuming ht.toSound .keepEmptyAccounts hct
  refine ⟨s', t', hxs, hxt, hds.root_eq hdt hs ht ?_ ?_ hap fun a _ => ?_⟩
  · exact ⟨fun hl => ⟨_, Or.inl hl⟩, fun hl hp => ⟨_, _, _, Or.inl hl, hp⟩⟩
  · exact ⟨fun hl => ⟨_, Or.inr hl⟩, fun hl hp => ⟨_, _, _, Or.inr hl, hp⟩⟩
  · have hbind : ∀ (o : Option View) (f : View → Option Content), o.bind f = o.elim none f :=
      fun o _ => by cases o <;> rfl
    rw [hbind, hbind]
    exact (h.elim none (fun _ _ hl => hl.kept) a).symm

/-- The state is in order. -/
def State.Valid (env : StateEnv) (s : State) : Prop := ∃ world V, Coherent env s world V

/-- **Rollback is exact**, if new code is only given to accounts that were changed. -/
theorem rollback_exact (env : StateEnv) (s : State) (hv : s.Valid env) (ops : List LogOp)
    (hl : EachStep (run env) (LogOp.Legal env) ops s)
    (hsafe : EachStep (run env) (LogOp.Safe env) ops s) :
    ∃ savepoint s₁, State.savepoint s = .ok savepoint s ∧
      State.rollback env savepoint (endState (run env) ops s) = .ok () s₁ ∧
        (∀ a, SameReads env a s s₁) ∧
        (CachesApart env s s₁ →
          HashesApart env (stateAfter (State.commit env .keepEmptyAccounts s)) →
          HashesApart env (stateAfter (commit env .keepEmptyAccounts s₁)) →
          ∃ s' s₁', commit env .keepEmptyAccounts s = .ok () s' ∧
            commit env .keepEmptyAccounts s₁ = .ok () s₁' ∧ s'.root = s₁'.root) := by
  obtain ⟨world, V, h⟩ := hv
  obtain ⟨s₁, U, hr, hc, hlike, hf⟩ := (endState_undone h hl hsafe).rollback
  exact ⟨s.changeLog.length, s₁, rfl, hr, hlike.sameReads h hc hf, hlike.commit_root h hc⟩

lemma cachesApart_of_empty (hs : s.cache.entries = []) (ht : t.cache.entries = []) :
    CachesApart env s t := by
  have hnone : ∀ {s : State} {a : H160} {acc : Account}, s.cache.entries = [] →
      s.cache.lookup a ≠ some acc := by
    intro s a acc he hl
    have := mem_entries_iff.mpr hl
    rw [he] at this
    cases this
  constructor
  · rintro a b ⟨acc, h | h⟩
    · exact absurd h (hnone hs)
    · exact absurd h (hnone ht)
  · rintro p q ⟨a, acc, w, h | h, -⟩
    · exact absurd h (hnone hs)
    · exact absurd h (hnone ht)

/-- A state with the empty trie and a hash without collisions among short records. -/
abbrev digitsEnv : StateEnv := StateEnv.inOrder digitsHash

/-- An account is made, gets code and is read. -/
def makeContract : List LogOp := [.addBalance 1 5, .setNewCode 1 [1], .storage 1 0]

theorem rollback_exact_contract : ∃ s₁,
    State.rollback digitsEnv 0 (endState (run digitsEnv) makeContract (State.fresh digitsHash))
      = .ok () s₁ ∧
      SameReads digitsEnv 1 (State.fresh digitsHash) s₁ ∧
        ∃ s' s₁', State.commit digitsEnv .keepEmptyAccounts (State.fresh digitsHash) = .ok () s' ∧
          commit digitsEnv .keepEmptyAccounts s₁ = .ok () s₁' ∧ s'.root = s₁'.root := by
  have hc : Coherent digitsEnv (fresh digitsHash) (fun _ => none) _ :=
    .of_empty (sound_fresh (by decide)) rfl
  obtain ⟨savepoint, s₁, hsp, hr, hreads, hroot⟩ := rollback_exact digitsEnv (fresh digitsHash)
    ⟨_, _, hc⟩ makeContract ⟨trivial, ⟨by decide +kernel, by decide +kernel⟩, trivial, trivial⟩
    ⟨trivial, ⟨by decide +kernel, by decide⟩, trivial, trivial⟩
  cases hsp
  refine ⟨s₁, hr, hreads 1, ?_⟩
  obtain rfl : stateAfter (State.rollback digitsEnv 0
      (endState (run digitsEnv) makeContract (fresh digitsHash))) = s₁ := congrArg stateAfter hr
  refine hroot ?_ ?_ ?_
  · exact cachesApart_of_empty rfl (by decide +kernel)
  · exact ⟨noCollision_of_all (fun _ => rfl) (by decide +kernel), by decide +kernel,
      by decide +kernel⟩
  · exact ⟨noCollision_of_all (fun _ => rfl) (by decide +kernel), by decide +kernel,
      by decide +kernel⟩

/-- A state whose trie holds one account, which is not in the cache. -/
def creditedState : State := stateAfter ((do
  addBalance digitsEnv 1 7
  commit digitsEnv .keepEmptyAccounts : ScM Unit) (fresh digitsHash))

lemma creditedState_valid : creditedState.Valid digitsEnv := by
  have hc : Coherent digitsEnv (fresh digitsHash) (fun _ => none) _ :=
    .of_empty (sound_fresh (by decide)) rfl
  obtain ⟨s₁, hx, hb⟩ := addBalance_view hc (a := 1) (Or.inl (by decide)) 7
  have hs : creditedState = stateAfter (commit digitsEnv .keepEmptyAccounts s₁) :=
    congrArg stateAfter (bind_of_ok hx)
  have hdisk : creditedState.db.disk = fun _ => [] := by
    rw [hs, (commit_grows .keepEmptyAccounts s₁).disk, hb.db]
    rfl
  have hap : HashesApart digitsEnv creditedState :=
    ⟨noCollision_of_all (fun h => congrFun hdisk h) (by decide +kernel), by decide +kernel,
      by decide +kernel⟩
  obtain ⟨_, s', hx', world', hd⟩ :=
    commit_assuming hb.coherent.toSound .keepEmptyAccounts (hs ▸ hap)
  obtain rfl : creditedState = s' := hs.trans (congrArg stateAfter hx')
  have hnone : creditedState.nonExistingAccountsCache = [] := by decide +kernel
  have haddr : AddressesApart digitsEnv creditedState := by
    intro a _ b hb
    rw [hnone] at hb
    cases hb
  exact ⟨_, _, .of_empty (hd.sound hb.coherent.toSound hap haddr) hd.cache⟩

/-- **The exception.**  The account is not in the cache, so the code is given to a new entry, which
    is there after the rollback, too, and hides the account. -/
theorem rollback_new_code : creditedState.Valid digitsEnv ∧
    EachStep (run digitsEnv) (LogOp.Legal digitsEnv) [.setNewCode 1 [1]] creditedState ∧
      State.savepoint creditedState = .ok 0 creditedState ∧
        answer (State.balance digitsEnv 1) creditedState = some 7 ∧ ∃ s₁,
          State.rollback digitsEnv 0 (endState (run digitsEnv) [.setNewCode 1 [1]] creditedState)
            = .ok () s₁ ∧
            answer (State.balance digitsEnv 1) s₁ = some 0 ∧
              (stateAfter (State.commit digitsEnv .keepEmptyAccounts s₁)).root ≠
                (stateAfter (commit digitsEnv .keepEmptyAccounts creditedState)).root :=
  ⟨creditedState_valid, ⟨⟨by decide +kernel, by decide +kernel⟩, trivial⟩,
    rfl, by decide +kernel, _, rfl,
    by decide +kernel, by decide +kernel⟩

end Rollback

end Ybtc
