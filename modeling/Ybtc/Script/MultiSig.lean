import Mathlib.Data.List.Forall2
import Ybtc.Script.SigChecks

/-!
# Matching signatures with keys

`OP_CHECKMULTISIG` walks through the keys once and gives each signature the first key that fits.
For whatever relation the signature checker is, this finds an assignment whenever there is one: a
signature that fits the present key may as well take it.  The main result is
`checkMultiSig_matches`.
-/

namespace Ybtc

open Stateful List

/-! ## Assignments -/

section Assignments

variable {α β : Type} {R : α → β → Prop} {a : α} {b : β} {l : List α} {m : List β}

lemma sublistForall₂_of_cons (h : SublistForall₂ R (a :: l) m) : SublistForall₂ R l m := by
  induction m with
  | nil => cases h
  | cons b m ih =>
    cases h with
    | cons _ h => exact h.cons_right
    | cons_right h => exact (ih h).cons_right

/-- **A pair that fits may be taken.** -/
lemma sublistForall₂_cons_of_rel (h : R a b) :
    SublistForall₂ R (a :: l) (b :: m) ↔ SublistForall₂ R l m := by
  refine ⟨fun hs => ?_, .cons h⟩
  cases hs with
  | cons _ hs => exact hs
  | cons_right hs => exact sublistForall₂_of_cons hs

lemma sublistForall₂_cons_of_not_rel (h : ¬ R a b) :
    SublistForall₂ R (a :: l) (b :: m) ↔ SublistForall₂ R (a :: l) m := by
  refine ⟨fun hs => ?_, .cons_right⟩
  cases hs with
  | cons hr _ => exact absurd hr h
  | cons_right hs => exact hs

end Assignments

/-! ## The loops -/

/-- What the checker says about a signature and a key, the signed script being what is left of
    `codeHash` without the signatures. -/
def EvalEnv.accepts (env : EvalEnv) (codeHash : Bytes) (sigs : List Bytes)
    (sig key : Bytes) : Prop :=
  env.checker.checkSig sig key (scriptCodeFor env codeHash sigs) env.sigversion = true

variable {env : EvalEnv} {s : EvalState} {keys sigs below : List Bytes}

/-- **The loop, with its early exit, decides whether all signatures can be assigned, in order, to
    distinct keys.** -/
lemma multiSigLoop_matches (allSigs : List Bytes)
    (hkeys : ∀ key ∈ keys, checkPubKeyEncoding env key = none)
    (hsigs : ∀ sig ∈ sigs, checkSignatureEncoding env sig = none) :
    ∃ matched, multiSigLoop env allSigs sigs keys s = .ok matched s ∧
      (matched = true ↔ SublistForall₂ (env.accepts s.codeHash allSigs) sigs keys) := by
  induction keys generalizing sigs with
  | nil =>
    cases sigs with
    | nil => exact ⟨true, rfl, by simp [SublistForall₂.nil]⟩
    | cons sig sigs =>
      refine ⟨false, rfl, by simp, fun h => ?_⟩
      cases h
  | cons key keys ih =>
    cases sigs with
    | nil => exact ⟨true, rfl, by simp [SublistForall₂.nil]⟩
    | cons sig sigs =>
      rw [forall_mem_cons] at hkeys hsigs
      have henc : checkEncodings env sig key s = .ok () s := by
        rw [checkEncodings, hsigs.1, hkeys.1]
        rfl
      -- An early exit is right: an assignment needs as many keys as signatures.
      have hexit : ∀ rest : List Bytes, keys.length < rest.length →
          ¬ SublistForall₂ (env.accepts s.codeHash allSigs) rest keys := by
        intro rest hlt h
        obtain ⟨l', hall, hsub⟩ := sublistForall₂_iff.mp h
        exact absurd (hall.length_eq.trans_le hsub.length_le) (not_le.mpr hlt)
      rw [multiSigLoop, bind_of_ok henc,
        bind_of_ok (show checkSigWith _ _ _ _ s = .ok _ s from rfl)]
      by_cases hok : env.accepts s.codeHash allSigs sig key
      · rw [if_pos (show _ = true from hok), sublistForall₂_cons_of_rel hok]
        split_ifs with hlt
        · exact ⟨false, rfl, by simpa using hexit sigs hlt⟩
        · exact ih hkeys.2 hsigs.2
      · rw [if_neg (show ¬ _ = true from hok), sublistForall₂_cons_of_not_rel hok]
        split_ifs with hlt
        · exact ⟨false, rfl, by simpa using hexit (sig :: sigs) hlt⟩
        · exact ih hkeys.2 (forall_mem_cons.mpr hsigs)

/-- A failed match with a signature that is not empty, where the flag forbids it. -/
def NullFails (env : EvalEnv) (matched : Bool) (sigs : List Bytes) : Prop :=
  matched = false ∧ env.has verifyNullFail = true ∧ ∃ sig ∈ sigs, sig ≠ []

instance nullFailsDecidable (matched : Bool) : Decidable (NullFails env matched sigs) :=
  instDecidableAnd

/-- **The arguments are taken off**, unless a signature among them, which are those from place
    `ikey2` on, makes it fail. -/
lemma cleanUpArgs_ends (env : EvalEnv) (matched : Bool) (args : List Bytes) (ikey2 : ℕ)
    (hs : s.stack = args ++ below) :
    (NullFails env matched (args.drop ikey2) →
      ∃ s', cleanUpArgs env matched args.length ikey2 s = .error (.failed .sigNullFail) s') ∧
    (¬ NullFails env matched (args.drop ikey2) →
      cleanUpArgs env matched args.length ikey2 s = .ok () { s with stack := below }) := by
  induction args generalizing s ikey2 with
  | nil =>
    rw [nil_append] at hs
    exact ⟨fun ⟨_, _, sig, hsig, _⟩ => by simp at hsig, fun _ => by rw [← hs]; rfl⟩
  | cons vch args ih =>
    have htop : stackTop 0 s = .ok vch s := by simp [stackTop, hs]
    rw [length_cons, cleanUpArgs, bind_of_ok htop]
    by_cases hstop : matched = false ∧ env.has verifyNullFail = true ∧ ikey2 = 0 ∧ vch ≠ []
    · obtain ⟨hm, hflag, rfl, hne⟩ := hstop
      refine ⟨fun _ => ⟨s, bind_of_error (if_pos ⟨hm, hflag, rfl, hne⟩)⟩, fun hno => ?_⟩
      exact absurd ⟨hm, hflag, vch, mem_cons_self, hne⟩ hno
    · have hpop : popStack s = .ok () { s with stack := args ++ below } := by simp [popStack, hs]
      rw [bind_of_ok (stopIf_neg hstop), bind_of_ok hpop]
      -- What is left to look at is the same, up to an empty item.
      have hrest : NullFails env matched ((vch :: args).drop ikey2) ↔
          NullFails env matched (args.drop (ikey2 - 1)) := by
        cases ikey2 with
        | succ k => rfl
        | zero =>
          unfold NullFails
          by_cases hv : vch = []
          · simp [hv]
          · have hno : ¬ (matched = false ∧ env.has verifyNullFail = true) :=
              fun h => hstop ⟨h.1, h.2, rfl, hv⟩
            tauto
      rw [hrest]
      exact ih (s := { s with stack := args ++ below }) (ikey2 - 1) rfl

/-! ## The instruction -/

/-- **The arguments of a multisig**: two counts that can be read, not more signatures than keys, and
    encodings that pass. -/
structure MultiSigArgs (env : EvalEnv) (vchKeys : Bytes) (keys : List Bytes) (vchSigs : Bytes)
    (sigs : List Bytes) : Prop where
  keyCount : scriptNum vchKeys env.fRequireMinimal defaultMaxNumSize = .ok keys.length
  sigCount : scriptNum vchSigs env.fRequireMinimal defaultMaxNumSize = .ok sigs.length
  le : sigs.length ≤ keys.length
  keysPass : ∀ key ∈ keys, checkPubKeyEncoding env key = none
  sigsPass : ∀ sig ∈ sigs, checkSignatureEncoding env sig = none

/-- What `OP_CHECKMULTISIG` does with a state. -/
def checkMultiSig (env : EvalEnv) (s : EvalState) : EStateM.Result EvalExit EvalState Unit :=
  evalInstr env true [] (instrOf OP_CHECKMULTISIG) s

/-- A count within the limit is not clamped. -/
lemma getInt_natCast {n : ℕ} (h : n ≤ maxPubkeysPerMultisig) : getInt n = n := by
  have : n ≤ 20 := h
  unfold getInt
  omega

lemma needItems_ok {n : ℕ} {e : ScriptError} (h : n ≤ s.stack.length) :
    needItems n e s = .ok () s :=
  if_neg (not_lt.mpr h)

lemma stackTop_ok {i : ℕ} {vch : Bytes} (h : s.stack[i]? = some vch) :
    stackTop i s = .ok vch s := by
  rw [stackTop, h]

lemma readNum_ok {vch : Bytes} {n : ℤ}
    (h : scriptNum vch env.fRequireMinimal defaultMaxNumSize = .ok n) :
    readNum env vch defaultMaxNumSize s = .ok n s := by
  rw [readNum, h]

/-- **A stack that lacks items**: it is empty, or ends before the number of signatures, or before
    the item below the signatures; the counts that are there can be read and are within the limits.
    -/
inductive ShortStack (env : EvalEnv) (s : EvalState) : Prop
  | empty (h : s.stack = [])
  | keys {vchKeys : Bytes} {n : ℕ} (top : s.stack[0]? = some vchKeys)
      (count : scriptNum vchKeys env.fRequireMinimal defaultMaxNumSize = .ok n)
      (hn : n ≤ maxPubkeysPerMultisig) (hops : s.nOpCount + n ≤ maxOpsPerScript)
      (short : s.stack.length < n + 2)
  | sigs {vchKeys vchSigs : Bytes} {n m : ℕ} (top : s.stack[0]? = some vchKeys)
      (count : scriptNum vchKeys env.fRequireMinimal defaultMaxNumSize = .ok n)
      (hn : n ≤ maxPubkeysPerMultisig) (hops : s.nOpCount + n ≤ maxOpsPerScript)
      (item : s.stack[1 + n]? = some vchSigs)
      (sigCount : scriptNum vchSigs env.fRequireMinimal defaultMaxNumSize = .ok m) (hm : m ≤ n)
      (short : s.stack.length < n + m + 3)

lemma instrOf_checkMultiSig : instrOf OP_CHECKMULTISIG = .checkMultiSig false := by decide

/-- **A short stack is noticed** before anything below its bottom is read. -/
lemma ShortStack.fails (h : ShortStack env s) :
    ∃ s', checkMultiSig env s = .error (.failed .invalidStackOperation) s' := by
  rw [checkMultiSig, instrOf_checkMultiSig, evalInstr, evalCheckMultiSig]
  cases h with
  | empty h => exact ⟨s, bind_of_error (if_pos (by rw [h]; decide))⟩
  | @keys vchKeys n top count hn hops short =>
    have hpos := (List.getElem?_eq_some_iff.mp top).1
    have hk := getInt_natCast hn
    obtain ⟨s1, hcount, hstack⟩ : ∃ s1, countOps n s = .ok () s1 ∧ s1.stack = s.stack :=
      ⟨_, if_neg (not_lt.mpr hops), rfl⟩
    rw [bind_of_ok (needItems_ok hpos), bind_of_ok (stackTop_ok top), bind_of_ok (readNum_ok count),
      bind_of_ok (stopIf_neg (by omega)), hk, Int.toNat_natCast, bind_of_ok hcount]
    exact ⟨s1, bind_of_error (if_pos (by rw [hstack]; omega))⟩
  | @sigs vchKeys vchSigs n m top count hn hops item sigCount hm short =>
    have hpos := (List.getElem?_eq_some_iff.mp top).1
    have hkeys := (List.getElem?_eq_some_iff.mp item).1
    have hk := getInt_natCast hn
    have hm' := getInt_natCast (hm.trans hn)
    obtain ⟨s1, hcount, hstack⟩ : ∃ s1, countOps n s = .ok () s1 ∧ s1.stack = s.stack :=
      ⟨_, if_neg (not_lt.mpr hops), rfl⟩
    rw [bind_of_ok (needItems_ok hpos), bind_of_ok (stackTop_ok top), bind_of_ok (readNum_ok count),
      bind_of_ok (stopIf_neg (by omega)), hk, Int.toNat_natCast, bind_of_ok hcount,
      bind_of_ok (needItems_ok (by rw [hstack]; omega)), bind_of_ok (stackTop_ok (hstack ▸ item)),
      bind_of_ok (readNum_ok sigCount), bind_of_ok (stopIf_neg (by omega)), hm', Int.toNat_natCast]
    exact ⟨s1, bind_of_error (if_pos (by rw [hstack]; omega))⟩

/-- **The instruction decides whether there is an assignment** of the signatures to keys; the two
    flags are looked at one after the other. -/
def DecidesAssignment (env : EvalEnv) (s : EvalState) (keys sigs : List Bytes) (dummy : Bytes)
    (below : List Bytes) : Prop :=
  ∃ matched : Bool,
    (matched = true ↔
      ∃ chosen, Forall₂ (env.accepts s.codeHash sigs) sigs chosen ∧ chosen <+ keys) ∧
    if NullFails env matched sigs then
      ∃ s', checkMultiSig env s = .error (.failed .sigNullFail) s'
    else if env.has verifyNullDummy = true ∧ dummy ≠ [] then
      ∃ s', checkMultiSig env s = .error (.failed .sigNullDummy) s'
    else checkMultiSig env s = .ok () { s with
      stack := ofBool matched :: below, nOpCount := s.nOpCount + keys.length }

/-- A stack with all items. -/
lemma checkMultiSig_complete {vchKeys vchSigs dummy : Bytes}
    (h : MultiSigArgs env vchKeys keys vchSigs sigs) (hn : keys.length ≤ maxPubkeysPerMultisig)
    (hops : s.nOpCount + keys.length ≤ maxOpsPerScript)
    (hs : s.stack = vchKeys :: (keys ++ vchSigs :: (sigs ++ dummy :: below))) :
    DecidesAssignment env s keys sigs dummy below := by
  obtain ⟨s1, hs1⟩ : ∃ s1, s1 = { s with nOpCount := s.nOpCount + keys.length } := ⟨_, rfl⟩
  have hcount : countOps keys.length s = .ok () s1 := by rw [hs1]; exact if_neg (not_lt.mpr hops)
  have hstack : s1.stack = s.stack := by rw [hs1]
  have hcode : s1.codeHash = s.codeHash := by rw [hs1]
  rw [hs] at hstack
  have hlen : s1.stack.length = keys.length + sigs.length + below.length + 3 := by
    simp only [hstack, length_cons, length_append]
    omega
  have hsig : s1.stack[1 + keys.length]? = some vchSigs := by simp [hstack, Nat.add_comm 1]
  have hkeys : stackItems 1 keys.length s1 = .ok keys s1 := by simp [stackItems, hstack]
  have hsigs : stackItems (2 + keys.length) sigs.length s1 = .ok sigs s1 := by
    simp [stackItems, hstack, Nat.add_comm 2]
  have hk := getInt_natCast hn
  have hm := getInt_natCast (h.le.trans hn)
  have hle := h.le
  obtain ⟨matched, hloop, hmatched⟩ := multiSigLoop_matches (s := s1) sigs h.keysPass h.sigsPass
  rw [hcode] at hmatched
  refine ⟨matched, hmatched.trans sublistForall₂_iff, ?_⟩
  -- The counts and the items are read, and the loop gives its answer.
  rw [checkMultiSig, instrOf_checkMultiSig, evalInstr, evalCheckMultiSig,
    bind_of_ok (needItems_ok (by simp [hs])), bind_of_ok (stackTop_ok (by rw [hs]; rfl)),
    bind_of_ok (readNum_ok h.keyCount), bind_of_ok (stopIf_neg (by omega)), hk, Int.toNat_natCast,
    bind_of_ok hcount, bind_of_ok (needItems_ok (by omega)), bind_of_ok (stackTop_ok hsig),
    bind_of_ok (readNum_ok h.sigCount), bind_of_ok (stopIf_neg (by omega)), hm, Int.toNat_natCast,
    bind_of_ok (needItems_ok (by omega)), bind_of_ok hkeys, bind_of_ok hsigs, bind_of_ok hloop]
  have hargs : (vchKeys :: (keys ++ vchSigs :: sigs)).length = 2 + keys.length + sigs.length := by
    simp only [length_cons, length_append]
    omega
  have hall : s1.stack = vchKeys :: (keys ++ vchSigs :: sigs) ++ dummy :: below := by simp [hstack]
  obtain ⟨hfails, hpops⟩ := cleanUpArgs_ends env matched _ (keys.length + 2) hall
  rw [hargs, show (vchKeys :: (keys ++ vchSigs :: sigs)).drop (keys.length + 2) = sigs by simp]
    at hfails hpops
  split_ifs with hnull hdummy
  · obtain ⟨s', hs'⟩ := hfails hnull
    exact ⟨s', bind_of_error hs'⟩
  · rw [bind_of_ok (hpops hnull), bind_of_ok (needItems_ok (by simp)), bind_of_ok (stackTop_ok rfl)]
    exact ⟨_, bind_of_error (if_pos hdummy)⟩
  · rw [bind_of_ok (hpops hnull), bind_of_ok (needItems_ok (by simp)), bind_of_ok (stackTop_ok rfl),
      bind_of_ok (stopIf_neg hdummy), hs1]
    rfl

/-- **`OP_CHECKMULTISIG` decides whether all signatures can be assigned, in order, to distinct
    keys**: whether the keys have a sublist that fits the signatures one by one.  With all items on
    the stack it takes `n + m + 3` of them off and pushes the answer, except that it fails with
    `SIG_NULLFAIL` exactly if the flag is set, the answer is no and some signature is not empty, and
    otherwise with `SIG_NULLDUMMY` exactly if the flag is set and the lowest item is not empty.  On
    a short stack it fails, and reads nothing below the bottom. -/
theorem checkMultiSig_matches (env : EvalEnv) (s : EvalState) :
    (∀ {keys sigs below : List Bytes} {vchKeys vchSigs dummy : Bytes},
      MultiSigArgs env vchKeys keys vchSigs sigs → keys.length ≤ maxPubkeysPerMultisig →
      s.nOpCount + keys.length ≤ maxOpsPerScript →
      s.stack = vchKeys :: (keys ++ vchSigs :: (sigs ++ dummy :: below)) →
      DecidesAssignment env s keys sigs dummy below) ∧
    (ShortStack env s →
      ∃ s', checkMultiSig env s = .error (.failed .invalidStackOperation) s') :=
  ⟨checkMultiSig_complete, ShortStack.fails⟩

/-- A checker that accepts a signature for the key with the same bytes, and any flags. -/
def sameBytesEnv (flags : ℕ) : EvalEnv :=
  { plainEnv with
    checker := ⟨fun sig key _ _ => sig == key, fun _ => false, fun _ => false⟩, flags }

/-- One signature, which fits the second of two keys. -/
theorem checkMultiSig_matches_second : ∃ matched : Bool,
    (matched = true ↔ ∃ chosen, Forall₂ ((sameBytesEnv 0).accepts [] [[9]]) [[9]] chosen ∧
      chosen <+ [[8], [9]]) ∧
    checkMultiSig (sameBytesEnv 0) ⟨[[2], [8], [9], [1], [9], []], [], [], 0, []⟩ =
      .ok () ⟨[ofBool matched], [], [], 2, []⟩ := by
  have h : MultiSigArgs (sameBytesEnv 0) [2] [[8], [9]] [1] [[9]] :=
    ⟨rfl, rfl, by decide, by decide, by decide⟩
  obtain ⟨matched, hiff, hrun⟩ := (checkMultiSig_matches (sameBytesEnv 0)
    ⟨[[2], [8], [9], [1], [9], []], [], [], 0, []⟩).1 h (by decide) (by decide) rfl
  rw [if_neg fun h => absurd h.2.1 (by decide), if_neg (by decide)] at hrun
  exact ⟨matched, hiff, hrun⟩

/-- With 21 keys, with too many operations before, or with a dummy that is not empty where the flag
    forbids it, the instruction fails although the signature fits the key; and with a signature that
    does not fit and is not empty it fails, where the flag asks for that, and leaves no answer. -/
theorem checkMultiSig_limits :
    (∃ s', checkMultiSig (sameBytesEnv 0)
        ⟨[21] :: (replicate 21 [9] ++ [[1], [9], []]), [], [], 0, []⟩
        = .error (.failed .pubkeyCount) s') ∧
      (∃ s', checkMultiSig (sameBytesEnv 0) ⟨[[1], [9], [1], [9], []], [], [], 201, []⟩
        = .error (.failed .opCount) s') ∧
      (∃ s', checkMultiSig (sameBytesEnv 16) ⟨[[1], [9], [1], [9], [7]], [], [], 0, []⟩
        = .error (.failed .sigNullDummy) s') ∧
      (∃ s', checkMultiSig (sameBytesEnv 16384) ⟨[[1], [9], [1], [8], []], [], [], 0, []⟩
        = .error (.failed .sigNullFail) s') ∧
      ∀ flags, (sameBytesEnv flags).accepts [] [[9]] [9] [9] :=
  ⟨⟨_, rfl⟩, ⟨_, rfl⟩, ⟨_, rfl⟩, ⟨_, rfl⟩, fun _ => rfl⟩

end Ybtc
