import Mathlib.Tactic

/-!
# The serial callback queue

`SingleThreadedSchedulerClient` of `scheduler.cpp`.  The pending callbacks and the running flag are
changed under one lock and the queue of the scheduler under another, and between two critical
sections every other thread may go on.  A thread is described by the place where it waits for a lock
and by the callback it is in; there may be any number of them.  The main result is
`serialQueue_serial`.
-/

namespace Ybtc

open Function Option

/-- The place of a thread in `AddToProcessQueue` or `ProcessQueue`, outside of the callback. -/
inductive QueueCall
  /-- Before the lock of `MaybeScheduleProcessQueue`. -/
  | maybeSchedule
  /-- Before `m_pscheduler->schedule`. -/
  | schedule
  /-- Before the lock of `ProcessQueue`. -/
  | processQueue
  /-- Before the lock in the destructor of `RAIICallbacksRunning`. -/
  | leave
deriving Repr, DecidableEq

/-- The client, the number of its `ProcessQueue` tasks in the queue of the scheduler, and the
    threads.  `started` is not in the source: the callbacks in the order in which they were called.
    -/
structure SerialQueue (T C : Type) where
  callbacksPending : List C
  areCallbacksRunning : Bool
  taskQueue : ℕ
  call : T → Option QueueCall
  callback : T → Option C
  started : List C

/-- What a thread does next. -/
inductive QueueMove (T C : Type)
  /-- `AddToProcessQueue`, up to the end of its critical section; a callback may call it, too. -/
  | addToProcessQueue (t : T) (func : C)
  /-- `serviceQueue` takes a task and calls it. -/
  | serviceQueue (t : T)
  /-- `EmptyQueue` calls `ProcessQueue`. -/
  | emptyQueue (t : T)
  /-- The call, or else the callback, that the thread is in goes on. -/
  | resume (t : T)

/-- The moves with which the threads go on, without new callbacks. -/
def QueueMove.goesOn {T C : Type} : QueueMove T C → Bool
  | .serviceQueue _ | .resume _ => true
  | _ => false

/-- The callback that the move adds. -/
def QueueMove.func {T C : Type} : QueueMove T C → Option C
  | .addToProcessQueue _ func => some func
  | _ => none

namespace SerialQueue

variable {T C : Type} [DecidableEq T]

def initial : SerialQueue T C := ⟨[], false, 0, fun _ => none, fun _ => none, []⟩

variable (s : SerialQueue T C)

/-- The thread is in another place. -/
def goTo (t : T) (place : Option QueueCall) : SerialQueue T C :=
  { s with call := update s.call t place }

/-- The critical section of `MaybeScheduleProcessQueue`. -/
def maybeScheduleProcessQueue (t : T) : SerialQueue T C :=
  if s.areCallbacksRunning then s.goTo t none
  else if s.callbacksPending.isEmpty then s.goTo t none
  else s.goTo t (some .schedule)

/-- The first of the pending callbacks is taken and called. -/
def callFront (t : T) (func : C) (rest : List C) : SerialQueue T C :=
  { s.goTo t none with
    areCallbacksRunning := true
    callbacksPending := rest
    callback := update s.callback t (some func)
    started := s.started ++ [func] }

/-- The critical section of `ProcessQueue`; the callback is called. -/
def processQueue (t : T) : SerialQueue T C :=
  if s.areCallbacksRunning then s.goTo t none
  else
    match s.callbacksPending with
    | [] => s.goTo t none
    | func :: rest => s.callFront t func rest

/-- The callback returns or throws; the destructor of `RAIICallbacksRunning` is called. -/
def returnCallback (t : T) : SerialQueue T C :=
  { s.goTo t (some .leave) with callback := update s.callback t none }

/-- The critical section of the destructor. -/
def leaveCallback (t : T) : SerialQueue T C :=
  { s.goTo t (some .maybeSchedule) with areCallbacksRunning := false }

/-- **One step**, if the thread can take it: the thread goes on to the end of its next critical
    section. -/
def step : QueueMove T C → Option (SerialQueue T C)
  | .addToProcessQueue t func =>
    if (s.call t).isSome then none
    else some { s.goTo t (some .maybeSchedule) with
      callbacksPending := s.callbacksPending ++ [func] }
  | .serviceQueue t =>
    if (s.call t).isSome ∨ (s.callback t).isSome ∨ s.taskQueue = 0 then none
    else some { s.goTo t (some .processQueue) with taskQueue := s.taskQueue - 1 }
  | .emptyQueue t =>
    if (s.call t).isSome ∨ (s.callback t).isSome then none
    else some (s.goTo t (some .processQueue))
  | .resume t =>
    match s.call t, s.callback t with
    | some .maybeSchedule, _ => some (s.maybeScheduleProcessQueue t)
    | some .schedule, _ => some { s.goTo t none with taskQueue := s.taskQueue + 1 }
    | some .processQueue, _ => some (s.processQueue t)
    | some .leave, _ => some (s.leaveCallback t)
    | none, some _ => some (s.returnCallback t)
    | none, none => none

/-- **A run**: the threads go on in any order. -/
def run (moves : List (QueueMove T C)) (s : SerialQueue T C) : Option (SerialQueue T C) :=
  moves.foldlM step s

/-- The thread is between the two critical sections around a callback. -/
def Inside (t : T) : Prop := s.callback t ≠ none ∨ s.call t = some .leave

/-- **What every step keeps**, after the given callbacks have been added. -/
structure Inv (added : List C) (s : SerialQueue T C) : Prop where
  order : added = s.started ++ s.callbacksPending
  running : s.areCallbacksRunning = true ↔ ∃ t, s.Inside t
  unique : ∀ {t t'}, s.Inside t → s.Inside t' → t = t'
  returned : ∀ {t}, s.call t = some .leave → s.callback t = none
  last : ∀ {t func}, s.callback t = some func → s.started.getLast? = some func
  waiting : s.callbacksPending ≠ [] → s.areCallbacksRunning = false →
    0 < s.taskQueue ∨ ∃ t, s.call t ≠ none

variable {added : List C} {s s' : SerialQueue T C} {t t' : T} {place : Option QueueCall}

/-- Other moves of a thread do not matter to what is between the critical sections. -/
lemma inside_goTo (ht : s.call t ≠ some .leave) (hplace : place ≠ some .leave) :
    (s.goTo t place).Inside t' ↔ s.Inside t' := by
  by_cases h : t' = t <;> simp_all [Inside, SerialQueue.goTo]

section

variable (h : s.Inv added) (ht : s.call t ≠ some .leave)

include h ht

/-- A move of this kind, if somebody still looks at the pending callbacks. -/
lemma Inv.goTo (hplace : place ≠ some .leave) (hwait : place ≠ none ∨ 0 < s.taskQueue ∨
      s.areCallbacksRunning = true ∨ s.callbacksPending = []) : (s.goTo t place).Inv added where
  order := h.order
  running := by simp only [inside_goTo ht hplace]; exact h.running
  unique := by simp only [inside_goTo ht hplace]; exact h.unique
  returned := by
    intro t' ht'
    by_cases heq : t' = t
    · exact absurd ht' (by simp [heq, SerialQueue.goTo, hplace])
    · exact h.returned (by simpa [SerialQueue.goTo, heq] using ht')
  last := h.last
  waiting := by
    intro hne hrun
    rcases hwait with hp | hp | hp | hp
    · exact Or.inr ⟨t, by simpa [SerialQueue.goTo] using hp⟩
    · exact Or.inl hp
    · exact absurd (hp.symm.trans hrun) (by simp)
    · exact absurd hp hne

lemma Inv.maybeScheduleProcessQueue : (s.maybeScheduleProcessQueue t).Inv added := by
  unfold SerialQueue.maybeScheduleProcessQueue
  split_ifs with hrun hempty
  · exact h.goTo ht (by simp) (Or.inr (Or.inr (Or.inl hrun)))
  · exact h.goTo ht (by simp) (Or.inr (Or.inr (Or.inr (List.isEmpty_iff.mp hempty))))
  · exact h.goTo ht (by simp) (Or.inl (by simp))

omit ht in
/-- A callback is called, when no thread is inside. -/
lemma Inv.callFront {func : C} {rest : List C} (hrun : s.areCallbacksRunning ≠ true)
    (hp : s.callbacksPending = func :: rest) : (s.callFront t func rest).Inv added := by
  have hfree : ∀ t', ¬ s.Inside t' := fun t' ht' => hrun (h.running.mpr ⟨t', ht'⟩)
  have honly : ∀ t', (s.callFront t func rest).Inside t' ↔ t' = t := by
    intro t'
    have hnot := hfree t'
    by_cases heq : t' = t <;> simp_all [Inside, SerialQueue.callFront, SerialQueue.goTo]
  constructor
  · simp [h.order, hp, SerialQueue.callFront]
  · exact iff_of_true rfl ⟨t, (honly t).mpr rfl⟩
  · intro t' t'' ht' ht''
    rw [(honly t').mp ht', (honly t'').mp ht'']
  · intro t' ht'
    obtain rfl := (honly t').mp (Or.inr ht')
    simp [SerialQueue.callFront, SerialQueue.goTo] at ht'
  · intro t' func' hfunc
    obtain rfl := (honly t').mp (Or.inl (by simp [hfunc]))
    simpa [SerialQueue.callFront] using hfunc
  · exact fun _ hrun' => absurd hrun' (by simp [SerialQueue.callFront])

/-- The first of the pending callbacks is called, if none is running. -/
lemma Inv.processQueue : (s.processQueue t).Inv added := by
  unfold SerialQueue.processQueue
  split_ifs with hrun
  · exact h.goTo ht (by simp) (Or.inr (Or.inr (Or.inl hrun)))
  · cases hp : s.callbacksPending with
    | nil => exact h.goTo ht (by simp) (Or.inr (Or.inr (Or.inr hp)))
    | cons func rest => exact h.callFront hrun hp

end

/-- The callback is over, and the destructor will be executed. -/
lemma Inv.returnCallback (h : s.Inv added) (ht : s.callback t ≠ none) :
    (s.returnCallback t).Inv added := by
  have hrun : s.areCallbacksRunning = true := h.running.mpr ⟨t, Or.inl ht⟩
  have honly : ∀ t', (s.returnCallback t).Inside t' ↔ t' = t := by
    intro t'
    by_cases heq : t' = t
    · simp [Inside, SerialQueue.returnCallback, SerialQueue.goTo, heq]
    · have hnot := mt (fun ht' => h.unique ht' (Or.inl ht)) heq
      simpa [Inside, SerialQueue.returnCallback, SerialQueue.goTo, heq] using hnot
  constructor
  · exact h.order
  · exact iff_of_true hrun ⟨t, (honly t).mpr rfl⟩
  · intro t' t'' ht' ht''
    rw [(honly t').mp ht', (honly t'').mp ht'']
  · intro t' ht'
    obtain rfl := (honly t').mp (Or.inr ht')
    simp [SerialQueue.returnCallback]
  · intro t' func hfunc
    obtain rfl := (honly t').mp (Or.inl (by simp [hfunc]))
    simp [SerialQueue.returnCallback] at hfunc
  · exact fun _ hrun' => absurd (hrun.symm.trans hrun') (by simp)

/-- **The destructor frees the queue**, and its thread will look at the pending callbacks. -/
lemma Inv.leaveCallback (h : s.Inv added) (ht : s.call t = some .leave) :
    (s.leaveCallback t).Inv added := by
  have hfree : ∀ t', ¬ (s.leaveCallback t).Inside t' := by
    intro t' ht'
    by_cases heq : t' = t
    · simp [Inside, SerialQueue.leaveCallback, SerialQueue.goTo, heq, h.returned ht] at ht'
    · exact heq (h.unique (by
        simpa [Inside, SerialQueue.leaveCallback, SerialQueue.goTo, heq] using ht') (Or.inr ht))
  refine ⟨h.order, ?_, fun ht' => absurd ht' (hfree _), fun ht' => absurd (Or.inr ht') (hfree _),
    h.last, fun _ _ => Or.inr ⟨t, by simp [SerialQueue.leaveCallback, SerialQueue.goTo]⟩⟩
  exact iff_of_false Bool.false_ne_true (not_exists.mpr hfree)

/-- **One step.** -/
lemma Inv.step {m : QueueMove T C} (h : s.Inv added) (hs : s.step m = some s') :
    s'.Inv (added ++ m.func.toList) := by
  cases m with
  | addToProcessQueue t func =>
    obtain ⟨hcall, hs⟩ := ite_none_left_eq_some.mp hs
    cases hs
    have hi : (s.goTo t (some .maybeSchedule)).Inv added :=
      h.goTo (by simp_all) (by simp) (Or.inl (by simp))
    refine { hi with
      order := ?_, waiting := fun _ _ => Or.inr ⟨t, by simp [SerialQueue.goTo]⟩ }
    rw [h.order, List.append_assoc]
    rfl
  | serviceQueue t | emptyQueue t =>
    obtain ⟨hcall, hs⟩ := ite_none_left_eq_some.mp hs
    cases hs
    have hi : (s.goTo t (some .processQueue)).Inv added :=
      h.goTo (by simp_all) (by simp) (Or.inl (by simp))
    exact { hi with
      order := (List.append_nil _).trans h.order
      waiting := fun _ _ => Or.inr ⟨t, by simp [SerialQueue.goTo]⟩ }
  | resume t =>
    rw [show added ++ (QueueMove.resume t : QueueMove T C).func.toList = added
      from List.append_nil _]
    rw [SerialQueue.step] at hs
    split at hs
    · exact some.inj hs ▸ h.maybeScheduleProcessQueue (by simp_all)
    · have hi : ({ s with taskQueue := s.taskQueue + 1 } : SerialQueue T C).Inv added :=
        { h with waiting := fun _ _ => Or.inl (Nat.succ_pos _) }
      exact some.inj hs ▸ hi.goTo (by simp_all) (by simp) (Or.inr (Or.inl (Nat.succ_pos _)))
    · exact some.inj hs ▸ h.processQueue (by simp_all)
    · exact some.inj hs ▸ h.leaveCallback (by simp_all)
    · exact some.inj hs ▸ h.returnCallback (by simp_all)
    · cases hs

/-- **Every run.** -/
lemma Inv.run : ∀ {moves : List (QueueMove T C)} {s : SerialQueue T C} {added : List C},
    s.Inv added → run moves s = some s' → s'.Inv (added ++ moves.filterMap QueueMove.func)
  | [], s, added, h, hr => by
    cases hr
    simpa using h
  | m :: moves, s, added, h, hr => by
    obtain ⟨s1, hs, hr⟩ := bind_eq_some_iff.mp hr
    have hi := (h.step hs).run hr
    cases hm : m.func <;> simpa [List.filterMap_cons, hm] using hi

/-! ## Progress -/

/-- The steps a thread has left at most, from the place where it is. -/
def placeWork : Option QueueCall → ℕ
  | none => 0
  | some .processQueue => 1
  | some .schedule => 3
  | some .maybeSchedule => 4
  | some .leave => 5

/-- And in the callback it is in. -/
def callbackWork : Option C → ℕ
  | none => 0
  | some _ => 6

def threadWork (s : SerialQueue T C) (t : T) : ℕ :=
  placeWork (s.call t) + callbackWork (s.callback t)

variable [Fintype T]

/-- **A bound on the steps the threads can take without new callbacks.** -/
def work (s : SerialQueue T C) : ℕ :=
  6 * s.callbacksPending.length + 2 * s.taskQueue + ∑ t, s.threadWork t

/-- Where only one thread has moved, its part decides. -/
lemma work_lt (hothers : ∀ t', t' ≠ t → s'.threadWork t' = s.threadWork t')
    (hlt : 6 * s'.callbacksPending.length + 2 * s'.taskQueue + s'.threadWork t <
      6 * s.callbacksPending.length + 2 * s.taskQueue + s.threadWork t) : s'.work < s.work := by
  have hsum : ∀ s : SerialQueue T C, ∑ t', s.threadWork t' =
      s.threadWork t + ∑ t' ∈ Finset.univ.erase t, s.threadWork t' :=
    fun s => (Finset.add_sum_erase _ _ (Finset.mem_univ t)).symm
  have hrest : ∑ t' ∈ Finset.univ.erase t, s'.threadWork t' =
      ∑ t' ∈ Finset.univ.erase t, s.threadWork t' :=
    Finset.sum_congr rfl fun t' ht' => hothers t' (Finset.ne_of_mem_erase ht')
  rw [work, work, hsum s', hsum s, hrest]
  omega

/-- **Every such step lowers it.** -/
lemma work_step {m : QueueMove T C} (hm : m.goesOn = true) (hs : s.step m = some s') :
    s'.work < s.work := by
  cases m with
  | addToProcessQueue | emptyQueue => cases hm
  | serviceQueue t =>
    obtain ⟨hcall, hs⟩ := ite_none_left_eq_some.mp hs
    cases hs
    refine work_lt (t := t) (fun t' ht' => by simp [threadWork, goTo, ht']) ?_
    simp only [not_or, Option.not_isSome_iff_eq_none] at hcall
    simp only [threadWork, goTo, update_self, hcall.1, hcall.2.1, placeWork]
    omega
  | resume t =>
    rw [SerialQueue.step] at hs
    split at hs
    next hcall =>
      cases hs
      unfold SerialQueue.maybeScheduleProcessQueue
      split_ifs
      all_goals
        refine work_lt (t := t) (fun t' ht' => by simp [threadWork, goTo, ht']) ?_
        simp [threadWork, goTo, hcall, placeWork]
    next hcall =>
      cases hs
      refine work_lt (t := t) (fun t' ht' => by simp [threadWork, goTo, ht']) ?_
      simp only [threadWork, goTo, update_self, hcall, placeWork]
      omega
    next hcall =>
      cases hs
      unfold SerialQueue.processQueue
      split_ifs
      · refine work_lt (t := t) (fun t' ht' => by simp [threadWork, goTo, ht']) ?_
        simp [threadWork, goTo, hcall, placeWork]
      · split
        · refine work_lt (t := t) (fun t' ht' => by simp [threadWork, goTo, ht']) ?_
          simp [threadWork, goTo, hcall, placeWork]
        next hp =>
          refine work_lt (t := t) (fun t' ht' => by simp [threadWork, callFront, goTo, ht']) ?_
          simp only [threadWork, callFront, goTo, update_self, hcall, hp, placeWork, callbackWork,
            List.length_cons]
          omega
    next hcall =>
      cases hs
      refine work_lt (t := t) (fun t' ht' => by simp [threadWork, leaveCallback, goTo, ht']) ?_
      simp [threadWork, leaveCallback, goTo, hcall, placeWork]
    next hcall hcallback =>
      cases hs
      refine work_lt (t := t) (fun t' ht' => by simp [threadWork, returnCallback, goTo, ht']) ?_
      simp [threadWork, returnCallback, goTo, hcall, hcallback, placeWork, callbackWork]
    · cases hs

/-- So there are no more of them than the bound says. -/
lemma work_run : ∀ {rest : List (QueueMove T C)} {s : SerialQueue T C},
    (∀ m ∈ rest, m.goesOn = true) → run rest s = some s' → rest.length + s'.work ≤ s.work
  | [], s, _, hr => by
    cases hr
    simp
  | m :: rest, s, hgo, hr => by
    obtain ⟨s1, hs, hr⟩ := bind_eq_some_iff.mp hr
    rw [List.forall_mem_cons] at hgo
    have hlt := work_step hgo.1 hs
    have hle := work_run hgo.2 hr
    rw [List.length_cons]
    omega

omit [Fintype T] in
/-- **Where the threads can go on no more, nothing is pending.** -/
lemma Inv.idle [Nonempty T] (h : s.Inv added)
    (hidle : ∀ m : QueueMove T C, m.goesOn = true → s.step m = none) :
    s.callbacksPending = [] ∧ s.callback = fun _ => none := by
  have hcall : ∀ t, s.call t = none ∧ s.callback t = none := by
    intro t
    have hr := hidle (.resume t) rfl
    rw [SerialQueue.step] at hr
    split at hr
    case h_6 hcall hcallback => exact ⟨hcall, hcallback⟩
    all_goals cases hr
  obtain ⟨t⟩ := ‹Nonempty T›
  have htask : s.taskQueue = 0 := by
    have hr := hidle (.serviceQueue t) rfl
    by_contra hne
    rw [SerialQueue.step, if_neg (by simp [hcall t, hne])] at hr
    cases hr
  refine ⟨?_, funext fun t => (hcall t).2⟩
  by_contra hne
  have hrun : s.areCallbacksRunning = false := by
    rw [← Bool.not_eq_true, h.running]
    rintro ⟨t, ht | ht⟩
    · exact ht (hcall t).2
    · rw [(hcall t).1] at ht
      cases ht
  rcases h.waiting hne hrun with hpos | ⟨t, ht⟩
  · omega
  · exact ht (hcall t).1

end SerialQueue

/-- **The callbacks of one client are serial.**  In every run of any number of threads the callbacks
    that were called are the first that were added, in that order.  No two threads are in a
    callback, and the callback a thread is in is the last that was called.  When callbacks are
    pending and none is running, a `ProcessQueue` task is in the queue of the scheduler, or a thread
    is on its way to schedule or to run one.  If then nothing is added, the threads stop after a
    bounded number of steps, and by then every callback that was added has been called and has
    returned. -/
theorem serialQueue_serial {T C : Type} [DecidableEq T] (moves : List (QueueMove T C))
    {s : SerialQueue T C} (h : SerialQueue.run moves .initial = some s) :
    moves.filterMap QueueMove.func = s.started ++ s.callbacksPending ∧
      ((∀ t t', s.callback t ≠ none → s.callback t' ≠ none → t = t') ∧
        ∀ t func, s.callback t = some func → s.started.getLast? = some func) ∧
      (s.callbacksPending ≠ [] → s.callback = (fun _ => none) →
        0 < s.taskQueue ∨ ∃ t, s.call t ≠ none) ∧
      ∀ [Fintype T] [Nonempty T] (rest : List (QueueMove T C)) (s' : SerialQueue T C),
        (∀ m ∈ rest, m.goesOn = true) → SerialQueue.run rest s = some s' →
          rest.length ≤ s.work ∧
          ((∀ m : QueueMove T C, m.goesOn = true → s'.step m = none) →
            s'.started = moves.filterMap QueueMove.func ∧ s'.callback = fun _ => none) := by
  have hstart : (SerialQueue.initial : SerialQueue T C).Inv [] :=
    ⟨rfl, by simp [SerialQueue.initial, SerialQueue.Inside], by simp [SerialQueue.initial,
      SerialQueue.Inside], nofun, nofun, fun hne => absurd rfl hne⟩
  have hi : s.Inv (moves.filterMap QueueMove.func) := hstart.run h
  refine ⟨hi.order, ⟨fun t t' ht ht' => hi.unique (Or.inl ht) (Or.inl ht'), fun t func => hi.last⟩,
    fun hne hnone => ?_, fun {_} {_} rest s' hgo hr => ⟨?_, fun hidle => ?_⟩⟩
  · by_cases hrun : s.areCallbacksRunning = true
    · obtain ⟨t, ht | ht⟩ := hi.running.mp hrun
      · exact absurd (congrFun hnone t) ht
      · exact Or.inr ⟨t, by simp [ht]⟩
    · exact hi.waiting hne (by simpa using hrun)
  · have := SerialQueue.work_run hgo hr
    omega
  · have hi' := hi.run hr
    have hnone : rest.filterMap QueueMove.func = [] := by
      refine List.filterMap_eq_nil_iff.mpr fun m hm => ?_
      have hm' := hgo m hm
      cases m with
      | addToProcessQueue | emptyQueue => cases hm'
      | serviceQueue | resume => rfl
    obtain ⟨hempty, hcallback⟩ := hi'.idle hidle
    rw [hnone, List.append_nil] at hi'
    exact ⟨by rw [hi'.order, hempty, List.append_nil], hcallback⟩

/-- Two threads.  The second callback is added while the first one is running. -/
def twoCallbacks : List (QueueMove Bool ℕ) :=
  [.addToProcessQueue false 7, .resume false, .resume false, .serviceQueue true, .resume true,
    .addToProcessQueue false 8, .resume false]

/-- How the threads go on until nothing is left to do. -/
def twoCallbacksRest : List (QueueMove Bool ℕ) :=
  [.resume true, .resume true, .resume true, .resume true, .serviceQueue false, .resume false,
    .resume false, .resume false, .resume false]

theorem serialQueue_serial_two : ∃ s s', SerialQueue.run twoCallbacks .initial = some s ∧
    s.callbacksPending = [8] ∧ s.callback true = some 7 ∧
    SerialQueue.run twoCallbacksRest s = some s' ∧ s'.started = [7, 8] := by
  refine ⟨_, _, rfl, rfl, rfl, rfl, ?_⟩
  obtain ⟨-, hidle⟩ :=
    (serialQueue_serial twoCallbacks rfl).2.2.2 twoCallbacksRest _ (by decide) rfl
  refine (hidle fun m hm => ?_).1
  cases m with
  | addToProcessQueue | emptyQueue => cases hm
  | serviceQueue t | resume t => cases t <;> rfl

end Ybtc
