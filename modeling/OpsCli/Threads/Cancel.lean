import Mathlib.Data.List.Sort

/-!
# Cancelling events

A thread waits on the list or in the queue of its type until it is ready.  On
the ready list the threads of all types stand together, and events are
cancelled there by their argument alone.
-/

namespace OpsCli.Threads.Cancel

open Function List

inductive ThreadType where
  | read | write | timer | event | background | ready
  deriving DecidableEq

/-- The value is the descriptor, the time or the number of an event. -/
structure Thread (Arg : Type) where
  addType : ThreadType
  arg : Arg
  value : Int
  deriving DecidableEq

/-- The threads of a master by their type, which names the list they stand on.
A descriptor is set in the master as long as a thread waits for it. -/
abbrev Master (Arg : Type) := ThreadType → List (Thread Arg)

variable {Arg : Type} (m : Master Arg) (type : ThreadType)

/-- A thread waits for a descriptor, unless another one does. -/
def threadAddFd (arg : Arg) (fd : Int) : Master Arg :=
  if (m type).any (·.value = fd) then m else update m type (m type ++ [⟨type, arg, fd⟩])

def threadAddRead : Arg → Int → Master Arg :=
  threadAddFd m .read

def threadAddWrite : Arg → Int → Master Arg :=
  threadAddFd m .write

/-- `thread_add_timer_timeval`; the first of the queue has the earliest time. -/
def threadAddTimerTimeval (arg : Arg) (time : Int) : Master Arg :=
  update m type ((m type).orderedInsert (·.value ≤ ·.value) ⟨type, arg, time⟩)

def threadAddEvent (arg : Arg) (val : Int) : Master Arg :=
  update m .event (m .event ++ [⟨.event, arg, val⟩])

/-- `thread_cancel` of the thread at a position of its list. -/
def threadCancel (index : Nat) : Master Arg :=
  update m type ((m type).eraseIdx index)

def makeReady (moves : Thread Arg → Bool) : Master Arg :=
  update (update m type ((m type).filter (!moves ·))) .ready
    (m .ready ++ (m type).filter moves)

def threadProcess : Master Arg :=
  makeReady m .event fun _ => true

def threadProcessFd (fdset : List Int) : Master Arg :=
  makeReady m type (·.value ∈ fdset)

def threadTimerProcess (timenow : Int) : Master Arg :=
  makeReady m type (·.value ≤ timenow)

/-- What `select` returns, with the time behind it. -/
inductive Selected where
  | fds (readfd writefd : List Int) (timenow : Int)
  | interrupted
  | error

/-- `thread_fetch`, for the results of `select`.  It waits when they are used
up. -/
def threadFetch (m : Master Arg) (results : List Selected) :
    Option (Option (Thread Arg) × Master Arg) :=
  match m .ready, results with
  | thread :: rest, _ => some (thread, update m .ready rest)
  | [], [] => none
  | [], .interrupted :: results => threadFetch (threadProcess m) results
  | [], .error :: _ => some (none, threadProcess m)
  | [], .fds readfd writefd timenow :: results =>
    threadFetch (threadTimerProcess (threadProcessFd (threadProcessFd
      (threadTimerProcess (threadProcess m) .timer timenow) .read readfd) .write writefd)
      .background timenow) results

/-- A thread that is not ready stands on the list of the type it was added
with. -/
def Own (m : Master Arg) : Prop :=
  ∀ type, type ≠ .ready → ∀ thread ∈ m type, thread.addType = type

section

variable {m} {type} (own : Own m)
include own

theorem Own.update {threads : List (Thread Arg)}
    (kept : type ≠ .ready → ∀ thread ∈ threads, thread ∈ m type ∨ thread.addType = type) :
    Own (update m type threads) := by
  intro place waits thread member
  rcases eq_or_ne place type with rfl | other
  · rw [update_self] at member
    exact (kept waits thread member).elim (own place waits thread) id
  · rw [update_of_ne other] at member
    exact own place waits thread member

theorem own_append (arg : Arg) (value : Int) :
    Own (update m type (m type ++ [⟨type, arg, value⟩])) := by
  refine own.update fun _ thread member => ?_
  rcases mem_append.mp member with before | new
  · exact .inl before
  · rw [mem_singleton.mp new]
    exact .inr rfl

theorem own_threadAddFd (arg : Arg) (fd : Int) : Own (threadAddFd m type arg fd) := by
  unfold threadAddFd
  split
  · exact own
  · exact own_append own arg fd

theorem own_threadAddTimerTimeval (arg : Arg) (time : Int) :
    Own (threadAddTimerTimeval m type arg time) := by
  refine own.update fun _ thread member => ?_
  rcases (mem_orderedInsert _).mp member with rfl | before
  · exact .inr rfl
  · exact .inl before

theorem Own.makeReady (moves : Thread Arg → Bool) : Own (makeReady m type moves) :=
  (own.update fun _ _ member => .inl (mem_of_mem_filter member)).update (absurd rfl)

theorem own_threadFetch {results : List Selected} {thread : Option (Thread Arg)}
    {new : Master Arg} (fetched : threadFetch m results = some (thread, new)) : Own new := by
  fun_induction threadFetch m results with
  | case1 =>
    cases fetched
    exact own.update (absurd rfl)
  | case2 => cases fetched
  | case3 _ _ _ ih => exact ih (own.makeReady _) fetched
  | case4 =>
    cases fetched
    exact own.makeReady _
  | case5 _ _ _ _ _ _ ih =>
    refine ih ?_ fetched
    exact ((((own.makeReady _).makeReady _).makeReady _).makeReady _).makeReady _

end

variable [DecidableEq Arg]

/-- The number that `thread_cancel_event` returns, and the master behind it. -/
def threadCancelEvent (arg : Arg) : Nat × Master Arg :=
  ((m .event).countP (·.arg = arg) + (m .ready).countP (·.arg = arg),
    update (update m .event ((m .event).filter (·.arg ≠ arg))) .ready
      ((m .ready).filter (·.arg ≠ arg)))

/-- What a call of a function makes of the master. -/
inductive Step : Master Arg → Prop where
  | addRead (arg : Arg) (fd : Int) : Step (threadAddRead m arg fd)
  | addWrite (arg : Arg) (fd : Int) : Step (threadAddWrite m arg fd)
  | addTimer (arg : Arg) (time : Int) : Step (threadAddTimerTimeval m .timer arg time)
  | addBackground (arg : Arg) (time : Int) : Step (threadAddTimerTimeval m .background arg time)
  | addEvent (arg : Arg) (val : Int) : Step (threadAddEvent m arg val)
  | cancel (type : ThreadType) (index : Nat) : Step (threadCancel m type index)
  | cancelEvent (arg : Arg) : Step (threadCancelEvent m arg).2
  | fetch (results : List Selected) (thread : Option (Thread Arg)) (new : Master Arg) :
      threadFetch m results = some (thread, new) → Step new

/-- A master some calls behind `thread_master_create`. -/
def Reachable : Master Arg → Prop :=
  Relation.ReflTransGen (Step ·) fun _ => []

variable {m} {arg : Arg}

theorem own_of_step {new : Master Arg} (own : Own m) (step : Step m new) : Own new := by
  cases step with
  | addRead arg fd | addWrite arg fd => exact own_threadAddFd own arg fd
  | addTimer arg time | addBackground arg time => exact own_threadAddTimerTimeval own arg time
  | addEvent arg val => exact own_append own arg val
  | cancel type index => exact own.update fun _ _ member => .inl (mem_of_mem_eraseIdx member)
  | cancelEvent arg =>
    exact (own.update fun _ _ member => .inl (mem_of_mem_filter member)).update (absurd rfl)
  | fetch results thread new fetched => exact own_threadFetch own fetched

theorem own_of_reachable (reachable : Reachable m) : Own m := by
  induction reachable with
  | refl => exact fun _ _ _ => nofun
  | tail _ step ih => exact own_of_step ih step

/-- The thread was added as an event with the argument. -/
def IsEvent (arg : Arg) (thread : Thread Arg) : Bool :=
  thread.addType = .event ∧ thread.arg = arg

def pending (m : Master Arg) : List (Thread Arg) :=
  [.read, .write, .timer, .event, .background, .ready].flatMap m

/-- Cancelling touches only the events exactly if no other thread with the
argument is ready. -/
theorem cancel_event_iff (reachable : Reachable m) (arg : Arg) :
    (threadCancelEvent m arg).1 = (pending m).countP (IsEvent arg) ∧
      (∀ type, (threadCancelEvent m arg).2 type = (m type).filter (!IsEvent arg ·)) ↔
    ∀ thread ∈ m .ready, thread.arg = arg → thread.addType = .event := by
  have own := own_of_reachable reachable
  constructor
  · rintro ⟨_, kept⟩ thread member same
    by_contra other
    have stays : thread ∈ (m .ready).filter (!IsEvent arg ·) :=
      mem_filter.mpr ⟨member, by simp [IsEvent, other]⟩
    rw [← kept .ready] at stays
    exact of_decide_eq_true (mem_filter.mp stays).2 same
  · intro ready
    have told : ∀ type, ∀ thread ∈ m type, IsEvent arg thread =
        decide ((type = .event ∨ type = .ready) ∧ thread.arg = arg) := by
      intro type thread member
      by_cases isReady : type = .ready
      · subst isReady
        simpa [IsEvent] using ready thread member
      · simp [IsEvent, own type isReady thread member, isReady]
    have counts : ∀ type, (m type).countP (IsEvent arg) = (m type).countP fun thread =>
        (type = .event ∨ type = .ready) ∧ thread.arg = arg := fun type =>
      countP_congr fun thread member => by rw [told type thread member]
    refine ⟨by simp [pending, counts, threadCancelEvent], fun type => ?_⟩
    rw [filter_congr fun thread member => congrArg _ (told type thread member)]
    cases type <;> simp [threadCancelEvent]

/-- An event for an argument, beside a timer for it that is not ready and a
timer for another argument that is. -/
theorem event_cancelled : ∃ m : Master Nat, Reachable m ∧ m .ready = [⟨.timer, 8, 2⟩] ∧
    m .timer = [⟨.timer, 7, 5⟩] ∧ m .event = [⟨.event, 7, 0⟩] ∧
    (threadCancelEvent m 7).1 = (pending m).countP (IsEvent 7) ∧
    ∀ type, (threadCancelEvent m 7).2 type = (m type).filter (!IsEvent 7 ·) := by
  have added : Reachable _ := .tail (.single (.addTimer 9 1)) (.addTimer 8 2)
  have fetched := added.tail (.fetch [.fds [] [] 2] (some ⟨.timer, 9, 1⟩) _ rfl)
  have reached := (fetched.tail (.addTimer 7 5)).tail (.addEvent 7 0)
  exact ⟨_, reached, by decide, by decide, by decide, (cancel_event_iff reached 7).mpr (by decide)⟩

/-- Two timers are ready together, and the one that runs first cancels the
other one. -/
theorem timer_cancelled : ∃ m : Master Nat, Reachable m ∧ pending m = [⟨.timer, 7, 2⟩] ∧
    (threadCancelEvent m 7).1 = 1 ∧ pending (threadCancelEvent m 7).2 = [] := by
  have added : Reachable _ := .tail (.single (.addTimer 7 1)) (.addTimer 7 2)
  have fetched := added.tail (.fetch [.fds [] [] 2] (some ⟨.timer, 7, 1⟩) _ rfl)
  exact ⟨_, fetched, by decide, by decide, by decide⟩

end OpsCli.Threads.Cancel
