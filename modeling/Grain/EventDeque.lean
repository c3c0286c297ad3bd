import Mathlib.Data.Fintype.Basic
import Mathlib.Logic.Function.Basic

/-!
# The queue of a service

A service runs on one thread or on several that take its events from an `EventDeque` (`listenerBuffered1Thread.cpp`,
`listenerBufferedNThread.cpp`). A section under the lock is one step, except that a thread which has found the queue empty goes to
sleep in a step of its own, still under the lock: `deinit` sets the flag and wakes the threads without it. A push signals after it
has given the lock back, and a thread may wake without a signal.
-/

namespace Grain

namespace EventDeque

/-- Where a thread of the listener is: at the head of its loop, about to enter `pop`, under the lock with an empty queue, asleep,
woken, with events to handle, or at its end. -/
inductive Phase (E : Type)
  | top
  | entering
  | deciding
  | waiting
  | woken
  | handling (e : List (Option E))
  | exited
  deriving DecidableEq

/-- The thread holds the lock. -/
def Phase.locks {E : Type} : Phase E → Bool
  | .deciding => true
  | _ => false

/-- The thread sleeps. -/
def Phase.sleeps {E : Type} : Phase E → Bool
  | .waiting => true
  | _ => false

/-- A thread that sleeps is woken. -/
def Phase.wake {E : Type} : Phase E → Phase E
  | .waiting => .woken
  | p => p

/-- How far `ListenerBuffered1Thread::deinit` has come; it ends in `pthread_join`. -/
inductive Deinit
  | running
  | detached
  | cleared
  | pushed
  | signalled
  | terminating
  | flagged
  | broadcast
  | joining
  deriving DecidableEq

/-- A listener with `n` threads: the queue and its flag, the flag and the queue pointer of the listener, the threads, and the number
of pushes that have not signalled. An event that is not valid is `none`. What happened is logged: the events that were pushed, those
that were taken and by which thread, those that `clear` dropped, and what each thread has handled. -/
structure Listener (E : Type) (n : Nat) where
  container : List (Option E) := []
  isTerminating : Bool := false
  listenerTerminating : Bool := false
  attached : Bool := true
  worker : Fin n → Phase E := fun _ => .top
  owed : Nat := 0
  deinit : Deinit := .running
  pushed : List E := []
  took : List (Fin n × List (Option E)) := []
  dropped : List (Option E) := []
  handled : Fin n → List E := fun _ => []

namespace Listener

variable {E : Type} {n : Nat} (s : Listener E n)

/-- No thread is under the lock. -/
def Free : Prop := ∀ w, (s.worker w).locks = false

instance : Decidable s.Free := inferInstanceAs (Decidable (∀ w, (s.worker w).locks = false))

/-- No thread sleeps. -/
def Awake : Prop := ∀ w, (s.worker w).sleeps = false

instance : Decidable s.Awake := inferInstanceAs (Decidable (∀ w, (s.worker w).sleeps = false))

/-- A thread comes to a place. -/
def move (w : Fin n) (p : Phase E) : Listener E n := { s with worker := Function.update s.worker w p }

/-- `Condition::broadcast`. -/
def broadcast : Listener E n := { s with worker := fun w => (s.worker w).wake }

/-- `listenToEvent` with the locked part of `push`; an event for a listener without a queue is not pushed. -/
def push (e : E) : Listener E n :=
  if s.attached then { s with container := s.container ++ [some e], pushed := s.pushed ++ [e], owed := s.owed + 1 } else s

/-- `pop` from the test of the flag on. -/
def pop (w : Fin n) : Listener E n :=
  if s.isTerminating then s.move w (.handling [])
  else if s.container = [] then s.move w .deciding
  else { s.move w (.handling s.container) with container := [], took := s.took ++ [(w, s.container)] }

/-- A thread goes on; `processEvent` logs what an event raises. -/
def work (w : Fin n) : Listener E n :=
  match s.worker w with
  | .top =>
    if s.listenerTerminating then s.move w .exited
    else if s.attached then s.move w .entering
    else s.move w .exited
  | .entering => if s.Free then s.pop w else s
  | .deciding => s.move w .waiting
  | .waiting => s
  | .woken => if s.Free then s.pop w else s
  | .handling [] => s.move w .top
  | .handling (some e :: r) =>
    { s.move w (.handling r) with handled := Function.update s.handled w (s.handled w ++ [e]) }
  | .handling (none :: _) => s.move w .exited
  | .exited => s

/-- `Condition::signal`: a thread that sleeps is woken, if there is one. -/
def signal (w : Fin n) : Option (Listener E n) :=
  if (s.worker w).sleeps then some (s.move w .woken) else if s.Awake then some s else none

/-- The next statement of `deinit`; `w` is the thread that its signal wakes. -/
def deinitNext (w : Fin n) : Listener E n :=
  match s.deinit with
  | .running => { s with attached := false, deinit := .detached }
  | .detached => if s.Free then { s.broadcast with container := [], dropped := s.container, deinit := .cleared } else s
  | .cleared => if s.Free then { s with container := s.container ++ [none], deinit := .pushed } else s
  | .pushed => match s.signal w with
    | some t => { t with deinit := .signalled }
    | none => s
  | .signalled => { s with listenerTerminating := true, deinit := .terminating }
  | .terminating => { s with isTerminating := true, deinit := .flagged }
  | .flagged => { s.broadcast with deinit := .broadcast }
  | .broadcast => { s.broadcast with deinit := .joining }
  | .joining => s

end Listener

/-- What happens: an event is pushed, a push signals, a thread wakes without a signal, a thread goes on, `deinit` goes on. -/
inductive Step (E : Type) (n : Nat)
  | push (e : E)
  | signal (w : Fin n)
  | wake (w : Fin n)
  | work (w : Fin n)
  | deinit (w : Fin n)

variable {E : Type} {n : Nat}

/-- One step; a step that cannot be taken changes nothing. -/
def Step.run : Step E n → Listener E n → Listener E n
  | .push e, s => if s.Free then s.push e else s
  | .signal w, s =>
    if s.owed = 0 then s
    else match s.signal w with
      | some t => { t with owed := s.owed - 1 }
      | none => s
  | .wake w, s => s.move w (s.worker w).wake
  | .work w, s => s.work w
  | .deinit w, s => s.deinitNext w

/-- The steps in the order in which they happen. -/
def run (steps : List (Step E n)) : Listener E n := steps.foldl (fun s st => st.run s) {}

end EventDeque

end Grain
