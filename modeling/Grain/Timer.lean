import Grain.Route

/-!
# Timers

`Timer::Service` of `timerService.cpp`: the thread that handles events and the worker thread, with the sections they run under the
lock and the calls of `passEvent` as steps. A task is an object with references to it, so its place in the list of all tasks; a
time is in microseconds. What the clock says at a step is part of the step.
-/

namespace Grain

namespace Timer

/-- `task::TYP`. -/
inductive Typ where
  | alarm
  | timer
deriving DecidableEq

/-- What a request and a task are compared by. -/
structure Key where
  tid : Int
  data : String
  route : RouteT

/-- The comparison of the loops that stop tasks. -/
def Key.same (x ev : Key) : Bool := x.data == ev.data && RouteT.same x.route ev.route && x.tid == ev.tid

/-- `task`. -/
structure Task where
  type : Typ
  key : Key
  cookie : Nat
  period : Int
  erased : Bool

/-- `TickTimer` and `TickAlarm`. -/
structure Tick where
  type : Typ
  tid : Int
  data : String
  cookie : Nat
  route : RouteT

/-- Where the worker is: before the locked section that takes the first tasks; in the loop over the tasks it took; behind the look
at `erased`, before `passEvent`; behind `passEvent`; returned. -/
inductive Worker where
  | idle
  | batch (rest : List Nat)
  | checked (i : Nat) (rest : List Nat)
  | fired (i : Nat) (rest : List Nat)
  | stopped

/-- What `on_ResetAlarm` holds between its two locked sections. -/
structure Reset where
  key : Key
  cookie : Nat
  delay : Int

/-- The service. `nexts` is `mx_nexts` in the order of its keys, `passed` the events with the tasks they came from. -/
structure Service where
  tasks : List Task
  nexts : List (Int × List Nat)
  worker : Worker
  resetting : Option Reset
  isTerminating : Bool
  passed : List (Nat × Tick)

/-- A service that was started. -/
def Service.init : Service := ⟨[], [], .idle, none, false, []⟩

/-- `mx_nexts[tb].push_back(t)`. -/
def pushBack (tb : Int) (t : Nat) : List (Int × List Nat) → List (Int × List Nat)
  | [] => [(tb, [t])]
  | (k, q) :: l =>
    if tb < k then (tb, [t]) :: (k, q) :: l
    else if k = tb then (k, q ++ [t]) :: l
    else (k, q) :: pushBack tb t l

/-- The tasks in `mx_nexts`. -/
def Service.queued (s : Service) : List Nat := s.nexts.flatMap Prod.snd

/-- What the loops do with a task. -/
def Task.mark (type : Typ) (ev : Key) (x : Task) : Task :=
  if x.key.same ev && x.type == type then { x with erased := true } else x

/-- The loops over `mx_nexts` that stop tasks. -/
def Service.mark (type : Typ) (ev : Key) (s : Service) : Service :=
  { s with tasks := s.queued.foldl (fun ts i => ts.modify i (Task.mark type ev)) s.tasks }

/-- A new task and its place in `mx_nexts`. -/
def Service.push (type : Typ) (key : Key) (cookie : Nat) (delay now : Int) (s : Service) : Service :=
  { s with
    tasks := s.tasks ++ [⟨type, key, cookie, delay, false⟩]
    nexts := pushBack (now + delay) s.tasks.length s.nexts }

/-- A step of one of the threads. -/
inductive Label where
  | setTimer (key : Key) (cookie : Nat) (delay now : Int)
  | setAlarm (key : Key) (cookie : Nat) (delay now : Int)
  | stopTimer (key : Key)
  | stopAlarm (key : Key)
  | resetAlarm (key : Key) (cookie : Nat) (delay : Int)
  | resetPush (now : Int)
  | take (now : Int)
  | check
  | pass
  | finish (now : Int)
  | terminate
  | clear

/-- A handler that returns at once when the service is terminating, and runs `f` otherwise. The events are handled by one thread, so
not between the two sections of `on_ResetAlarm`. -/
def Service.handle (s : Service) (f : Service → Service) : Option Service :=
  match s.resetting with
  | some _ => none
  | none => if s.isTerminating then some s else some (f s)

/-- The first section of `on_ResetAlarm`. -/
def Service.resetMark (key : Key) (cookie : Nat) (delay : Int) (s : Service) : Service :=
  { s.mark .alarm key with resetting := some ⟨key, cookie, delay⟩ }

/-- The second section of `on_ResetAlarm`. -/
def Service.resetPush (s : Service) (now : Int) : Option Service :=
  match s.resetting with
  | none => none
  | some r => some { s.push .alarm r.key r.cookie r.delay now with resetting := none }

/-- The locked section of the worker: it waits while nothing is due. -/
def Service.take (s : Service) (now : Int) : Option Service :=
  match s.worker with
  | .idle =>
    if s.isTerminating then some { s with worker := .stopped }
    else
      match s.nexts with
      | [] => none
      | (itFirst, itSecond) :: l => if now < itFirst then none else some { s with nexts := l, worker := .batch itSecond }
  | _ => none

/-- The head of the loop over the tasks, and the look at `erased`. -/
def Service.check (s : Service) : Option Service :=
  match s.worker with
  | .batch [] => some { s with worker := .idle }
  | .batch (i :: rest) =>
    if s.isTerminating then some { s with worker := .stopped }
    else
      match s.tasks[i]? with
      | none => none
      | some t => some { s with worker := if t.erased then .batch rest else .checked i rest }
  | _ => none

/-- The event of a task. `poppedFrontRoute` throws on an empty route. -/
def Task.tick (t : Task) : Option Tick :=
  if t.key.route = [] then none else some ⟨t.type, t.key.tid, t.key.data, t.cookie, t.key.route.dropLast⟩

/-- `passEvent`. An exception is caught around both loops, and what was left of the tasks is lost. -/
def Service.pass (s : Service) : Option Service :=
  match s.worker with
  | .checked i rest =>
    match s.tasks[i]? with
    | none => none
    | some t =>
      match t.tick with
      | none => some { s with worker := .idle }
      | some e => some { s with passed := s.passed ++ [(i, e)], worker := .fired i rest }
  | _ => none

/-- After `passEvent`: a timer goes back to `mx_nexts`, an alarm is erased. -/
def Service.finish (s : Service) (now : Int) : Option Service :=
  match s.worker with
  | .fired i rest =>
    match s.tasks[i]? with
    | none => none
    | some t =>
      match t.type with
      | .timer => some { s with nexts := pushBack (now + t.period) i s.nexts, worker := .batch rest }
      | .alarm => some { s with tasks := s.tasks.modify i fun t => { t with erased := true }, worker := .batch rest }
  | _ => none

/-- The step of a label, where it is possible. -/
def step (s : Service) : Label → Option Service
  | .setTimer key cookie delay now => s.handle (Service.push .timer key cookie delay now)
  | .setAlarm key cookie delay now => s.handle (Service.push .alarm key cookie delay now)
  | .stopTimer key => s.handle (Service.mark .timer key)
  | .stopAlarm key => s.handle (Service.mark .alarm key)
  | .resetAlarm key cookie delay => s.handle (Service.resetMark key cookie delay)
  | .resetPush now => s.resetPush now
  | .take now => s.take now
  | .check => s.check
  | .pass => s.pass
  | .finish now => s.finish now
  | .terminate => some { s with isTerminating := true }
  | .clear => if s.isTerminating then some { s with nexts := [] } else none

end Timer

end Grain
