import Grain.Timer
import Grain.Lib.Runs
import Grain.Theorems.Route

/-!
# Stopped timers

A request to stop marks the tasks in `mx_nexts`. While the worker fires a task it is not there, so the request passes it over, and a
timer comes back to `mx_nexts` unmarked. In every run in which no request finds a task with its key in the hands of the worker,
stopped tasks stay silent, and a reset leaves one alarm (`stopped_silent`).
-/

namespace Grain

namespace Timer

/-! ## What is expected of stops -/

/-- The number of events that were passed for a task. -/
def Service.ticks (s : Service) (i : Nat) : Nat := (s.passed.map Prod.fst).count i

/-- The task has this kind and key. -/
def Service.Has (s : Service) (type : Typ) (key : Key) (i : Nat) : Prop :=
  ∃ t, s.tasks[i]? = some t ∧ t.type = type ∧ t.key.same key = true

/-- The tasks of a kind and key that were set before `s` produce no event between `s1` and `s2`. -/
def SilentBetween (type : Typ) (key : Key) (s s1 s2 : Service) : Prop := ∀ i, s.Has type key i → s2.ticks i = s1.ticks i

/-- The tasks the worker has not come to. -/
def Worker.rest : Worker → List Nat
  | .batch rest => rest
  | .checked _ rest => rest
  | .fired _ rest => rest
  | _ => []

/-- The task whose event the worker is about to pass. -/
def Worker.next : Worker → Option Nat
  | .checked i _ => some i
  | _ => none

/-- The task whose event the worker has passed. -/
def Worker.last : Worker → Option Nat
  | .fired i _ => some i
  | _ => none

/-- An alarm that is still to fire: it waits in `mx_nexts` or in the hands of the worker. -/
def Service.Unfired (s : Service) (key : Key) (i : Nat) : Prop :=
  s.Has .alarm key i ∧ ((∃ t, s.tasks[i]? = some t ∧ t.erased = false ∧ (i ∈ s.queued ∨ i ∈ s.worker.rest)) ∨
    s.worker.next = some i)

/-- Whenever a request to stop has been handled the tasks it names are silent from then on, and when a reset has been handled there
is one alarm with its key to fire. -/
structure StopsHold (run : List Label) : Prop where
  stopTimer : ∀ pre key post s s1 s2, run = pre ++ .stopTimer key :: post → Runs.exec step .init pre = some s →
    s.isTerminating = false → step s (.stopTimer key) = some s1 → Runs.exec step s1 post = some s2 →
    SilentBetween .timer key s s1 s2
  stopAlarm : ∀ pre key post s s1 s2, run = pre ++ .stopAlarm key :: post → Runs.exec step .init pre = some s →
    s.isTerminating = false → step s (.stopAlarm key) = some s1 → Runs.exec step s1 post = some s2 →
    SilentBetween .alarm key s s1 s2
  resetAlarm : ∀ pre now post r s s1 s2, run = pre ++ .resetPush now :: post → Runs.exec step .init pre = some s →
    s.resetting = some r → step s (.resetPush now) = some s1 → Runs.exec step s1 post = some s2 →
    SilentBetween .alarm r.key s s1 s2 ∧ ∃! i, s1.Unfired r.key i

/-- The worker holds a task of the kind and key that it will fire, or a timer that it will put back. -/
def Service.InHands (s : Service) (type : Typ) (key : Key) : Prop :=
  ∃ i, s.Has type key i ∧ ((∃ t, s.tasks[i]? = some t ∧ t.erased = false ∧
    (i ∈ s.worker.rest ∨ t.type = .timer ∧ s.worker.last = some i)) ∨ s.worker.next = some i)

/-- A request to stop finds no such task in the hands of the worker. -/
def Calm (s : Service) : Label → Prop
  | .stopTimer key => ¬s.InHands .timer key
  | .stopAlarm key => ¬s.InHands .alarm key
  | .resetAlarm key _ _ => ¬s.InHands .alarm key
  | _ => True

/-! ## Tasks that can still fire -/

/-- A task that can still produce an event. -/
def Service.Live (s : Service) (i : Nat) : Prop :=
  (∃ t, s.tasks[i]? = some t ∧ t.erased = false ∧
    (i ∈ s.queued ∨ i ∈ s.worker.rest ∨ t.type = .timer ∧ s.worker.last = some i)) ∨ s.worker.next = some i

theorem Service.Unfired.live {s : Service} {key : Key} {i : Nat} (h : s.Unfired key i) : s.Live i := by
  obtain ⟨-, ⟨t, ht, herased, hin⟩ | hnext⟩ := h
  · refine .inl ⟨t, ht, herased, ?_⟩
    rcases hin with hin | hin
    · exact .inl hin
    · exact .inr (.inl hin)
  · exact .inr hnext

/-- The tasks of a service stay, with their kinds and keys, and no mark is taken back. -/
structure Grows (s s' : Service) : Prop where
  keeps : ∀ (i : Nat) (t : Task), s.tasks[i]? = some t → ∃ t' : Task, s'.tasks[i]? = some t' ∧ t'.type = t.type ∧ t'.key = t.key ∧
    (t'.erased = false → t.erased = false)

theorem Grows.of_eq {s s' : Service} (h : s'.tasks = s.tasks) : Grows s s' where
  keeps i t ht := ⟨t, by rw [h]; exact ht, rfl, rfl, id⟩

theorem Grows.has {s s' : Service} (h : Grows s s') {type : Typ} {key : Key} {i : Nat} (hi : s.Has type key i) :
    s'.Has type key i := by
  obtain ⟨t, ht, htype, hkey⟩ := hi
  obtain ⟨t', ht', htype', hkey', -⟩ := h.keeps i t ht
  exact ⟨t', ht', htype'.trans htype, by rw [hkey']; exact hkey⟩

/-- What a step does to a task that was there: it is live only if it was, and an event of it is passed only if it was live. -/
structure Quiet (s s' : Service) : Prop where
  grows : Grows s s'
  live : ∀ i < s.tasks.length, s'.Live i → s.Live i
  ticks : ∀ i, ¬s.Live i → s'.ticks i = s.ticks i

/-! ### The table -/

theorem mem_pushBack {tb : Int} {t i : Nat} {l : List (Int × List Nat)} :
    i ∈ (pushBack tb t l).flatMap Prod.snd ↔ i = t ∨ i ∈ l.flatMap Prod.snd := by
  induction l with
  | nil => simp [pushBack]
  | cons e l ih =>
    obtain ⟨k, q⟩ := e
    rw [pushBack]
    split
    · simp
    · split
      · simp only [List.flatMap_cons, List.mem_append, List.mem_singleton]
        tauto
      · simp only [List.flatMap_cons, List.mem_append, ih]
        tauto

/-- A task after the loops over a list of tasks. -/
theorem getElem?_marks (type : Typ) (ev : Key) (ids : List Nat) (ts : List Task) (i : Nat) :
    (ids.foldl (fun ts i => ts.modify i (Task.mark type ev)) ts)[i]? =
      ts[i]?.map fun t => if i ∈ ids then t.mark type ev else t := by
  have hmark (t : Task) : (t.mark type ev).mark type ev = t.mark type ev := by
    unfold Task.mark
    split
    · simp_all
    · simp_all
  induction ids generalizing ts with
  | nil => simp
  | cons j ids ih =>
    rw [List.foldl_cons, ih, List.getElem?_modify]
    cases hi : ts[i]? with
    | none => rfl
    | some t =>
      by_cases hj : j = i
      · subst hj
        by_cases hmem : j ∈ ids <;> simp [hmem, hmark]
      · have hne : i ≠ j := fun h => hj h.symm
        simp [hj, hne]

/-! ### The steps of the handlers -/

theorem grows_push (type : Typ) (key : Key) (cookie : Nat) (delay now : Int) (s : Service) :
    Grows s (s.push type key cookie delay now) where
  keeps i t ht := by
    refine ⟨t, ?_, rfl, rfl, id⟩
    obtain ⟨hlt, -⟩ := List.getElem?_eq_some_iff.1 ht
    exact (List.getElem?_append_left hlt).trans ht

theorem quiet_push (type : Typ) (key : Key) (cookie : Nat) (delay now : Int) (s : Service) :
    Quiet s (s.push type key cookie delay now) where
  grows := grows_push type key cookie delay now s
  live := by
    rintro i hi (⟨t, ht, herased, hin⟩ | hnext)
    · have hold : s.tasks[i]? = some t := (List.getElem?_append_left hi).symm.trans ht
      refine .inl ⟨t, hold, herased, ?_⟩
      rcases hin with hin | hin
      · rcases mem_pushBack.1 hin with rfl | hin
        · exact absurd hi (Nat.lt_irrefl _)
        · exact .inl hin
      · exact .inr hin
    · exact .inr hnext
  ticks _ _ := rfl

theorem getElem?_mark (type : Typ) (ev : Key) (s : Service) (i : Nat) :
    (s.mark type ev).tasks[i]? = s.tasks[i]?.map fun t => if i ∈ s.queued then t.mark type ev else t :=
  getElem?_marks type ev s.queued s.tasks i

theorem mark_keeps (type : Typ) (ev : Key) (t : Task) :
    (t.mark type ev).type = t.type ∧ (t.mark type ev).key = t.key ∧ ((t.mark type ev).erased = false → t.erased = false) := by
  unfold Task.mark
  split
  · exact ⟨rfl, rfl, fun h => Bool.noConfusion h⟩
  · exact ⟨rfl, rfl, id⟩

/-- A marked table, task by task. -/
theorem mark_cases {type : Typ} {ev : Key} {s : Service} {i : Nat} {t' : Task} (h : (s.mark type ev).tasks[i]? = some t') :
    ∃ t, s.tasks[i]? = some t ∧ t'.type = t.type ∧ t'.key = t.key ∧ (t'.erased = false → t.erased = false) ∧
      (i ∈ s.queued → t' = t.mark type ev) := by
  rw [getElem?_mark, Option.map_eq_some_iff] at h
  obtain ⟨t, ht, rfl⟩ := h
  by_cases hmem : i ∈ s.queued
  · obtain ⟨h1, h2, h3⟩ := mark_keeps type ev t
    rw [if_pos hmem]
    exact ⟨t, ht, h1, h2, h3, fun _ => rfl⟩
  · rw [if_neg hmem]
    exact ⟨t, ht, rfl, rfl, id, fun h => absurd h hmem⟩

theorem quiet_mark (type : Typ) (ev : Key) (s : Service) : Quiet s (s.mark type ev) where
  grows :=
    { keeps := by
        intro i t ht
        have hi := getElem?_mark type ev s i
        rw [ht] at hi
        obtain ⟨t0, ht0, h1, h2, h3, -⟩ := mark_cases hi
        rw [ht] at ht0
        cases ht0
        exact ⟨_, hi, h1, h2, h3⟩ }
  live := by
    rintro i - (⟨t', ht', herased, hin⟩ | hnext)
    · obtain ⟨t, ht, htype, -, hkeep, -⟩ := mark_cases ht'
      refine .inl ⟨t, ht, hkeep herased, ?_⟩
      rw [htype] at hin
      exact hin
    · exact .inr hnext
  ticks _ _ := rfl

/-- After the loops no task of the kind and key is live, unless the worker had it in its hands. -/
theorem not_live_mark {type : Typ} {ev : Key} {s : Service} (hcalm : ¬s.InHands type ev) {i : Nat} (hi : s.Has type ev i) :
    ¬(s.mark type ev).Live i := by
  obtain ⟨t, ht, htype, hkey⟩ := hi
  rintro (⟨t', ht', herased, hin⟩ | hnext)
  · obtain ⟨t0, ht0, htype', -, hkeep, hmark⟩ := mark_cases ht'
    rw [ht] at ht0
    cases ht0
    rcases hin with hin | hin
    · rw [hmark hin, Task.mark, hkey, htype] at herased
      simp at herased
    · rw [htype'] at hin
      exact hcalm ⟨i, ⟨t, ht, htype, hkey⟩, .inl ⟨t, ht, hkeep herased, hin⟩⟩
  · exact hcalm ⟨i, ⟨t, ht, htype, hkey⟩, .inr hnext⟩

theorem Quiet.refl (s : Service) : Quiet s s where
  grows := .of_eq rfl
  live _ _ := id
  ticks _ _ := rfl

theorem handle_cases {s s' : Service} {f : Service → Service} (h : s.handle f = some s') :
    s.resetting = none ∧ (s.isTerminating = true ∧ s' = s ∨ s.isTerminating = false ∧ s' = f s) := by
  unfold Service.handle at h
  split at h
  · cases h
  · rename_i hreset
    split at h
    · rename_i hterm
      cases h
      exact ⟨hreset, .inl ⟨hterm, rfl⟩⟩
    · rename_i hterm
      cases h
      exact ⟨hreset, .inr ⟨by simpa using hterm, rfl⟩⟩

theorem quiet_handle {s s' : Service} {f : Service → Service} (hf : Quiet s (f s)) (h : s.handle f = some s') : Quiet s s' := by
  obtain ⟨-, ⟨-, rfl⟩ | ⟨-, rfl⟩⟩ := handle_cases h
  · exact .refl _
  · exact hf

/-! ### The steps of the worker -/

theorem quiet_take {s s' : Service} {now : Int} (h : s.take now = some s') : Quiet s s' := by
  unfold Service.take at h
  split at h
  · rename_i hidle
    split at h
    · cases h
      refine ⟨.of_eq rfl, ?_, fun _ _ => rfl⟩
      rintro i - (⟨t, ht, herased, hin⟩ | hnext)
      · rcases hin with hin | hin | ⟨-, hin⟩
        · exact .inl ⟨t, ht, herased, .inl hin⟩
        · cases hin
        · cases hin
      · cases hnext
    · split at h
      · cases h
      · rename_i itFirst itSecond l hnexts
        split at h
        · cases h
        · cases h
          refine ⟨.of_eq rfl, ?_, fun _ _ => rfl⟩
          rintro i - (⟨t, ht, herased, hin⟩ | hnext)
          · refine .inl ⟨t, ht, herased, .inl ?_⟩
            rw [Service.queued, hnexts, List.flatMap_cons, List.mem_append]
            rcases hin with hin | hin | ⟨-, hin⟩
            · exact .inr hin
            · exact .inl hin
            · cases hin
          · cases hnext
  · cases h

theorem quiet_check {s s' : Service} (h : s.check = some s') : Quiet s s' := by
  unfold Service.check at h
  split at h
  · rename_i hbatch
    cases h
    refine ⟨.of_eq rfl, ?_, fun _ _ => rfl⟩
    rintro i - (⟨t, ht, herased, hin⟩ | hnext)
    · rcases hin with hin | hin | ⟨-, hin⟩
      · exact .inl ⟨t, ht, herased, .inl hin⟩
      · cases hin
      · cases hin
    · cases hnext
  · rename_i j rest hbatch
    split at h
    · cases h
      refine ⟨.of_eq rfl, ?_, fun _ _ => rfl⟩
      rintro i - (⟨t, ht, herased, hin⟩ | hnext)
      · rcases hin with hin | hin | ⟨-, hin⟩
        · exact .inl ⟨t, ht, herased, .inl hin⟩
        · cases hin
        · cases hin
      · cases hnext
    · split at h
      · cases h
      · rename_i u hu
        cases h
        refine ⟨.of_eq rfl, ?_, fun _ _ => rfl⟩
        intro i _ hlive
        have hrest (hi : i ∈ rest) : i ∈ s.worker.rest := by
          rw [hbatch]
          exact List.mem_cons_of_mem _ hi
        cases hue : u.erased with
        | true =>
          simp only [Service.Live, hue, if_pos] at hlive
          obtain ⟨t, ht, herased, hin⟩ | hnext := hlive
          · refine .inl ⟨t, ht, herased, ?_⟩
            rcases hin with hin | hin | ⟨-, hin⟩
            · exact .inl hin
            · exact .inr (.inl (hrest hin))
            · cases hin
          · cases hnext
        | false =>
          simp only [Service.Live, hue, Bool.false_eq_true, if_false] at hlive
          obtain ⟨t, ht, herased, hin⟩ | hnext := hlive
          · refine .inl ⟨t, ht, herased, ?_⟩
            rcases hin with hin | hin | ⟨-, hin⟩
            · exact .inl hin
            · exact .inr (.inl (hrest hin))
            · cases hin
          · cases hnext
            refine .inl ⟨u, hu, hue, .inr (.inl ?_)⟩
            rw [hbatch]
            exact List.mem_cons_self
  · cases h

theorem quiet_pass {s s' : Service} (h : s.pass = some s') : Quiet s s' := by
  unfold Service.pass at h
  split at h
  · rename_i j rest hchecked
    have hrest (i : Nat) (hi : i ∈ rest) : i ∈ s.worker.rest := by
      rw [hchecked]
      exact hi
    have hnextj : s.worker.next = some j := by
      rw [hchecked]
      rfl
    split at h
    · cases h
    · rename_i u hu
      split at h
      · cases h
        refine ⟨.of_eq rfl, ?_, fun _ _ => rfl⟩
        rintro i - (⟨t, ht, herased, hin⟩ | hnext)
        · rcases hin with hin | hin | ⟨-, hin⟩
          · exact .inl ⟨t, ht, herased, .inl hin⟩
          · cases hin
          · cases hin
        · cases hnext
      · cases h
        refine ⟨.of_eq rfl, ?_, ?_⟩
        · rintro i - (⟨t, ht, herased, hin⟩ | hnext)
          · rcases hin with hin | hin | ⟨-, hin⟩
            · exact .inl ⟨t, ht, herased, .inl hin⟩
            · exact .inl ⟨t, ht, herased, .inr (.inl (hrest i hin))⟩
            · cases hin
              exact .inr hnextj
          · cases hnext
        · intro i hi
          have hne : j ≠ i := by
            rintro rfl
            exact hi (.inr hnextj)
          simp only [Service.ticks, List.map_append, List.map_cons, List.map_nil, List.count_append,
            List.count_singleton]
          rw [if_neg (by simpa using hne), Nat.add_zero]
  · cases h

theorem quiet_finish {s s' : Service} {now : Int} (h : s.finish now = some s') : Quiet s s' := by
  unfold Service.finish at h
  split at h
  · rename_i j rest hfired
    have hrest (i : Nat) (hi : i ∈ rest) : i ∈ s.worker.rest := by
      rw [hfired]
      exact hi
    split at h
    · cases h
    · rename_i u hu
      split at h
      · rename_i htimer
        cases h
        refine ⟨.of_eq rfl, ?_, fun _ _ => rfl⟩
        rintro i - (⟨t, ht, herased, hin⟩ | hnext)
        · refine .inl ⟨t, ht, herased, ?_⟩
          rcases hin with hin | hin | ⟨-, hin⟩
          · rcases mem_pushBack.1 hin with rfl | hin
            · rw [hu] at ht
              cases ht
              exact .inr (.inr ⟨htimer, by rw [hfired]; rfl⟩)
            · exact .inl hin
          · exact .inr (.inl (hrest i hin))
          · cases hin
        · cases hnext
      · cases h
        have hkeep (i : Nat) (t : Task) (ht : s.tasks[i]? = some t) :
            ∃ t' : Task, (s.tasks.modify j fun t => { t with erased := true })[i]? = some t' ∧ t'.type = t.type ∧ t'.key = t.key ∧
              (t'.erased = false → t.erased = false) := by
          rw [List.getElem?_modify, ht]
          by_cases hji : j = i
          · exact ⟨{ t with erased := true }, by simp [hji], rfl, rfl, fun h => Bool.noConfusion h⟩
          · exact ⟨t, by simp [hji], rfl, rfl, id⟩
        refine ⟨⟨hkeep⟩, ?_, fun _ _ => rfl⟩
        rintro i hi (⟨t', ht', herased, hin⟩ | hnext)
        · obtain ⟨t, ht⟩ : ∃ t, s.tasks[i]? = some t := ⟨_, List.getElem?_eq_getElem hi⟩
          obtain ⟨t0, ht0, -, -, herased0⟩ := hkeep i t ht
          dsimp only at ht'
          rw [ht0] at ht'
          cases ht'
          refine .inl ⟨t, ht, herased0 herased, ?_⟩
          rcases hin with hin | hin | ⟨-, hin⟩
          · exact .inl hin
          · exact .inr (.inl (hrest i hin))
          · cases hin
        · cases hnext
  · cases h

/-! ### Every step -/

theorem quiet_step {s s' : Service} {l : Label} (h : step s l = some s') : Quiet s s' := by
  cases l with
  | setTimer key cookie delay now => exact quiet_handle (quiet_push _ _ _ _ _ _) h
  | setAlarm key cookie delay now => exact quiet_handle (quiet_push _ _ _ _ _ _) h
  | stopTimer key => exact quiet_handle (quiet_mark _ _ _) h
  | stopAlarm key => exact quiet_handle (quiet_mark _ _ _) h
  | resetAlarm key cookie delay =>
    have hmark := quiet_mark .alarm key s
    have hreset : Quiet s (s.resetMark key cookie delay) := ⟨⟨hmark.grows.keeps⟩, hmark.live, hmark.ticks⟩
    exact quiet_handle hreset h
  | resetPush now =>
    rw [step, Service.resetPush] at h
    split at h
    · cases h
    · rename_i r hreset
      cases h
      have hpush := quiet_push .alarm r.key r.cookie r.delay now s
      exact ⟨⟨hpush.grows.keeps⟩, hpush.live, hpush.ticks⟩
  | take now => exact quiet_take h
  | check => exact quiet_check h
  | pass => exact quiet_pass h
  | finish now => exact quiet_finish h
  | terminate =>
    cases h
    exact ⟨.of_eq rfl, fun _ _ h => h, fun _ _ => rfl⟩
  | clear =>
    rw [step] at h
    split at h
    · cases h
      refine ⟨.of_eq rfl, ?_, fun _ _ => rfl⟩
      rintro i - (⟨t, ht, herased, hin⟩ | hnext)
      · rcases hin with hin | hin
        · cases hin
        · exact .inl ⟨t, ht, herased, .inr hin⟩
      · exact .inr hnext
    · cases h

theorem Grows.length_le {s s' : Service} (h : Grows s s') {i : Nat} (hi : i < s.tasks.length) : i < s'.tasks.length := by
  obtain ⟨t', ht', -⟩ := h.keeps i _ (List.getElem?_eq_getElem hi)
  exact (List.getElem?_eq_some_iff.1 ht').1

/-- A task that was there had its kind and key then. -/
theorem Grows.has_before {s s' : Service} (h : Grows s s') {type : Typ} {key : Key} {i : Nat} (hi : i < s.tasks.length)
    (h' : s'.Has type key i) : s.Has type key i := by
  obtain ⟨t', ht', htype, hkey⟩ := h'
  obtain ⟨u, hu, htype', hkey', -⟩ := h.keeps i _ (List.getElem?_eq_getElem hi)
  rw [ht'] at hu
  cases hu
  exact ⟨_, List.getElem?_eq_getElem hi, htype'.symm.trans htype, by rw [← hkey']; exact hkey⟩

theorem Service.Has.lt {s : Service} {type : Typ} {key : Key} {i : Nat} (h : s.Has type key i) : i < s.tasks.length := by
  obtain ⟨t, ht, -⟩ := h
  exact (List.getElem?_eq_some_iff.1 ht).1

/-- A task that is not live is silent from then on. -/
theorem silent_of_not_live {s s' : Service} {i : Nat} {ls : List Label} (hi : i < s.tasks.length) (hlive : ¬s.Live i)
    (hls : Runs.exec step s ls = some s') : s'.ticks i = s.ticks i := by
  have hkeep := Runs.exec_invariant (P := fun t => i < t.tasks.length ∧ ¬t.Live i ∧ t.ticks i = s.ticks i) ?_ ⟨hi, hlive, rfl⟩ hls
  · exact hkeep.2.2
  · rintro t l t' ⟨ht, htlive, hticks⟩ hl
    have hquiet := quiet_step hl
    exact ⟨hquiet.grows.length_le ht, fun h => htlive (hquiet.live i ht h), (hquiet.ticks i htlive).trans hticks⟩

/-! ## Between the two sections of a reset -/

/-- While a reset is handled no alarm with its key is live. -/
def ResetQuiet (s : Service) : Prop := ∀ r, s.resetting = some r → ∀ i, s.Has .alarm r.key i → ¬s.Live i

/-- The worker makes no tasks and leaves the handler where it is. -/
theorem worker_frame {s s' : Service} {l : Label} (h : step s l = some s')
    (hl : (∃ now, l = .take now) ∨ l = .check ∨ l = .pass ∨ (∃ now, l = .finish now) ∨ l = .terminate ∨ l = .clear) :
    s'.resetting = s.resetting ∧ s'.tasks.length = s.tasks.length := by
  obtain ⟨now, rfl⟩ | rfl | rfl | ⟨now, rfl⟩ | rfl | rfl := hl
  · rw [step, Service.take] at h
    split at h
    · split at h
      · cases h
        exact ⟨rfl, rfl⟩
      · split at h
        · cases h
        · split at h
          · cases h
          · cases h
            exact ⟨rfl, rfl⟩
    · cases h
  · rw [step, Service.check.eq_def] at h
    split at h
    · cases h
      exact ⟨rfl, rfl⟩
    · split at h
      · cases h
        exact ⟨rfl, rfl⟩
      · split at h
        · cases h
        · cases h
          exact ⟨rfl, rfl⟩
    · cases h
  · rw [step, Service.pass] at h
    split at h
    · split at h
      · cases h
      · split at h
        · cases h
          exact ⟨rfl, rfl⟩
        · cases h
          exact ⟨rfl, rfl⟩
    · cases h
  · rw [step, Service.finish] at h
    split at h
    · split at h
      · cases h
      · split at h
        · cases h
          exact ⟨rfl, rfl⟩
        · cases h
          exact ⟨rfl, List.length_modify _ _ _⟩
    · cases h
  · cases h
    exact ⟨rfl, rfl⟩
  · rw [step] at h
    split at h
    · cases h
      exact ⟨rfl, rfl⟩
    · cases h

theorem resetQuiet_step {s s' : Service} {l : Label} (hs : ResetQuiet s) (hcalm : Calm s l) (h : step s l = some s') :
    ResetQuiet s' := by
  have hworker (hl : (∃ now, l = .take now) ∨ l = .check ∨ l = .pass ∨ (∃ now, l = .finish now) ∨ l = .terminate ∨ l = .clear) :
      ResetQuiet s' := by
    obtain ⟨hreset, hlen⟩ := worker_frame h hl
    have hquiet := quiet_step h
    intro r hr i hi hlive
    have hlt : i < s.tasks.length := by
      rw [← hlen]
      exact hi.lt
    exact hs r (hreset ▸ hr) i (hquiet.grows.has_before hlt hi) (hquiet.live i hlt hlive)
  have hhandle {f : Service → Service} (hf : (f s).resetting = s.resetting) (h : s.handle f = some s') : ResetQuiet s' := by
    obtain ⟨hnone, ⟨-, rfl⟩ | ⟨-, rfl⟩⟩ := handle_cases h
    · exact hs
    · intro r hr
      rw [hf, hnone] at hr
      cases hr
  cases l with
  | setTimer key cookie delay now | setAlarm key cookie delay now => exact hhandle rfl h
  | stopTimer key | stopAlarm key => exact hhandle rfl h
  | resetAlarm key cookie delay =>
    have hreset : s.handle (Service.resetMark key cookie delay) = some s' := h
    obtain ⟨-, ⟨-, rfl⟩ | ⟨-, rfl⟩⟩ := handle_cases hreset
    · exact hs
    · intro r hr i hi
      cases hr
      obtain ⟨t', ht', htype, hkey⟩ := hi
      obtain ⟨t, ht, htype', hkey', -⟩ := mark_cases ht'
      exact not_live_mark hcalm ⟨t, ht, htype'.symm.trans htype, by rw [← hkey']; exact hkey⟩
  | resetPush now =>
    rw [step, Service.resetPush] at h
    split at h
    · cases h
    · cases h
      intro r hr
      cases hr
  | take now => exact hworker (.inl ⟨now, rfl⟩)
  | check => exact hworker (.inr (.inl rfl))
  | pass => exact hworker (.inr (.inr (.inl rfl)))
  | finish now => exact hworker (.inr (.inr (.inr (.inl ⟨now, rfl⟩))))
  | terminate => exact hworker (.inr (.inr (.inr (.inr (.inl rfl)))))
  | clear => exact hworker (.inr (.inr (.inr (.inr (.inr rfl)))))

/-! ## Stops hold -/

theorem Key.same_self (key : Key) : key.same key = true := by
  rw [Key.same, (RouteT.same_iff _ _).2 rfl]
  simp

/-- A stop that finds no task in the hands of the worker silences the tasks it names. -/
theorem silent_of_stop {type : Typ} {key : Key} {s s1 s2 : Service} {post : List Label} (hcalm : ¬s.InHands type key)
    (hterm : s.isTerminating = false) (hstop : s.handle (Service.mark type key) = some s1)
    (hpost : Runs.exec step s1 post = some s2) : SilentBetween type key s s1 s2 := by
  obtain ⟨-, ⟨hterm', -⟩ | ⟨-, rfl⟩⟩ := handle_cases hstop
  · rw [hterm] at hterm'
    cases hterm'
  · intro i hi
    exact silent_of_not_live ((quiet_mark type key s).grows.length_le hi.lt) (not_live_mark hcalm hi) hpost

/-- A reset whose tasks are silent leaves the alarm it made. -/
theorem reset_one {s s1 : Service} {now : Int} {r : Reset} (hs : ResetQuiet s) (hr : s.resetting = some r)
    (h : step s (.resetPush now) = some s1) : ∃! i, s1.Unfired r.key i := by
  have hquiet := quiet_step h
  rw [step, Service.resetPush, hr] at h
  cases h
  have hnew : (s.tasks ++ [⟨.alarm, r.key, r.cookie, r.delay, false⟩])[s.tasks.length]? =
      some (⟨.alarm, r.key, r.cookie, r.delay, false⟩ : Task) := by simp
  refine ⟨s.tasks.length, ⟨⟨_, hnew, rfl, r.key.same_self⟩, .inl ⟨_, hnew, rfl, .inl (mem_pushBack.2 (.inl rfl))⟩⟩, ?_⟩
  intro j hj
  have hlt := hj.1.lt
  rcases Nat.lt_or_ge j s.tasks.length with hold | hge
  · exact absurd (hquiet.live j hold hj.live) (hs r hr j (hquiet.grows.has_before hold hj.1))
  · have hlen : (s.push .alarm r.key r.cookie r.delay now).tasks.length = s.tasks.length + 1 := List.length_append
    have hlt' : j < (s.push .alarm r.key r.cookie r.delay now).tasks.length := hlt
    omega

/-- In a run in which no request to stop finds a task with its kind and key in the hands of the worker, what was stopped is silent
from then on, and a reset leaves one alarm with its key. -/
theorem stopped_silent {run : List Label} (hcalm : Runs.Along step Calm .init run) : StopsHold run where
  stopTimer := by
    rintro pre key post s s1 s2 rfl hpre hterm hstop hpost
    obtain ⟨-, hrest⟩ := Runs.along_append hcalm hpre
    exact silent_of_stop hrest.1 hterm hstop hpost
  stopAlarm := by
    rintro pre key post s s1 s2 rfl hpre hterm hstop hpost
    obtain ⟨-, hrest⟩ := Runs.along_append hcalm hpre
    exact silent_of_stop hrest.1 hterm hstop hpost
  resetAlarm := by
    rintro pre now post r s s1 s2 rfl hpre hr hpush hpost
    obtain ⟨hbefore, -⟩ := Runs.along_append hcalm hpre
    have hinit : ResetQuiet .init := by
      intro r hr
      cases hr
    have hs : ResetQuiet s := Runs.exec_keeps (fun s l s' h hc hl => resetQuiet_step h hc hl) hinit hbefore hpre
    refine ⟨?_, reset_one hs hr hpush⟩
    have hquiet := quiet_step hpush
    intro i hi
    exact silent_of_not_live (hquiet.grows.length_le hi.lt) (fun h => hs r hr i hi (hquiet.live i hi.lt h)) hpost

/-- A key for examples. -/
def sampleKey : Key := ⟨1, "", [.localService ⟨1, by decide, by decide⟩]⟩

/-- A timer that is stopped while the worker fires it ticks. -/
theorem stopped_silent_false : ¬ ∀ run : List Label, StopsHold run := by
  intro h
  have hsilent := (h [.setTimer sampleKey 0 5 0, .take 5, .stopTimer sampleKey, .check, .pass]).stopTimer
    [.setTimer sampleKey 0 5 0, .take 5] sampleKey [.check, .pass] _ _ _ rfl rfl rfl rfl rfl
  have hticks := hsilent 0 ⟨_, rfl, rfl, sampleKey.same_self⟩
  exact absurd hticks (by decide)

theorem not_inHands_of_idle {s : Service} (h : s.worker = .idle) (type : Typ) (key : Key) : ¬s.InHands type key := by
  rintro ⟨i, -, ⟨t, -, -, hin | ⟨-, hin⟩⟩ | hnext⟩
  · rw [h] at hin
    cases hin
  · rw [h] at hin
    cases hin
  · rw [h] at hnext
    cases hnext

/-- An alarm is reset and fires, and a timer is stopped while it waits. -/
theorem stopped_silent_sample :
    StopsHold [.setAlarm sampleKey 0 5 0, .setTimer sampleKey 0 9 0, .resetAlarm sampleKey 0 5, .resetPush 1, .stopTimer sampleKey,
      .take 6, .check, .pass, .finish 7] := by
  refine stopped_silent ⟨trivial, ?_⟩
  rintro s1 h1
  cases h1
  refine ⟨trivial, ?_⟩
  rintro s2 h2
  cases h2
  refine ⟨not_inHands_of_idle rfl _ _, ?_⟩
  rintro s3 h3
  cases h3
  refine ⟨trivial, ?_⟩
  rintro s4 h4
  cases h4
  refine ⟨not_inHands_of_idle rfl _ _, ?_⟩
  rintro s5 -
  exact ⟨trivial, fun _ _ => ⟨trivial, fun _ _ => ⟨trivial, fun _ _ => ⟨trivial, fun _ _ => trivial⟩⟩⟩⟩

end Timer

end Grain
