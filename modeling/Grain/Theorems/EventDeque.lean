import Grain.EventDeque
import Mathlib.Data.List.ReduceOption

/-!
# Every event is handled once, and no thread sleeps while there is one

Whatever pushes, wakes and goes on, and in whatever order: the events that were taken, dropped by `deinit` and still in the queue
are those that were pushed, in their order, and each is handled by the thread that took it (`run_handled`). A push that finds a
thread between its look at the queue and its sleep is not lost: when all threads sleep and no push has still to signal, everything
that was pushed has been handled (`run_quiescent`). A listener with one thread comes to its end once `deinit` joins it
(`run_joins`); with two threads one may sleep for good (`two_workers_hang`).
-/

namespace Grain

namespace EventDeque

variable {E : Type} {n : Nat}

/-- What a thread has still to handle. -/
def Phase.batch : Phase E → List (Option E)
  | .handling e => e
  | _ => []

@[simp] theorem Phase.wake_batch (p : Phase E) : p.wake.batch = p.batch := by cases p <;> rfl

/-- `deinit` has not dropped the queue. -/
def Deinit.Early (d : Deinit) : Prop := d = .running ∨ d = .detached

namespace Listener

/-! ## What happened to the events -/

/-- Each pushed event was taken, dropped or is in the queue, in the order of the pushes; what a thread took it has handled or will
handle. The event that ends a thread comes alone. -/
structure Accounts (s : Listener E n) : Prop where
  attached : s.attached = true → s.deinit = .running
  early : s.deinit.Early → s.dropped = [] ∧ none ∉ s.container
  late : ¬ s.deinit.Early → s.container = [] ∨ s.container = [none]
  cleared : s.deinit = .cleared → s.container = []
  alone : ∀ w, none ∈ (s.worker w).batch → (s.worker w).batch = [none]
  all : (s.took.flatMap (·.2)).reduceOption ++ s.dropped.reduceOption ++ s.container.reduceOption = s.pushed
  each : ∀ w, s.handled w ++ (s.worker w).batch.reduceOption = ((s.took.filter (·.1 = w)).flatMap (·.2)).reduceOption

theorem accounts_init : Accounts ({} : Listener E n) :=
  ⟨fun _ => rfl, fun _ => ⟨rfl, List.not_mem_nil⟩, fun h => absurd (.inl rfl) h, fun _ => rfl,
    fun _ h => absurd h List.not_mem_nil, rfl, fun _ => rfl⟩

variable {s t : Listener E n}

/-- A step that leaves the logs, the queue and what the threads have to handle keeps it. -/
theorem Accounts.of_batch (h : Accounts s) (hc : t.container = s.container) (hp : t.pushed = s.pushed) (ht : t.took = s.took)
    (hd : t.dropped = s.dropped) (hh : t.handled = s.handled) (ha : t.attached = true → t.deinit = .running)
    (he : t.deinit.Early ↔ s.deinit.Early) (hcl : t.deinit = .cleared → s.deinit = .cleared)
    (halone : ∀ w, none ∈ (t.worker w).batch → (t.worker w).batch = [none])
    (hb : ∀ w, (t.worker w).batch.reduceOption = (s.worker w).batch.reduceOption) : Accounts t := by
  refine ⟨ha, fun hd' => ?_, fun hd' => ?_, fun hd' => ?_, halone, ?_, fun w => ?_⟩
  · rw [hd, hc]
    exact h.early (he.1 hd')
  · rw [hc]
    exact h.late fun hd => hd' (he.2 hd)
  · rw [hc]
    exact h.cleared (hcl hd')
  · rw [ht, hd, hc, hp]
    exact h.all
  · rw [hh, hb, ht]
    exact h.each w

theorem batch_move (w v : Fin n) (p : Phase E) : ((s.move w p).worker v).batch = if v = w then p.batch else (s.worker v).batch := by
  unfold move
  dsimp only
  by_cases hv : v = w
  · subst hv
    simp
  · simp [hv]

theorem Accounts.move (h : Accounts s) {w : Fin n} {p : Phase E} (hp : p.batch = (s.worker w).batch) : Accounts (s.move w p) := by
  have hb : ∀ v, ((s.move w p).worker v).batch = (s.worker v).batch := by
    intro v
    rw [batch_move]
    split
    · next hv => rw [hv, hp]
    · rfl
  exact h.of_batch rfl rfl rfl rfl rfl h.attached Iff.rfl id (fun v => by rw [hb]; exact h.alone v) fun v => by rw [hb]

theorem Accounts.broadcast (h : Accounts s) : Accounts s.broadcast := by
  have hb : ∀ v, (s.broadcast.worker v).batch = (s.worker v).batch := fun v => Phase.wake_batch _
  exact h.of_batch rfl rfl rfl rfl rfl h.attached Iff.rfl id (fun v => by rw [hb]; exact h.alone v) fun v => by rw [hb]

theorem Accounts.push (h : Accounts s) (e : E) : Accounts (s.push e) := by
  unfold Listener.push
  split
  · next ha =>
    have hearly : s.deinit.Early := .inl (h.attached ha)
    obtain ⟨hd, hnone⟩ := h.early hearly
    refine ⟨h.attached, fun _ => ⟨hd, ?_⟩, fun hl => absurd hearly hl, fun hcl => ?_, h.alone, ?_, h.each⟩
    · simpa using hnone
    · rw [h.attached ha] at hcl
      cases hcl
    · have hall := h.all
      dsimp only
      rw [List.reduceOption_append, ← List.append_assoc, hall]
      rfl
  · exact h

theorem Accounts.pop (h : Accounts s) {w : Fin n} (hw : (s.worker w).batch = []) : Accounts (s.pop w) := by
  unfold Listener.pop
  split
  · exact h.move hw.symm
  · split
    · exact h.move hw.symm
    · refine ⟨h.attached, fun he => ⟨(h.early he).1, List.not_mem_nil⟩, fun _ => .inl rfl, fun _ => rfl, fun v => ?_,
        ?_, fun v => ?_⟩
      · dsimp only
        rw [batch_move]
        split
        · intro hnone
          by_cases he : s.deinit.Early
          · exact absurd hnone (h.early he).2
          · rcases h.late he with hc | hc
            · rw [hc] at hnone
              exact absurd hnone List.not_mem_nil
            · exact hc
        · exact h.alone v
      · have hall := h.all
        change (List.flatMap (·.2) (s.took ++ [(w, s.container)])).reduceOption ++ s.dropped.reduceOption ++ [] = s.pushed
        rw [List.flatMap_append, List.flatMap_singleton, List.reduceOption_append]
        by_cases he : s.deinit.Early
        · rw [(h.early he).1] at hall ⊢
          simpa [List.append_assoc] using hall
        · have hnil : s.container.reduceOption = [] := by
            rcases h.late he with hc | hc <;> rw [hc] <;> rfl
          rw [hnil] at hall ⊢
          simpa using hall
      · change s.handled v ++ ((s.move w (.handling s.container)).worker v).batch.reduceOption =
          (List.flatMap (·.2) (List.filter (·.1 = v) (s.took ++ [(w, s.container)]))).reduceOption
        rw [batch_move, List.filter_append, List.flatMap_append, List.reduceOption_append, ← h.each v]
        by_cases hv : v = w
        · subst hv
          rw [if_pos rfl, hw]
          simp [Phase.batch]
        · have hne : ¬ w = v := fun h => hv h.symm
          simp [hv, hne]

theorem Accounts.work (h : Accounts s) (w : Fin n) : Accounts (s.work w) := by
  unfold Listener.work
  split
  · next hw =>
    split
    · exact h.move (by rw [hw]; rfl)
    · split
      · exact h.move (by rw [hw]; rfl)
      · exact h.move (by rw [hw]; rfl)
  · next hw =>
    split
    · exact h.pop (by rw [hw]; rfl)
    · exact h
  · next hw => exact h.move (by rw [hw]; rfl)
  · exact h
  · next hw =>
    split
    · exact h.pop (by rw [hw]; rfl)
    · exact h
  · next hw => exact h.move (by rw [hw]; rfl)
  · next e r hw =>
    -- an event is handled
    refine ⟨h.attached, h.early, h.late, h.cleared, fun v => ?_, h.all, fun v => ?_⟩
    · dsimp only
      rw [batch_move]
      split
      · intro hnone
        have halone := h.alone w
        rw [hw] at halone
        have := halone (List.mem_cons_of_mem _ hnone)
        cases this
      · exact h.alone v
    · change Function.update s.handled w (s.handled w ++ [e]) v ++ ((s.move w (.handling r)).worker v).batch.reduceOption =
        (List.flatMap (·.2) (List.filter (·.1 = v) s.took)).reduceOption
      rw [batch_move, ← h.each v]
      by_cases hv : v = w
      · subst hv
        rw [if_pos rfl, Function.update_self, hw]
        simp [Phase.batch, List.reduceOption_cons_of_some]
      · rw [if_neg hv, Function.update_of_ne hv]
  · next r hw =>
    -- the event that ends the thread is its last one
    have hlast : none :: r = [none] := by
      have halone := h.alone w
      rw [hw] at halone
      exact halone List.mem_cons_self
    refine h.of_batch rfl rfl rfl rfl rfl h.attached Iff.rfl id (fun v => ?_) fun v => ?_
    · rw [batch_move]
      split
      · exact fun hnone => absurd hnone List.not_mem_nil
      · exact h.alone v
    · rw [batch_move]
      split
      · next hv =>
        rw [hv, hw]
        unfold Phase.batch
        rw [hlast]
        rfl
      · rfl
  · exact h

theorem sleeps_batch {p : Phase E} (h : p.sleeps = true) : p.batch = [] := by
  cases p with
  | waiting => rfl
  | top | entering | deciding | woken | handling _ | exited => cases h

theorem Accounts.signal (h : Accounts s) {w : Fin n} (ht : s.signal w = some t) : Accounts t := by
  unfold Listener.signal at ht
  split at ht
  · next hw =>
    cases ht
    exact h.move (sleeps_batch hw).symm
  · split at ht
    · cases ht
      exact h
    · cases ht

/-- What a signal leaves. -/
theorem signal_fields {w : Fin n} (ht : s.signal w = some t) : t.container = s.container ∧ t.deinit = s.deinit ∧
    t.attached = s.attached ∧
    t.isTerminating = s.isTerminating ∧ t.listenerTerminating = s.listenerTerminating := by
  unfold Listener.signal at ht
  split at ht
  · cases ht
    exact ⟨rfl, rfl, rfl, rfl, rfl⟩
  · split at ht
    · cases ht
      exact ⟨rfl, rfl, rfl, rfl, rfl⟩
    · cases ht

/-- A statement of `deinit` that does not touch the queue. -/
theorem Accounts.later (h : Accounts s) {d : Deinit} (hs : ¬ s.deinit.Early) (hd : ¬ d.Early) (hne : d ≠ .cleared) (a b : Bool) :
    Accounts { s with deinit := d, listenerTerminating := a, isTerminating := b } :=
  h.of_batch rfl rfl rfl rfl rfl (fun ha => absurd (.inl (h.attached ha)) hs) ⟨fun he => absurd he hd, fun he => absurd he hs⟩
    (fun hcl => absurd hcl hne) h.alone fun _ => rfl

theorem not_early {d : Deinit} (h₁ : d ≠ .running) (h₂ : d ≠ .detached) : ¬ d.Early := fun h => h.elim h₁ h₂

theorem Accounts.deinitNext (h : Accounts s) (w : Fin n) : Accounts (s.deinitNext w) := by
  unfold Listener.deinitNext
  split
  · next hd =>
    exact h.of_batch rfl rfl rfl rfl rfl (fun ha => by cases ha) ⟨fun _ => .inl hd, fun _ => .inr rfl⟩ (fun hcl => by cases hcl)
      h.alone fun _ => rfl
  · next hd =>
    have hearly : s.deinit.Early := .inr hd
    split
    · refine ⟨fun ha => ?_, fun he => ?_, fun _ => .inl rfl, fun _ => rfl, h.broadcast.alone, ?_, h.broadcast.each⟩
      · have hrun := h.attached ha
        rw [hd] at hrun
        cases hrun
      · rcases he with he | he <;> cases he
      · have hall := h.all
        rw [(h.early hearly).1] at hall
        simpa [Listener.broadcast] using hall
    · exact h
  · next hd =>
    have hlate : ¬ s.deinit.Early := not_early (by rw [hd]; decide) (by rw [hd]; decide)
    split
    · have hnil := h.cleared hd
      refine ⟨fun ha => absurd (.inl (h.attached ha)) hlate, fun he =>
        absurd he (not_early (d := .pushed) (by decide) (by decide)), fun _ => .inr ?_,
        fun hcl => (by cases hcl), h.alone, ?_, h.each⟩
      · rw [hnil]
        rfl
      · have hall := h.all
        rw [hnil] at hall ⊢
        exact hall
    · exact h
  · next hd =>
    split
    · next t ht =>
      have hdt : t.deinit = .pushed := (signal_fields ht).2.1.trans hd
      exact (h.signal ht).later (not_early (by rw [hdt]; decide) (by rw [hdt]; decide)) (not_early (by decide) (by decide))
        (by decide)
        t.listenerTerminating t.isTerminating
    · exact h
  · next hd =>
    exact h.later (not_early (by rw [hd]; decide) (by rw [hd]; decide)) (not_early (by decide) (by decide))
      (by decide) true s.isTerminating
  · next hd =>
    exact h.later (not_early (by rw [hd]; decide) (by rw [hd]; decide)) (not_early (by decide) (by decide)) (by decide)
      s.listenerTerminating true
  · next hd =>
    exact h.broadcast.later (not_early (by rw [show s.broadcast.deinit = _ from hd]; decide)
      (by rw [show s.broadcast.deinit = _ from hd]; decide))
      (not_early (by decide) (by decide)) (by decide) s.listenerTerminating s.isTerminating
  · next hd =>
    exact h.broadcast.later (not_early (by rw [show s.broadcast.deinit = _ from hd]; decide)
      (by rw [show s.broadcast.deinit = _ from hd]; decide))
      (not_early (by decide) (by decide)) (by decide) s.listenerTerminating s.isTerminating
  · exact h

end Listener

/-! ## Runs -/

theorem accounts_step {s : Listener E n} (h : s.Accounts) (st : Step E n) : (st.run s).Accounts := by
  cases st with
  | push e =>
    unfold Step.run
    dsimp only
    split
    · exact h.push e
    · exact h
  | signal w =>
    unfold Step.run
    dsimp only
    split
    · exact h
    · split
      · next t ht =>
        have hacc := h.signal ht
        exact ⟨hacc.attached, hacc.early, hacc.late, hacc.cleared, hacc.alone, hacc.all, hacc.each⟩
      · exact h
  | wake w => exact h.move (Phase.wake_batch _)
  | work w => exact h.work w
  | deinit w => exact h.deinitNext w

theorem accounts_run (steps : List (Step E n)) : (run steps).Accounts := by
  induction steps using List.reverseRecOn with
  | nil => exact Listener.accounts_init
  | append_singleton l st ih =>
    unfold run at ih ⊢
    rw [List.foldl_append]
    exact accounts_step ih st

/-- The events of a listener, over any steps: those that were taken, that `deinit` dropped and that are in the queue are those that
were pushed, in their order; and a thread has handled what it took, in that order, or will. -/
theorem run_handled (steps : List (Step E n)) :
    ((run steps).took.flatMap (·.2)).reduceOption ++ (run steps).dropped.reduceOption ++ (run steps).container.reduceOption =
        (run steps).pushed ∧
      (∀ w, (run steps).handled w ++ ((run steps).worker w).batch.reduceOption =
        (((run steps).took.filter (·.1 = w)).flatMap (·.2)).reduceOption) ∧
      ((run steps).attached = true → (run steps).dropped = []) := by
  have h := accounts_run steps
  exact ⟨h.all, h.each, fun ha => (h.early (.inl (h.attached ha))).1⟩

/-- One thread handles the events in the order in which they were pushed. -/
theorem run_handled_one (steps : List (Step E 1)) :
    (run steps).handled 0 ++ ((run steps).worker 0).batch.reduceOption ++ (run steps).dropped.reduceOption ++
      (run steps).container.reduceOption = (run steps).pushed := by
  obtain ⟨hall, heach, -⟩ := run_handled steps
  have htook : (run steps).took.filter (·.1 = 0) = (run steps).took :=
    List.filter_eq_self.2 fun z _ => decide_eq_true (Subsingleton.elim _ _)
  rw [heach 0, htook, hall]

/-! ## No push is lost on a sleeping thread -/

namespace Listener

variable {s t : Listener E n}

/-- While `deinit` has not begun no thread ends; a thread under the lock has seen an empty queue; and while there is an event, some
push has still to signal or some thread is awake. -/
structure Wakes (s : Listener E n) : Prop where
  flags : s.deinit = .running → s.isTerminating = false ∧ s.listenerTerminating = false ∧ s.attached = true
  threads : s.deinit = .running → ∀ w, s.worker w ≠ .exited ∧ none ∉ (s.worker w).batch
  locked : ∀ w, (s.worker w).locks = true → s.container = []
  awake : s.deinit = .running → s.container ≠ [] → 0 < s.owed ∨ ∃ w, (s.worker w).sleeps = false

theorem wakes_init : Wakes ({} : Listener E n) :=
  ⟨fun _ => ⟨rfl, rfl, rfl⟩, fun _ _ => ⟨(by intro h; cases h), List.not_mem_nil⟩, fun _ h => (by cases h), fun _ h => absurd rfl h⟩

theorem worker_move (w v : Fin n) (p : Phase E) : (s.move w p).worker v = if v = w then p else s.worker v := by
  unfold move
  dsimp only
  by_cases hv : v = w
  · subst hv
    simp
  · simp [hv]

/-- A thread comes to a place where it is awake. -/
theorem Wakes.move (h : Wakes s) {w : Fin n} {p : Phase E} (hp : s.deinit = .running → p ≠ .exited ∧ none ∉ p.batch)
    (hl : p.locks = true → s.container = []) (hs : p.sleeps = false) : Wakes (s.move w p) := by
  refine ⟨h.flags, fun hd v => ?_, fun v => ?_, fun _ _ => .inr ⟨w, ?_⟩⟩
  · rw [worker_move]
    split
    · exact hp hd
    · exact h.threads hd v
  · rw [worker_move]
    split
    · exact hl
    · exact h.locked v
  · rw [worker_move, if_pos rfl]
    exact hs

/-- What a thread does after the start of `deinit` is of no concern. -/
theorem Wakes.of_ended (hd : t.deinit ≠ .running) (hl : ∀ w, (t.worker w).locks = true → t.container = []) : Wakes t :=
  ⟨fun h => absurd h hd, fun h => absurd h hd, hl, fun h => absurd h hd⟩

theorem Wakes.pop (h : Wakes s) (ha : Accounts s) (w : Fin n) : Wakes (s.pop w) := by
  unfold Listener.pop
  split
  · exact h.move (fun _ => ⟨(by intro hp; cases hp), List.not_mem_nil⟩) (fun hp => by cases hp) rfl
  · split
    · next hc => exact h.move (fun _ => ⟨(by intro hp; cases hp), List.not_mem_nil⟩) (fun _ => hc) rfl
    · refine ⟨h.flags, fun hd v => ?_, fun _ _ => rfl, fun _ hc => absurd rfl hc⟩
      dsimp only
      rw [worker_move]
      split
      · exact ⟨(by intro hp; cases hp), (ha.early (.inl hd)).2⟩
      · exact h.threads hd v

/-- A thread ends, but not before `deinit` has begun. -/
theorem Wakes.exit (h : Wakes s) {w : Fin n} (hd : s.deinit ≠ .running) : Wakes (s.move w .exited) :=
  h.move (fun hr => absurd hr hd) (fun hp => by cases hp) rfl

theorem Wakes.work (h : Wakes s) (ha : Accounts s) (w : Fin n) : Wakes (s.work w) := by
  unfold Listener.work
  split
  · split
    · next ht =>
      refine h.exit fun hd => ?_
      rw [(h.flags hd).2.1] at ht
      cases ht
    · split
      · exact h.move (fun _ => ⟨(by intro hp; cases hp), List.not_mem_nil⟩) (fun hp => by cases hp) rfl
      · next hat => exact h.exit fun hd => hat (h.flags hd).2.2
  · split
    · exact h.pop ha w
    · exact h
  · next hw =>
    -- the queue is as empty as the thread has seen it
    have hc : s.container = [] := h.locked w (by rw [hw]; rfl)
    refine ⟨h.flags, fun hd v => ?_, fun v => ?_, fun _ hne => absurd hc hne⟩
    · rw [worker_move]
      split
      · exact ⟨(by intro hp; cases hp), List.not_mem_nil⟩
      · exact h.threads hd v
    · rw [worker_move]
      split
      · exact fun hp => by cases hp
      · exact h.locked v
  · exact h
  · split
    · exact h.pop ha w
    · exact h
  · exact h.move (fun _ => ⟨(by intro hp; cases hp), List.not_mem_nil⟩) (fun hp => by cases hp) rfl
  · next e r hw =>
    have hmove : Wakes (s.move w (.handling r)) := by
      refine h.move (fun hd => ⟨(by intro hp; cases hp), fun hnone => ?_⟩) (fun hp => by cases hp) rfl
      refine (h.threads hd w).2 ?_
      rw [hw]
      exact List.mem_cons_of_mem _ hnone
    exact ⟨hmove.flags, hmove.threads, hmove.locked, hmove.awake⟩
  · next r hw =>
    refine h.exit fun hd => (h.threads hd w).2 ?_
    rw [hw]
    exact List.mem_cons_self
  · exact h

theorem Wakes.push (h : Wakes s) (hfree : s.Free) (e : E) : Wakes (s.push e) := by
  unfold Listener.push
  split
  · refine ⟨h.flags, h.threads, fun w hw => ?_, fun _ _ => .inl (Nat.succ_pos _)⟩
    rw [hfree w] at hw
    cases hw
  · exact h

theorem wake_sleeps (p : Phase E) : p.wake.sleeps = false := by cases p <;> rfl

theorem wake_locks (p : Phase E) : p.wake.locks = p.locks := by cases p <;> rfl

theorem wake_exited {p : Phase E} (h : p ≠ .exited) : p.wake ≠ .exited := by
  cases p with
  | exited => exact absurd rfl h
  | top | entering | deciding | waiting | woken | handling _ => intro hp; cases hp

theorem Wakes.wake (h : Wakes s) (w : Fin n) : Wakes (s.move w (s.worker w).wake) := by
  refine h.move (fun hd => ?_) (fun hl => ?_) (wake_sleeps _)
  · rw [Phase.wake_batch]
    exact ⟨wake_exited (h.threads hd w).1, (h.threads hd w).2⟩
  · rw [wake_locks] at hl
    exact h.locked w hl

/-- After a signal some thread is awake. -/
theorem Wakes.signal (h : Wakes s) {w : Fin n} (ht : s.signal w = some t) : Wakes t ∧ ∃ v, (t.worker v).sleeps = false := by
  unfold Listener.signal at ht
  split at ht
  · cases ht
    refine ⟨h.move (fun _ => ⟨(by intro hp; cases hp), List.not_mem_nil⟩) (fun hp => by cases hp) rfl, w, ?_⟩
    rw [worker_move, if_pos rfl]
    rfl
  · split at ht
    · next haw =>
      cases ht
      exact ⟨h, w, haw w⟩
    · cases ht

theorem Wakes.deinitNext (h : Wakes s) (w : Fin n) : Wakes (s.deinitNext w) := by
  unfold Listener.deinitNext
  split
  · exact .of_ended (by intro hd; cases hd) h.locked
  · split
    · exact .of_ended (by intro hd; cases hd) fun _ _ => rfl
    · exact h
  · split
    · next hfree =>
      refine .of_ended (by intro hd; cases hd) fun v hv => ?_
      rw [hfree v] at hv
      cases hv
    · exact h
  · split
    · next t ht => exact .of_ended (by intro hd; cases hd) (h.signal ht).1.locked
    · exact h
  · exact .of_ended (by intro hd; cases hd) h.locked
  · exact .of_ended (by intro hd; cases hd) h.locked
  · refine .of_ended (by intro hd; cases hd) fun v hv => h.locked v ?_
    rw [← wake_locks]
    exact hv
  · refine .of_ended (by intro hd; cases hd) fun v hv => h.locked v ?_
    rw [← wake_locks]
    exact hv
  · exact h

end Listener

theorem wakes_step {s : Listener E n} (h : s.Wakes) (ha : s.Accounts) (st : Step E n) : (st.run s).Wakes := by
  cases st with
  | push e =>
    unfold Step.run
    dsimp only
    split
    · next hfree => exact h.push hfree e
    · exact h
  | signal w =>
    unfold Step.run
    dsimp only
    split
    · exact h
    · split
      · next t ht =>
        obtain ⟨ht', hawake⟩ := h.signal ht
        exact ⟨ht'.flags, ht'.threads, ht'.locked, fun _ _ => .inr hawake⟩
      · exact h
  | wake w => exact h.wake w
  | work w => exact h.work ha w
  | deinit w => exact h.deinitNext w

theorem wakes_run (steps : List (Step E n)) : (run steps).Wakes := by
  induction steps using List.reverseRecOn with
  | nil => exact Listener.wakes_init
  | append_singleton l st ih =>
    have ha := accounts_run l
    unfold run at ih ha ⊢
    rw [List.foldl_append]
    exact wakes_step ih ha st

/-- Before `deinit` no thread has come to its end; and when all of them sleep and no push has still to signal, every event that was
pushed was taken, and every thread has handled what it took. -/
theorem run_quiescent (steps : List (Step E n)) (hd : (run steps).deinit = .running) :
    (∀ w, (run steps).worker w ≠ .exited) ∧ ((run steps).owed = 0 → (∀ w, (run steps).worker w = .waiting) →
      ((run steps).took.flatMap (·.2)).reduceOption = (run steps).pushed ∧
        ∀ w, (run steps).handled w = (((run steps).took.filter (·.1 = w)).flatMap (·.2)).reduceOption) := by
  have h := wakes_run steps
  have ha := accounts_run steps
  refine ⟨fun w => (h.threads hd w).1, fun howed hsleep => ?_⟩
  have hc : (run steps).container = [] := by
    by_contra hne
    rcases h.awake hd hne with hpos | ⟨w, hw⟩
    · omega
    · rw [hsleep w] at hw
      cases hw
  refine ⟨?_, fun w => ?_⟩
  · have hall := ha.all
    rw [(ha.early (.inl hd)).1, hc] at hall
    simpa using hall
  · rw [← ha.each w, hsleep w]
    simp [Phase.batch]

namespace Sample

/-- A thread falls asleep, an event is pushed and signalled, and the thread handles it and falls asleep again. -/
def oneEvent : List (Step Nat 1) :=
  [.work 0, .work 0, .work 0, .push 5, .signal 0, .work 0, .work 0, .work 0, .work 0, .work 0, .work 0]

end Sample

theorem run_quiescent_sample : (run Sample.oneEvent).pushed = [5] ∧
    ((run Sample.oneEvent).took.flatMap (·.2)).reduceOption = (run Sample.oneEvent).pushed ∧
      ∀ w, (run Sample.oneEvent).handled w = (((run Sample.oneEvent).took.filter (·.1 = w)).flatMap (·.2)).reduceOption :=
  ⟨rfl, (run_quiescent Sample.oneEvent rfl).2 rfl (by decide)⟩

/-! ## The end of a listener -/

/-- How many statements of `deinit` are done. -/
def Deinit.rank : Deinit → Nat
  | .running => 0
  | .detached => 1
  | .cleared => 2
  | .pushed => 3
  | .signalled => 4
  | .terminating => 5
  | .flagged => 6
  | .broadcast => 7
  | .joining => 8

namespace Listener

variable {s t : Listener E 1}

/-- Once the event that ends it is pushed, the one thread does not find the queue empty again; once it is signalled, it does not
sleep. -/
structure Ends (s : Listener E 1) : Prop where
  detached : 1 ≤ s.deinit.rank → s.attached = false
  cleared : s.deinit = .cleared → s.container = []
  last : 3 ≤ s.deinit.rank → s.container = [none] ∨ s.worker 0 = .handling [none] ∨ s.worker 0 = .exited
  decided : 3 ≤ s.deinit.rank → s.worker 0 ≠ .deciding
  awake : 4 ≤ s.deinit.rank → s.worker 0 ≠ .waiting
  terminating : 5 ≤ s.deinit.rank → s.listenerTerminating = true
  flagged : 6 ≤ s.deinit.rank → s.isTerminating = true

theorem ends_init : Ends ({} : Listener E 1) := by
  constructor <;> intro h <;> first | exact absurd h (by decide) | cases h

/-- The queue has the event that ends the thread, unless the thread has it or is at its end. -/
theorem Ends.container (h : Ends s) (hr : 3 ≤ s.deinit.rank) (h₁ : s.worker 0 ≠ .handling [none]) (h₂ : s.worker 0 ≠ .exited) :
    s.container = [none] :=
  ((h.last hr).resolve_right fun h => h.elim h₁ h₂)

theorem Ends.move (h : Ends s) {p : Phase E}
    (hlast : 3 ≤ s.deinit.rank → s.container = [none] ∨ p = .handling [none] ∨ p = .exited)
    (hdec : 3 ≤ s.deinit.rank → p ≠ .deciding) (hwait : 4 ≤ s.deinit.rank → p ≠ .waiting) : Ends (s.move 0 p) := by
  have hp : (s.move 0 p).worker 0 = p := by rw [worker_move, if_pos rfl]
  refine ⟨h.detached, h.cleared, fun hr => ?_, fun hr => ?_, fun hr => ?_, h.terminating, h.flagged⟩
  · rw [hp]
    exact hlast hr
  · rw [hp]
    exact hdec hr
  · rw [hp]
    exact hwait hr

theorem Ends.pop (h : Ends s) (h₁ : s.worker 0 ≠ .handling [none]) (h₂ : s.worker 0 ≠ .exited) : Ends (s.pop 0) := by
  unfold Listener.pop
  split
  · exact h.move (fun hr => .inl (h.container hr h₁ h₂)) (fun _ hp => by cases hp) fun _ hp => by cases hp
  · split
    · next hc =>
      have hfew : ¬ 3 ≤ s.deinit.rank := by
        intro hr
        rw [h.container hr h₁ h₂] at hc
        cases hc
      exact h.move (fun hr => absurd hr hfew) (fun hr => absurd hr hfew) fun _ hp => by cases hp
    · have hp : (s.move 0 (.handling s.container)).worker 0 = .handling s.container := by rw [worker_move, if_pos rfl]
      refine ⟨h.detached, fun _ => rfl, fun hr => .inr (.inl ?_), fun _ hd => ?_, fun _ hd => ?_, h.terminating, h.flagged⟩
      · dsimp only
        rw [hp, h.container hr h₁ h₂]
      · dsimp only at hd
        rw [hp] at hd
        cases hd
      · dsimp only at hd
        rw [hp] at hd
        cases hd

theorem Ends.work (h : Ends s) (w : Fin 1) : Ends (s.work w) := by
  obtain rfl : w = 0 := Subsingleton.elim w 0
  unfold Listener.work
  split
  · next hw =>
    have hc : 3 ≤ s.deinit.rank → s.container = [none] := fun hr =>
      h.container hr (by rw [hw]; intro hp; cases hp) (by rw [hw]; intro hp; cases hp)
    split
    · exact h.move (fun _ => .inr (.inr rfl)) (fun _ hp => by cases hp) fun _ hp => by cases hp
    · split
      · exact h.move (fun hr => .inl (hc hr)) (fun _ hp => by cases hp) fun _ hp => by cases hp
      · exact h.move (fun _ => .inr (.inr rfl)) (fun _ hp => by cases hp) fun _ hp => by cases hp
  · next hw =>
    split
    · exact h.pop (by rw [hw]; intro hp; cases hp) (by rw [hw]; intro hp; cases hp)
    · exact h
  · next hw =>
    have hfew : ¬ 3 ≤ s.deinit.rank := fun hr => h.decided hr hw
    exact h.move (fun hr => absurd hr hfew) (fun hr => absurd hr hfew) fun hr => absurd (by omega) hfew
  · exact h
  · next hw =>
    split
    · exact h.pop (by rw [hw]; intro hp; cases hp) (by rw [hw]; intro hp; cases hp)
    · exact h
  · next hw =>
    have hc : 3 ≤ s.deinit.rank → s.container = [none] := fun hr =>
      h.container hr (by rw [hw]; intro hp; cases hp) (by rw [hw]; intro hp; cases hp)
    exact h.move (fun hr => .inl (hc hr)) (fun _ hp => by cases hp) fun _ hp => by cases hp
  · next e r hw =>
    have hc : 3 ≤ s.deinit.rank → s.container = [none] := fun hr =>
      h.container hr (by rw [hw]; intro hp; cases hp) (by rw [hw]; intro hp; cases hp)
    have hmove : Ends (s.move 0 (.handling r)) :=
      h.move (fun hr => .inl (hc hr)) (fun _ hp => by cases hp) fun _ hp => by cases hp
    exact ⟨hmove.detached, hmove.cleared, hmove.last, hmove.decided, hmove.awake, hmove.terminating, hmove.flagged⟩
  · exact h.move (fun _ => .inr (.inr rfl)) (fun _ hp => by cases hp) fun _ hp => by cases hp
  · exact h

theorem wake_eq {p : Phase E} (h : p ≠ .waiting) : p.wake = p := by
  cases p with
  | waiting => exact absurd rfl h
  | top | entering | deciding | woken | handling _ | exited => rfl

theorem sleeps_eq {p : Phase E} (h : p.sleeps = true) : p = .waiting := by
  cases p with
  | waiting => rfl
  | top | entering | deciding | woken | handling _ | exited => cases h

theorem Ends.wake (h : Ends s) (w : Fin 1) : Ends (s.move w (s.worker w).wake) := by
  obtain rfl : w = 0 := Subsingleton.elim w 0
  by_cases hw : s.worker 0 = .waiting
  · rw [hw]
    have hc : 3 ≤ s.deinit.rank → s.container = [none] := fun hr =>
      h.container hr (by rw [hw]; intro hp; cases hp) (by rw [hw]; intro hp; cases hp)
    exact h.move (fun hr => .inl (hc hr)) (fun _ hp => by cases hp) fun _ hp => by cases hp
  · rw [wake_eq hw]
    exact h.move h.last h.decided h.awake

/-- After a signal the thread is awake. -/
theorem Ends.signal (h : Ends s) {w : Fin 1} (ht : s.signal w = some t) : Ends t ∧ t.worker 0 ≠ .waiting := by
  obtain rfl : w = 0 := Subsingleton.elim w 0
  unfold Listener.signal at ht
  split at ht
  · next hw =>
    cases ht
    have hwake := h.wake 0
    rw [sleeps_eq hw] at hwake
    refine ⟨hwake, ?_⟩
    rw [worker_move, if_pos rfl]
    intro hp
    cases hp
  · split at ht
    · next haw =>
      cases ht
      refine ⟨h, fun hw => ?_⟩
      have hsleep := haw 0
      rw [hw] at hsleep
      cases hsleep
    · cases ht

/-- A statement of `deinit` after the signal. -/
theorem Ends.later (h : Ends s) (hr : 4 ≤ s.deinit.rank) {d : Deinit} (hd : d ≠ .cleared) (a b : Bool) (ha : 5 ≤ d.rank → a = true)
    (hb : 6 ≤ d.rank → b = true) : Ends { s with deinit := d, listenerTerminating := a, isTerminating := b } :=
  ⟨fun _ => h.detached (by omega), fun hc => absurd hc hd, fun _ => h.last (by omega), fun _ => h.decided (by omega),
    fun _ => h.awake hr, ha, hb⟩

theorem Ends.broadcast (h : Ends s) (hr : 4 ≤ s.deinit.rank) : s.broadcast = s := by
  unfold Listener.broadcast
  have hworker : (fun w => (s.worker w).wake) = s.worker := by
    funext w
    obtain rfl : w = 0 := Subsingleton.elim w 0
    exact wake_eq (h.awake hr)
  rw [hworker]

theorem Ends.deinitNext (h : Ends s) (w : Fin 1) : Ends (s.deinitNext w) := by
  unfold Listener.deinitNext
  split
  · refine ⟨fun _ => rfl, fun hc => (by cases hc), ?_, ?_, ?_, ?_, ?_⟩ <;> intro hr <;> simp [Deinit.rank] at hr
  · next hd =>
    split
    · refine ⟨fun _ => h.detached (by rw [hd]; decide), fun _ => rfl, ?_, ?_, ?_, ?_, ?_⟩ <;> intro hr <;> simp [Deinit.rank] at hr
    · exact h
  · next hd =>
    split
    · next hfree =>
      refine ⟨fun _ => h.detached (by rw [hd]; decide), fun hc => (by cases hc), fun _ => .inl ?_, fun _ hw => ?_, ?_, ?_, ?_⟩
      · dsimp only
        rw [h.cleared hd]
        rfl
      · have hlock := hfree 0
        dsimp only at hw
        rw [hw] at hlock
        cases hlock
      all_goals
        intro hr
        simp [Deinit.rank] at hr
    · exact h
  · next hd =>
    split
    · next t ht =>
      obtain ⟨ht', hawake⟩ := h.signal ht
      have hrank : t.deinit.rank = 3 := by
        rw [(signal_fields ht).2.1, hd]
        rfl
      refine ⟨fun _ => ht'.detached (by omega), fun hc => (by cases hc), fun _ => ht'.last (by omega),
        fun _ => ht'.decided (by omega), fun _ => hawake, ?_, ?_⟩ <;> intro hr <;> simp [Deinit.rank] at hr
    · exact h
  · next hd =>
    exact h.later (by rw [hd]; decide) (by decide) true s.isTerminating (fun _ => rfl) fun hr => by simp [Deinit.rank] at hr
  · next hd =>
    exact h.later (by rw [hd]; decide) (by decide) s.listenerTerminating true
      (fun _ => h.terminating (by rw [hd]; decide)) fun _ => rfl
  · next hd =>
    have hr : 6 ≤ s.deinit.rank := by
      rw [hd]
      decide
    rw [h.broadcast (by omega)]
    exact h.later (by omega) (by decide) s.listenerTerminating s.isTerminating (fun _ => h.terminating (by omega))
      fun _ => h.flagged hr
  · next hd =>
    have hr : 6 ≤ s.deinit.rank := by
      rw [hd]
      decide
    rw [h.broadcast (by omega)]
    exact h.later (by omega) (by decide) s.listenerTerminating s.isTerminating (fun _ => h.terminating (by omega))
      fun _ => h.flagged hr
  · exact h

end Listener

theorem ends_step {s : Listener E 1} (h : s.Ends) (st : Step E 1) : (st.run s).Ends := by
  cases st with
  | push e =>
    unfold Step.run
    dsimp only
    split
    · unfold Listener.push
      split
      · next ha =>
        have hfew : ¬ 1 ≤ s.deinit.rank := by
          intro hr
          rw [h.detached hr] at ha
          cases ha
        refine ⟨fun hr => absurd hr hfew, fun hc => absurd (by rw [show s.deinit = .cleared from hc]; decide) hfew, ?_, ?_, ?_,
          ?_, ?_⟩ <;>
          intro hr <;> exact absurd (le_trans (by omega) hr) hfew
      · exact h
    · exact h
  | signal w =>
    unfold Step.run
    dsimp only
    split
    · exact h
    · split
      · next t ht =>
        have ht' := (h.signal ht).1
        exact ⟨ht'.detached, ht'.cleared, ht'.last, ht'.decided, ht'.awake, ht'.terminating, ht'.flagged⟩
      · exact h
  | wake w => exact h.wake w
  | work w => exact h.work w
  | deinit w => exact h.deinitNext w

theorem ends_run (steps : List (Step E 1)) : (run steps).Ends := by
  induction steps using List.reverseRecOn with
  | nil => exact Listener.ends_init
  | append_singleton l st ih =>
    unfold run at ih ⊢
    rw [List.foldl_append]
    exact ends_step ih st

/-- How many steps a thread takes to its end when nothing more is taken from the queue. -/
def Phase.left : Phase E → Nat
  | .top => 1
  | .entering => 3
  | .woken => 3
  | .handling e => e.length + 2
  | .deciding => 0
  | .waiting => 0
  | .exited => 0

/-- The step is one of the thread. -/
def Step.isWork : Step E n → Bool
  | .work _ => true
  | _ => false

theorem Phase.left_le (p : Phase E) : p.left ≤ p.batch.length + 3 := by
  cases p <;> simp [Phase.left, Phase.batch]

/-- While `deinit` joins the thread, each of its steps brings it nearer to its end, and no other step changes where it is. -/
theorem joining_step {s : Listener E 1} (h : s.Ends) (hd : s.deinit = .joining) (st : Step E 1) : (st.run s).deinit = .joining ∧
    ((st.run s).worker 0).left ≤ (s.worker 0).left - (if st.isWork then 1 else 0) := by
  have hrank : s.deinit.rank = 8 := by
    rw [hd]
    rfl
  have hwait := h.awake (by omega)
  cases st with
  | push e =>
    unfold Step.run
    dsimp only
    split
    · unfold Listener.push
      rw [h.detached (by omega)]
      exact ⟨hd, le_refl _⟩
    · exact ⟨hd, le_refl _⟩
  | signal w =>
    obtain rfl : w = 0 := Subsingleton.elim w 0
    unfold Step.run
    dsimp only
    split
    · exact ⟨hd, le_refl _⟩
    · split
      · next t ht =>
        have hs : (s.worker 0).sleeps ≠ true := fun hs => hwait (Listener.sleeps_eq hs)
        unfold Listener.signal at ht
        rw [if_neg hs] at ht
        split at ht
        · cases ht
          exact ⟨hd, le_refl _⟩
        · cases ht
      · exact ⟨hd, le_refl _⟩
  | wake w =>
    obtain rfl : w = 0 := Subsingleton.elim w 0
    unfold Step.run
    dsimp only
    rw [Listener.wake_eq hwait, Listener.worker_move, if_pos rfl]
    exact ⟨hd, le_refl _⟩
  | work w =>
    obtain rfl : w = 0 := Subsingleton.elim w 0
    unfold Step.run Listener.work
    dsimp only
    have hterm := h.terminating (by omega)
    have hflag := h.flagged (by omega)
    have hfree : s.Free := by
      intro v
      obtain rfl : v = 0 := Subsingleton.elim v 0
      have hdec := h.decided (by omega)
      cases hw : s.worker 0 with
      | deciding => exact absurd hw hdec
      | top | entering | waiting | woken | handling _ | exited => rfl
    have hpop : s.pop 0 = s.move 0 (.handling []) := by
      unfold Listener.pop
      rw [if_pos hflag]
    split
    · next hw =>
      rw [if_pos hterm, hw]
      refine ⟨hd, ?_⟩
      rw [Listener.worker_move, if_pos rfl]
      simp [Phase.left, Step.isWork]
    · next hw =>
      rw [if_pos hfree, hpop, hw]
      refine ⟨hd, ?_⟩
      rw [Listener.worker_move, if_pos rfl]
      simp [Phase.left, Step.isWork]
    · next hw => exact absurd hw (h.decided (by omega))
    · next hw => exact absurd hw hwait
    · next hw =>
      rw [if_pos hfree, hpop, hw]
      refine ⟨hd, ?_⟩
      rw [Listener.worker_move, if_pos rfl]
      simp [Phase.left, Step.isWork]
    · next hw =>
      rw [hw]
      refine ⟨hd, ?_⟩
      rw [Listener.worker_move, if_pos rfl]
      simp [Phase.left, Step.isWork]
    · next e r hw =>
      rw [hw]
      refine ⟨hd, ?_⟩
      dsimp only
      rw [Listener.worker_move, if_pos rfl]
      simp [Phase.left, Step.isWork]
    · next r hw =>
      rw [hw]
      refine ⟨hd, ?_⟩
      rw [Listener.worker_move, if_pos rfl]
      simp [Phase.left]
    · next hw =>
      rw [hw]
      exact ⟨hd, by simp [Phase.left]⟩
  | deinit w =>
    unfold Step.run Listener.deinitNext
    dsimp only
    rw [hd]
    exact ⟨hd, le_refl _⟩

/-- A listener with one thread comes to its end: once `deinit` joins the thread, what it has still to handle and three steps more
are the steps it takes at most, whatever else happens in between. -/
theorem run_joins (steps more : List (Step E 1)) (hd : (run steps).deinit = .joining)
    (hmore : ((run steps).worker 0).batch.length + 3 ≤ more.countP Step.isWork) : (run (steps ++ more)).worker 0 = .exited := by
  have hinv : ∀ more : List (Step E 1), (run (steps ++ more)).deinit = .joining ∧
      ((run (steps ++ more)).worker 0).left ≤ ((run steps).worker 0).left - more.countP Step.isWork := by
    intro more
    induction more using List.reverseRecOn with
    | nil =>
      rw [List.append_nil]
      exact ⟨hd, le_refl _⟩
    | append_singleton more st ih =>
      obtain ⟨hj, hle⟩ := joining_step (ends_run (steps ++ more)) ih.1 st
      have hrun : run (steps ++ (more ++ [st])) = st.run (run (steps ++ more)) := by
        unfold run
        rw [← List.append_assoc, List.foldl_append]
        rfl
      rw [hrun, List.countP_append, List.countP_singleton]
      refine ⟨hj, ?_⟩
      have hle' := ih.2
      omega
  obtain ⟨hj, hle⟩ := hinv more
  have hends := ends_run (steps ++ more)
  have hrank : (run (steps ++ more)).deinit.rank = 8 := by
    rw [hj]
    rfl
  have hzero : ((run (steps ++ more)).worker 0).left = 0 := by
    have hbound := ((run steps).worker 0).left_le
    omega
  cases hw : (run (steps ++ more)).worker 0 with
  | exited => rfl
  | deciding => exact absurd hw (hends.decided (by omega))
  | waiting => exact absurd hw (hends.awake (by omega))
  | top | entering | woken | handling _ =>
    rw [hw] at hzero
    simp [Phase.left] at hzero

namespace Sample

/-- An event is pushed and `deinit` runs while the thread is about to take it. -/
def stopped : List (Step Nat 1) :=
  [.work 0, .push 5, .deinit 0, .deinit 0, .deinit 0, .deinit 0, .deinit 0, .deinit 0, .deinit 0, .deinit 0]

end Sample

theorem run_joins_sample : (run (Sample.stopped ++ [.work 0, .signal 0, .work 0, .work 0])).worker 0 = .exited :=
  run_joins Sample.stopped [.work 0, .signal 0, .work 0, .work 0] rfl (by decide)

/-! ## Two threads -/

namespace Sample

/-- A listener with two threads: one takes the event that ends it, the other has looked at the queue and at the flag before `deinit`
sets it, and goes to sleep after the last broadcast. -/
def hang : List (Step Nat 2) :=
  [.work 0, .work 1, .deinit 0, .deinit 0, .deinit 0, .deinit 0, .work 0, .work 0, .work 1, .deinit 0, .deinit 0, .deinit 0,
    .deinit 0,
    .work 1]

end Sample

/-- What a step of a thread leaves. -/
theorem work_fields (s : Listener E n) (w : Fin n) : (s.work w).deinit = s.deinit ∧ (s.work w).attached = s.attached ∧
    (s.work w).owed = s.owed ∧ ∀ v, v ≠ w → (s.work w).worker v = s.worker v := by
  have hmove : ∀ p, (s.move w p).deinit = s.deinit ∧ (s.move w p).attached = s.attached ∧ (s.move w p).owed = s.owed ∧
      ∀ v, v ≠ w → (s.move w p).worker v = s.worker v := by
    refine fun p => ⟨rfl, rfl, rfl, fun v hv => ?_⟩
    rw [Listener.worker_move, if_neg hv]
  have hpop : (s.pop w).deinit = s.deinit ∧ (s.pop w).attached = s.attached ∧ (s.pop w).owed = s.owed ∧
      ∀ v, v ≠ w → (s.pop w).worker v = s.worker v := by
    unfold Listener.pop
    split
    · exact hmove _
    · split
      · exact hmove _
      · exact hmove _
  have hsame : s.deinit = s.deinit ∧ s.attached = s.attached ∧ s.owed = s.owed ∧ ∀ v, v ≠ w → s.worker v = s.worker v :=
    ⟨rfl, rfl, rfl, fun _ _ => rfl⟩
  unfold Listener.work
  split
  · split
    · exact hmove _
    · split
      · exact hmove _
      · exact hmove _
  · split
    · exact hpop
    · exact hsame
  · exact hmove _
  · exact hsame
  · split
    · exact hpop
    · exact hsame
  · exact hmove _
  · exact hmove _
  · exact hmove _
  · exact hsame

/-- With two threads `deinit` may join a thread that sleeps and that nothing wakes but a wake without a signal. -/
theorem two_workers_hang (more : List (Step Nat 2)) (h : ∀ st ∈ more, ∀ w, st = .wake w → w = 0) :
    (run (Sample.hang ++ more)).deinit = .joining ∧ (run (Sample.hang ++ more)).worker 1 = .waiting := by
  have hinv : (run (Sample.hang ++ more)).deinit = .joining ∧ (run (Sample.hang ++ more)).attached = false ∧
      (run (Sample.hang ++ more)).owed = 0 ∧ (run (Sample.hang ++ more)).worker 1 = .waiting := by
    induction more using List.reverseRecOn with
    | nil => exact ⟨rfl, rfl, rfl, rfl⟩
    | append_singleton more st ih =>
      obtain ⟨hd, ha, ho, hw⟩ := ih fun st' hst => h st' (List.mem_append_left _ hst)
      have hrun : run (Sample.hang ++ (more ++ [st])) = st.run (run (Sample.hang ++ more)) := by
        unfold run
        rw [← List.append_assoc, List.foldl_append]
        rfl
      rw [hrun]
      generalize run (Sample.hang ++ more) = s at hd ha ho hw
      cases st with
      | push e =>
        unfold Step.run Listener.push
        dsimp only
        rw [ha]
        simp only [Bool.false_eq_true, if_false, ite_self]
        exact ⟨hd, ha, ho, hw⟩
      | signal w =>
        unfold Step.run
        dsimp only
        rw [if_pos ho]
        exact ⟨hd, ha, ho, hw⟩
      | wake w =>
        obtain rfl := h (.wake w) (List.mem_append_right _ List.mem_cons_self) w rfl
        refine ⟨hd, ha, ho, ?_⟩
        unfold Step.run
        dsimp only
        rw [Listener.worker_move, if_neg (by decide)]
        exact hw
      | work w =>
        by_cases hw1 : w = 1
        · subst hw1
          unfold Step.run Listener.work
          dsimp only
          rw [hw]
          exact ⟨hd, ha, ho, hw⟩
        · obtain ⟨h₁, h₂, h₃, h₄⟩ := work_fields s w
          exact ⟨h₁.trans hd, h₂.trans ha, h₃.trans ho, (h₄ 1 fun h => hw1 h.symm).trans hw⟩
      | deinit w =>
        unfold Step.run Listener.deinitNext
        dsimp only
        rw [hd]
        exact ⟨hd, ha, ho, hw⟩
  exact ⟨hinv.1, hinv.2.2.2⟩

end EventDeque

end Grain
