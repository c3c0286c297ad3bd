import Grain.Mtjs

/-!
# Every promise is settled once, and none is forgotten by its alarm

Whatever the nodes answer, and in whatever order answers, blocks and alarms come: a promise is settled at most once, and a callback
of `tx_submit` is told of at most one end, as the last thing (`run_settles`). And whatever a program waits for has an alarm under
way that will end it (`run_timeouts`), with one exception: a callback that is told of the answer to its transaction and submits the
same transaction again gets a promise whose alarm is stopped (`resubmit_hangs`).
-/

namespace Grain

namespace Mtjs

/-! ## Tables -/

/-- The numbers in a table were given out, each for one key. -/
structure Numbered (m : StdMap String Nat) (made : Nat) : Prop where
  lt : ∀ (k : String) (p : Nat), m[k]? = some p → p < made
  inj : ∀ (k k' : String) (p : Nat), m[k]? = some p → m[k']? = some p → k = k'

namespace Numbered

variable {m : StdMap String Nat} {made n : Nat}

theorem empty : Numbered ∅ made :=
  ⟨fun k p h => by simp at h, fun k k' p h => by simp at h⟩

theorem mono (h : Numbered m made) (hle : made ≤ n) : Numbered m n :=
  ⟨fun k p hp => Nat.lt_of_lt_of_le (h.lt k p hp) hle, h.inj⟩

theorem of_sub {m' : StdMap String Nat} (h : Numbered m made)
    (hsub : ∀ (k : String) (p : Nat), m'[k]? = some p → m[k]? = some p) : Numbered m' made :=
  ⟨fun k p hp => h.lt k p (hsub k p hp), fun k k' p hp hp' => h.inj k k' p (hsub k p hp) (hsub k' p hp')⟩

/-- The entries of a table with the next number in it. -/
theorem next {m' : StdMap String Nat} (h : Numbered m made)
    (hnew : ∀ (k : String) (p : Nat), m'[k]? = some p → m[k]? = some p ∨ p = made)
    (hone : ∀ k k' : String, m'[k]? = some made → m'[k']? = some made → k = k') : Numbered m' (made + 1) := by
  constructor
  · intro k p hp
    rcases hnew k p hp with hp | rfl
    · exact Nat.lt_succ_of_lt (h.lt k p hp)
    · exact Nat.lt_succ_self p
  · intro k k' p hp hp'
    rcases hnew k p hp with h₁ | rfl
    · rcases hnew k' p hp' with h₂ | rfl
      · exact h.inj k k' p h₁ h₂
      · exact absurd (h.lt k p h₁) (Nat.lt_irrefl p)
    · exact hone k k' hp hp'

theorem erase (h : Numbered m made) (k : String) : Numbered (m.erase k) made := by
  refine h.of_sub fun k' p hp => ?_
  rw [Std.ExtTreeMap.getElem?_erase] at hp
  split at hp
  · cases hp
  · exact hp

end Numbered

theorem getElem?_insert_cases {m : StdMap String Nat} {k k' : String} {v p : Nat} (h : (m.insert k v)[k']? = some p) :
    k = k' ∧ p = v ∨ k ≠ k' ∧ m[k']? = some p := by
  rw [StdMap.getElem?_insert] at h
  by_cases hk : k = k'
  · rw [if_pos hk] at h
    exact .inl ⟨hk, (Option.some.inj h).symm⟩
  · rw [if_neg hk] at h
    exact .inr ⟨hk, h⟩

theorem getElem?_insertIfNew_cases {m : StdMap String Nat} {k k' : String} {v p : Nat} (h : (m.insertIfNew k v)[k']? = some p) :
    k = k' ∧ p = v ∨ m[k']? = some p := by
  rw [Std.ExtTreeMap.getElem?_insertIfNew] at h
  split at h
  · next hk => exact .inl ⟨Std.LawfulEqCmp.eq_of_compare hk.1, (Option.some.inj h).symm⟩
  · exact .inr h

theorem getElem?_erase_cases {m : StdMap String Nat} {k k' : String} {p : Nat} (h : (m.erase k)[k']? = some p) :
    k ≠ k' ∧ m[k']? = some p := by
  rw [Std.ExtTreeMap.getElem?_erase] at h
  split at h
  · cases h
  · next hk =>
    refine ⟨?_, h⟩
    rintro rfl
    exact hk Std.ReflCmp.compare_self

/-! ## Once -/

/-- What a callback was called with, the last first. -/
def MtjsOpaque.statuses (s : MtjsOpaque) (c : Nat) : List Status := (s.called.filter fun x => x.1 = c).map (·.2)

/-- The promises in the tables are not settled, and the callbacks there were told of no end, save the callback under the one key. -/
structure Kept (x : Option String) (s : MtjsOpaque) : Prop where
  reqs : Numbered s.nodeReqPromises s.made
  waits : Numbered s.txWaitPromises s.made
  cbs : Numbered s.nodeTxCb s.made
  apart : ∀ (k k' : String) (p : Nat), s.nodeReqPromises[k]? = some p → s.txWaitPromises[k']? = some p → False
  settledLt : ∀ y ∈ s.settled, y.1 < s.made
  once : (s.settled.map (·.1)).Nodup
  reqOpen : ∀ (k : String) (p : Nat), s.nodeReqPromises[k]? = some p → p ∉ s.settled.map (·.1)
  waitOpen : ∀ (k : String) (p : Nat), s.txWaitPromises[k]? = some p → p ∉ s.settled.map (·.1)
  calledLt : ∀ y ∈ s.called, y.1 < s.made
  cbOpen : ∀ (h : String) (c : Nat), some h ≠ x → s.nodeTxCb[h]? = some c → ∀ st ∈ s.statuses c, st = .submitted
  last : ∀ c, ∀ st ∈ (s.statuses c).tail, st = .submitted

namespace Kept

variable {x : Option String} {s : MtjsOpaque}

theorem init : Kept none {} where
  reqs := .empty
  waits := .empty
  cbs := .empty
  apart := fun k k' p h => by simp at h
  settledLt := List.forall_mem_nil _
  once := List.nodup_nil
  reqOpen := fun k p h => by simp at h
  waitOpen := fun k p h => by simp at h
  calledLt := List.forall_mem_nil _
  cbOpen := fun h c _ hc => by simp at hc
  last := fun c st h => by cases h

theorem sendTimer (h : Kept x s) (e : TimerEvent) : Kept x (s.sendTimer e) :=
    ⟨h.1, h.2, h.3, h.4, h.5, h.6, h.7, h.8, h.9, h.10, h.11⟩

/-- A new number is settled nowhere, and was called with nothing. -/
theorem fresh_settled (h : Kept x s) : s.made ∉ s.settled.map (·.1) := by
  intro hm
  obtain ⟨y, hy, heq⟩ := List.mem_map.1 hm
  exact absurd (h.settledLt y hy) (by omega)

theorem fresh_called (h : Kept x s) : s.statuses s.made = [] := by
  unfold MtjsOpaque.statuses
  rw [List.map_eq_nil_iff, List.filter_eq_nil_iff]
  intro y hy
  have := h.calledLt y hy
  simp only [decide_eq_true_eq]
  omega

theorem request (h : Kept x s) (hash : String) : Kept x (s.request hash) where
  reqs := by
    refine h.reqs.next (fun k p hp => ?_) fun k k' hp hp' => ?_
    · rcases getElem?_insert_cases hp with ⟨-, rfl⟩ | ⟨-, hp⟩
      · exact .inr rfl
      · exact .inl hp
    · rcases getElem?_insert_cases hp with ⟨rfl, -⟩ | ⟨-, hp⟩
      · rcases getElem?_insert_cases hp' with ⟨hk, -⟩ | ⟨-, hp'⟩
        · exact hk
        · exact absurd (h.reqs.lt k' _ hp') (Nat.lt_irrefl _)
      · exact absurd (h.reqs.lt k _ hp) (Nat.lt_irrefl _)
  waits := h.waits.mono (Nat.le_succ _)
  cbs := h.cbs.mono (Nat.le_succ _)
  apart := fun k k' p hp hp' => by
    rcases getElem?_insert_cases hp with ⟨-, rfl⟩ | ⟨-, hp⟩
    · exact absurd (h.waits.lt k' _ hp') (Nat.lt_irrefl _)
    · exact h.apart k k' p hp hp'
  settledLt := fun y hy => Nat.lt_succ_of_lt (h.settledLt y hy)
  once := h.once
  reqOpen := fun k p hp => by
    rcases getElem?_insert_cases hp with ⟨-, rfl⟩ | ⟨-, hp⟩
    · exact h.fresh_settled
    · exact h.reqOpen k p hp
  waitOpen := h.waitOpen
  calledLt := fun y hy => Nat.lt_succ_of_lt (h.calledLt y hy)
  cbOpen := h.cbOpen
  last := h.last

/-- The table of callbacks gets a new one, unless there is one under the key. -/
theorem newCb (h : Kept x s) (hash : String) :
    Kept x { s with nodeTxCb := s.nodeTxCb.insertIfNew hash s.made, made := s.made + 1 } where
  reqs := h.reqs.mono (Nat.le_succ _)
  waits := h.waits.mono (Nat.le_succ _)
  cbs := by
    refine h.cbs.next (fun k p hp => ?_) fun k k' hp hp' => ?_
    · rcases getElem?_insertIfNew_cases hp with ⟨-, rfl⟩ | hp
      · exact .inr rfl
      · exact .inl hp
    · rcases getElem?_insertIfNew_cases hp with ⟨rfl, -⟩ | hp
      · rcases getElem?_insertIfNew_cases hp' with ⟨hk, -⟩ | hp'
        · exact hk
        · exact absurd (h.cbs.lt k' _ hp') (Nat.lt_irrefl _)
      · exact absurd (h.cbs.lt k _ hp) (Nat.lt_irrefl _)
  apart := h.apart
  settledLt := fun y hy => Nat.lt_succ_of_lt (h.settledLt y hy)
  once := h.once
  reqOpen := h.reqOpen
  waitOpen := h.waitOpen
  calledLt := fun y hy => Nat.lt_succ_of_lt (h.calledLt y hy)
  cbOpen := fun k c hx hc => by
    rcases getElem?_insertIfNew_cases hc with ⟨-, rfl⟩ | hc
    · intro st hst
      have hold : st ∈ s.statuses s.made := hst
      rw [h.fresh_called] at hold
      cases hold
    · exact h.cbOpen k c hx hc
  last := h.last

theorem txSubmit (h : Kept x s) (hash : String) : Kept x (s.txSubmit hash) :=
  ((h.sendTimer (.setAlarm .txWaitBlock hash)).newCb hash).request hash

theorem txWaitBlock (h : Kept x s) (key : String) : Kept x (s.txWaitBlock key) := by
  unfold MtjsOpaque.txWaitBlock
  split
  · exact h
  constructor
  · exact h.reqs.mono (Nat.le_succ _)
  · refine h.waits.next (fun k p hp => ?_) fun k k' hp hp' => ?_
    · rcases getElem?_insert_cases hp with ⟨-, rfl⟩ | ⟨-, hp⟩
      · exact .inr rfl
      · exact .inl hp
    · rcases getElem?_insert_cases hp with ⟨rfl, -⟩ | ⟨-, hp⟩
      · rcases getElem?_insert_cases hp' with ⟨hk, -⟩ | ⟨-, hp'⟩
        · exact hk
        · exact absurd (h.waits.lt k' _ hp') (Nat.lt_irrefl _)
      · exact absurd (h.waits.lt k _ hp) (Nat.lt_irrefl _)
  · exact h.cbs.mono (Nat.le_succ _)
  · intro k k' p hp hp'
    rcases getElem?_insert_cases hp' with ⟨-, rfl⟩ | ⟨-, hp'⟩
    · exact absurd (h.reqs.lt k _ hp) (Nat.lt_irrefl _)
    · exact h.apart k k' p hp hp'
  · exact fun y hy => Nat.lt_succ_of_lt (h.settledLt y hy)
  · exact h.once
  · exact h.reqOpen
  · intro k p hp
    rcases getElem?_insert_cases hp with ⟨-, rfl⟩ | ⟨-, hp⟩
    · exact h.fresh_settled
    · exact h.waitOpen k p hp
  · exact fun y hy => Nat.lt_succ_of_lt (h.calledLt y hy)
  · exact h.cbOpen
  · exact h.last

theorem call (h : Kept x s) (c : Call) : Kept x (c.run s) := by
  cases c with
  | request hash => exact h.request hash
  | txSubmit hash => exact h.txSubmit hash
  | txWaitBlock key => exact h.txWaitBlock key
  | txSubscribe => exact ⟨h.1, h.2, h.3, h.4, h.5, h.6, h.7, h.8, h.9, h.10, h.11⟩
  | txUnsubscribe => exact ⟨h.1, h.2, h.3, h.4, h.5, h.6, h.7, h.8, h.9, h.10, h.11⟩

theorem code (h : Kept x s) (calls : List Call) : Kept x (s.code calls) := by
  induction calls generalizing s with
  | nil => exact h
  | cons c calls ih => exact ih (h.call c)

theorem settleReq (h : Kept x s) {hash : String} {p : Nat} (hp : s.nodeReqPromises[hash]? = some p) (b : Bool) :
    Kept x (s.settleReq hash p b) where
  reqs := h.reqs.erase hash
  waits := h.waits
  cbs := h.cbs
  apart := fun k k' q hq hq' => h.apart k k' q (getElem?_erase_cases hq).2 hq'
  settledLt := List.forall_mem_cons.2 ⟨h.reqs.lt hash p hp, h.settledLt⟩
  once := List.nodup_cons.2 ⟨h.reqOpen hash p hp, h.once⟩
  reqOpen := fun k q hq => by
    obtain ⟨hne, hkept⟩ := getElem?_erase_cases hq
    refine List.not_mem_cons_of_ne_of_not_mem ?_ (h.reqOpen k q hkept)
    rintro rfl
    exact hne (h.reqs.inj hash k q hp hkept)
  waitOpen := fun k q hq => by
    refine List.not_mem_cons_of_ne_of_not_mem ?_ (h.waitOpen k q hq)
    rintro rfl
    exact h.apart hash k q hp hq
  calledLt := h.calledLt
  cbOpen := h.cbOpen
  last := h.last

theorem settleWait (h : Kept x s) {key : String} {p : Nat} (hp : s.txWaitPromises[key]? = some p) (b : Bool) :
    Kept x (s.settleWait key p b) where
  reqs := h.reqs
  waits := h.waits.erase key
  cbs := h.cbs
  apart := fun k k' q hq hq' => h.apart k k' q hq (getElem?_erase_cases hq').2
  settledLt := List.forall_mem_cons.2 ⟨h.waits.lt key p hp, h.settledLt⟩
  once := List.nodup_cons.2 ⟨h.waitOpen key p hp, h.once⟩
  reqOpen := fun k q hq => by
    refine List.not_mem_cons_of_ne_of_not_mem ?_ (h.reqOpen k q hq)
    rintro rfl
    exact h.apart k key q hq hp
  waitOpen := fun k q hq => by
    obtain ⟨hne, hkept⟩ := getElem?_erase_cases hq
    refine List.not_mem_cons_of_ne_of_not_mem ?_ (h.waitOpen k q hkept)
    rintro rfl
    exact hne (h.waits.inj key k q hp hkept)
  calledLt := h.calledLt
  cbOpen := h.cbOpen
  last := h.last

/-- A callback in the table is called. -/
theorem tell (h : Kept none s) {hash : String} {c : Nat} (hc : s.nodeTxCb[hash]? = some c) (st : Status) :
    Kept (if st = .submitted then none else some hash) { s with called := (c, st) :: s.called } := by
  have hsame : MtjsOpaque.statuses { s with called := (c, st) :: s.called } c = st :: s.statuses c := by
    unfold MtjsOpaque.statuses
    rw [List.filter_cons_of_pos (by simp)]
    rfl
  have hother : ∀ d, d ≠ c → MtjsOpaque.statuses { s with called := (c, st) :: s.called } d = s.statuses d := fun d hd => by
    unfold MtjsOpaque.statuses
    rw [List.filter_cons_of_neg (by simpa using Ne.symm hd)]
  refine ⟨h.reqs, h.waits, h.cbs, h.apart, h.settledLt, h.once, h.reqOpen, h.waitOpen,
    List.forall_mem_cons.2 ⟨h.cbs.lt hash c hc, h.calledLt⟩, fun k d hx hd => ?_, fun d => ?_⟩
  · by_cases hdc : d = c
    · subst hdc
      obtain rfl := h.cbs.inj k hash d hd hc
      rw [hsame]
      have hst : st = .submitted := by
        by_contra hne
        rw [if_neg hne] at hx
        exact hx rfl
      exact List.forall_mem_cons.2 ⟨hst, h.cbOpen k d (by simp) hd⟩
    · rw [hother d hdc]
      exact h.cbOpen k d (by simp) hd
  · by_cases hdc : d = c
    · subst hdc
      rw [hsame]
      exact h.cbOpen hash d (by simp) hc
    · rw [hother d hdc]
      exact h.last d

/-- The callback that was told of its end is forgotten. -/
theorem eraseTxCb {hash : String} (h : Kept (some hash) s) : Kept none (s.eraseTxCb hash) where
  reqs := h.reqs
  waits := h.waits
  cbs := h.cbs.erase hash
  apart := h.apart
  settledLt := h.settledLt
  once := h.once
  reqOpen := h.reqOpen
  waitOpen := h.waitOpen
  calledLt := h.calledLt
  cbOpen := fun k c _ hc => by
    obtain ⟨hne, hc⟩ := getElem?_erase_cases hc
    exact h.cbOpen k c (fun heq => hne (Option.some.inj heq).symm) hc
  last := h.last

/-- A callback is told of its end and forgotten. -/
theorem tellEnd (h : Kept none s) {hash : String} {c : Nat} (hc : s.nodeTxCb[hash]? = some c) {st : Status} (hst : st ≠ .submitted)
    (calls : List Call) : Kept none ((s.callback c st calls).eraseTxCb hash) := by
  have htold := h.tell hc st
  rw [if_neg hst] at htold
  exact (htold.code calls).eraseTxCb

theorem addTxRSP (h : Kept none s) (hash : String) (errcode : Bool) (calls : Nat → List Call) :
    Kept none (s.addTxRSP hash errcode calls) := by
  unfold MtjsOpaque.addTxRSP
  split
  · exact h
  · next p hp =>
    have hs := h.settleReq hp true
    refine Kept.sendTimer ?_ _
    split
    · exact hs
    · next c hc =>
      split
      · exact (hs.tellEnd hc (by decide) (calls c)).sendTimer _
      · exact (hs.tell hc .submitted).code (calls c)

theorem clientMsgReply (h : Kept none s) (hash : String) (reply : Option Bool) : Kept none (s.clientMsgReply hash reply) := by
  unfold MtjsOpaque.clientMsgReply
  split
  · exact h
  · next p hp =>
    split
    · exact h
    · exact (h.settleReq hp _).sendTimer _

theorem tickAlarm (h : Kept none s) (tid : Timers) (data : String) (calls : Nat → List Call) :
    Kept none (s.tickAlarm tid data calls) := by
  unfold MtjsOpaque.tickAlarm
  cases tid with
  | clientMsgTimedout =>
    dsimp only
    split
    · exact h
    · next p hp => exact h.settleReq hp false
  | txWaitBlock =>
    dsimp only
    cases hw : s.txWaitPromises[data]? with
    | none =>
      dsimp only
      split
      · exact h
      · next c hc => exact h.tellEnd hc (by decide) (calls c)
    | some p =>
      have hs := h.settleWait hw false
      dsimp only
      split
      · exact hs
      · next c hc => exact hs.tellEnd hc (by decide) (calls c)

theorem resolveWait (h : Kept none s) (key : String) : Kept none (s.resolveWait key) := by
  unfold MtjsOpaque.resolveWait
  split
  · exact h
  · next p hp => exact (h.settleWait hp true).sendTimer _

theorem finalize (h : Kept none s) (calls : Nat → List Call) (txHash : String) : Kept none (s.finalize calls txHash) := by
  unfold MtjsOpaque.finalize
  have hs := h.resolveWait (base16Encode txHash)
  dsimp only
  split
  · exact hs
  · next c hc => exact (hs.tellEnd hc (by decide) (calls c)).sendTimer _

theorem clientTxSubscribeRSP (h : Kept none s) (txHashes : List String) (calls : Nat → List Call) (onBlock : List Call) :
    Kept none (s.clientTxSubscribeRSP txHashes calls onBlock) := by
  have hall : Kept none (txHashes.foldl (MtjsOpaque.finalize calls) s) := by
    induction txHashes generalizing s with
    | nil => exact h
    | cons z zs ih => exact ih (h.finalize calls z)
  unfold MtjsOpaque.clientTxSubscribeRSP
  dsimp only
  split
  · exact (hall.resolveWait "next:").code onBlock
  · exact hall.resolveWait "next:"

end Kept

theorem kept_step {s : Client} (h : Kept none s.state) (st : Step) : Kept none (st.run s).state := by
  cases st with
  | code calls => exact h.code calls
  | addTxRSP hash errcode calls => exact h.addTxRSP hash errcode calls
  | clientMsgReply hash reply => exact h.clientMsgReply hash reply
  | clientTxSubscribeRSP txHashes calls onBlock => exact h.clientTxSubscribeRSP txHashes calls onBlock
  | timer =>
    unfold Step.run
    dsimp only
    split
    · exact h
    · exact ⟨h.1, h.2, h.3, h.4, h.5, h.6, h.7, h.8, h.9, h.10, h.11⟩
  | goesOff i =>
    unfold Step.run
    dsimp only
    split
    · exact h
    · exact h
  | tickAlarm i calls =>
    unfold Step.run
    dsimp only
    split
    · exact h
    · exact h.tickAlarm _ _ calls

theorem kept_run (steps : List Step) : Kept none (run steps).state := by
  induction steps using List.reverseRecOn with
  | nil => exact Kept.init
  | append_singleton steps st ih =>
    unfold run at ih ⊢
    rw [List.foldl_append]
    exact kept_step ih st

/-- Whatever comes: no promise is settled twice, and what is in the tables is not settled; a callback is told of an end at most
once, by the last of its calls, and one that is in the table was told of none. -/
theorem run_settles (steps : List Step) :
    let s := (run steps).state
    (s.settled.map (·.1)).Nodup ∧
      (∀ (k : String) (p : Nat), s.nodeReqPromises[k]? = some p ∨ s.txWaitPromises[k]? = some p → p ∉ s.settled.map (·.1)) ∧
      (∀ c, ∀ st ∈ (s.statuses c).tail, st = .submitted) ∧
      ∀ (h : String) (c : Nat), s.nodeTxCb[h]? = some c → ∀ st ∈ s.statuses c, st = .submitted := by
  intro s
  have h : Kept none s := kept_run steps
  exact ⟨h.once, fun k p hp => hp.elim (h.reqOpen k p) (h.waitOpen k p), h.last, fun k c hc => h.cbOpen k c (by simp) hc⟩

/-! ## Alarms -/

/-- The alarm will be set once the events on the way are handled, or its tick is on the way. -/
def Armed (alarms ticks : List (Timers × String)) (evs : List TimerEvent) (a : Timers × String) : Prop :=
  a ∈ ticks ∨ a ∈ evs.foldl handleTimer alarms

section
variable {alarms ticks : List (Timers × String)} {evs : List TimerEvent} {a : Timers × String}

theorem Armed.set (h : Armed alarms ticks evs a) (tid : Timers) (data : String) :
    Armed alarms ticks (evs ++ [.setAlarm tid data]) a := by
  refine h.imp_right fun hm => ?_
  rw [List.foldl_append]
  exact List.mem_append_left _ hm

theorem armed_new (tid : Timers) (data : String) : Armed alarms ticks (evs ++ [.setAlarm tid data]) (tid, data) := by
  right
  rw [List.foldl_append]
  exact List.mem_append_right _ List.mem_cons_self

theorem Armed.stop (h : Armed alarms ticks evs a) {tid : Timers} {data : String} (hne : a ≠ (tid, data)) :
    Armed alarms ticks (evs ++ [.stopAlarm tid data]) a := by
  refine h.imp_right fun hm => ?_
  rw [List.foldl_append]
  exact List.mem_filter.2 ⟨hm, by simpa using hne⟩

theorem Armed.erase_tick {i : Nat} {b : Timers × String} (h : Armed alarms ticks evs a) (hb : ticks[i]? = some b) (hne : a ≠ b) :
    Armed alarms (ticks.eraseIdx i) evs a := by
  refine h.imp_left fun hm => ?_
  obtain ⟨j, hj⟩ := List.mem_iff_getElem?.1 hm
  refine List.mem_eraseIdx_iff_getElem?.2 ⟨j, fun heq => hne ?_, hj⟩
  rw [heq, hb] at hj
  exact (Option.some.inj hj).symm

/-- An alarm that is set stays, but for one that goes off. -/
theorem mem_foldl_eraseIdx (i : Nat) (h : a ∈ evs.foldl handleTimer alarms) :
    alarms[i]? = some a ∨ a ∈ evs.foldl handleTimer (alarms.eraseIdx i) := by
  have hmono : ∀ (evs : List TimerEvent) (l l' : List (Timers × String)), (a ∈ l → a ∈ l') →
      a ∈ evs.foldl handleTimer l → a ∈ evs.foldl handleTimer l' := by
    intro evs
    induction evs with
    | nil => exact fun l l' hl => hl
    | cons e evs ih =>
      refine fun l l' hl => ih _ _ ?_
      cases e with
      | setAlarm tid data =>
        exact fun hm => (List.mem_append.1 hm).elim (fun hm => List.mem_append_left _ (hl hm)) (List.mem_append_right _)
      | stopAlarm tid data => exact fun hm => List.mem_filter.2 ⟨hl (List.mem_filter.1 hm).1, (List.mem_filter.1 hm).2⟩
  by_cases hi : alarms[i]? = some a
  · exact .inl hi
  · refine .inr (hmono evs alarms _ (fun hm => ?_) h)
    obtain ⟨j, hj⟩ := List.mem_iff_getElem?.1 hm
    exact List.mem_eraseIdx_iff_getElem?.2 ⟨j, fun heq => hi (heq ▸ hj), hj⟩

end

theorem MtjsOpaque.settleReq_erased (s : MtjsOpaque) (hash : String) (p : Nat) (b : Bool) :
    (s.settleReq hash p b).nodeReqPromises[hash]? = none := by
  unfold MtjsOpaque.settleReq
  simp

theorem MtjsOpaque.settleWait_erased (s : MtjsOpaque) (key : String) (p : Nat) (b : Bool) :
    (s.settleWait key p b).txWaitPromises[key]? = none := by
  unfold MtjsOpaque.settleWait
  simp

/-- What is in the tables has its alarm, save the callback under the one key. -/
structure Timed (alarms ticks : List (Timers × String)) (x : Option String) (s : MtjsOpaque) : Prop where
  reqs : ∀ (k : String) (p : Nat), s.nodeReqPromises[k]? = some p →
    k.length = 32 ∧ Armed alarms ticks s.toTimer (.clientMsgTimedout, k)
  cbs : ∀ (k : String) (c : Nat), s.nodeTxCb[k]? = some c →
    k.length = 32 ∧ (some k ≠ x → Armed alarms ticks s.toTimer (.txWaitBlock, k))
  waits : ∀ (k : String) (p : Nat), s.txWaitPromises[k]? = some p →
    k.length ≠ 32 ∧ Armed alarms ticks s.toTimer (.txWaitBlock, k)

/-- A hash is 32 bytes long, and the key of `tx_wait_block` is not. -/
def Call.Proper : Call → Prop
  | .request hash => hash.length = 32
  | .txSubmit hash => hash.length = 32
  | .txWaitBlock key => key.length ≠ 32
  | .txSubscribe => True
  | .txUnsubscribe => True

/-- The call makes a request under the hash. -/
def Call.Asks (hash : String) : Call → Prop
  | .request h => h = hash
  | .txSubmit h => h = hash
  | .txWaitBlock _ => False
  | .txSubscribe => False
  | .txUnsubscribe => False

namespace Timed

variable {alarms ticks : List (Timers × String)} {x : Option String} {s : MtjsOpaque}

theorem set (h : Timed alarms ticks x s) (tid : Timers) (data : String) :
    Timed alarms ticks x (s.sendTimer (.setAlarm tid data)) where
  reqs := fun k p hp => ⟨(h.reqs k p hp).1, (h.reqs k p hp).2.set tid data⟩
  cbs := fun k c hc => ⟨(h.cbs k c hc).1, fun hx => ((h.cbs k c hc).2 hx).set tid data⟩
  waits := fun k p hp => ⟨(h.waits k p hp).1, (h.waits k p hp).2.set tid data⟩

theorem request (h : Timed alarms ticks x s) {hash : String} (hlen : hash.length = 32) : Timed alarms ticks x (s.request hash) where
  reqs := fun k p hp => by
    rcases getElem?_insert_cases hp with ⟨rfl, -⟩ | ⟨-, hp⟩
    · exact ⟨hlen, armed_new _ _⟩
    · exact (h.set _ _).reqs k p hp
  cbs := (h.set .clientMsgTimedout hash).cbs
  waits := (h.set .clientMsgTimedout hash).waits

theorem call (h : Timed alarms ticks x s) {c : Call} (hc : c.Proper) : Timed alarms ticks x (c.run s) := by
  cases c with
  | request hash => exact h.request hc
  | txSubmit hash =>
    have hnew : Timed alarms ticks x { s.sendTimer (.setAlarm .txWaitBlock hash) with
        nodeTxCb := s.nodeTxCb.insertIfNew hash s.made, made := s.made + 1 } := by
      refine ⟨(h.set .txWaitBlock hash).reqs, fun k c hk => ?_, (h.set .txWaitBlock hash).waits⟩
      rcases getElem?_insertIfNew_cases hk with ⟨rfl, -⟩ | hk
      · exact ⟨hc, fun _ => armed_new _ _⟩
      · exact (h.set .txWaitBlock hash).cbs k c hk
    exact hnew.request hc
  | txWaitBlock key =>
    show Timed alarms ticks x (s.txWaitBlock key)
    unfold MtjsOpaque.txWaitBlock
    split
    · exact h
    refine ⟨(h.set .txWaitBlock key).reqs, (h.set .txWaitBlock key).cbs, fun k p hp => ?_⟩
    rcases getElem?_insert_cases hp with ⟨rfl, -⟩ | ⟨-, hp⟩
    · exact ⟨hc, armed_new _ _⟩
    · exact (h.set .txWaitBlock key).waits k p hp
  | txSubscribe => exact ⟨h.1, h.2, h.3⟩
  | txUnsubscribe => exact ⟨h.1, h.2, h.3⟩

theorem code (h : Timed alarms ticks x s) {calls : List Call} (hcalls : ∀ c ∈ calls, c.Proper) :
    Timed alarms ticks x (s.code calls) := by
  induction calls generalizing s with
  | nil => exact h
  | cons c calls ih => exact ih (h.call (hcalls c List.mem_cons_self)) fun d hd => hcalls d (List.mem_cons_of_mem c hd)

/-- The alarm of a request that is not in the table is stopped. -/
theorem stopReq (h : Timed alarms ticks x s) {hash : String} (hnone : s.nodeReqPromises[hash]? = none) :
    Timed alarms ticks x (s.sendTimer (.stopAlarm .clientMsgTimedout hash)) where
  reqs := fun k p hp => by
    refine ⟨(h.reqs k p hp).1, (h.reqs k p hp).2.stop fun heq => ?_⟩
    obtain rfl := (Prod.mk.inj heq).2
    exact absurd (hnone.symm.trans hp) (by simp)
  cbs := fun k c hc => ⟨(h.cbs k c hc).1, fun hx => ((h.cbs k c hc).2 hx).stop (by simp)⟩
  waits := fun k p hp => ⟨(h.waits k p hp).1, (h.waits k p hp).2.stop (by simp)⟩

/-- The alarm of a callback and of a wait that are not in the tables is stopped. -/
theorem stopBlock (h : Timed alarms ticks x s) {key : String} (hcb : s.nodeTxCb[key]? = none)
    (hwait : s.txWaitPromises[key]? = none) :
    Timed alarms ticks x (s.sendTimer (.stopAlarm .txWaitBlock key)) where
  reqs := fun k p hp => ⟨(h.reqs k p hp).1, (h.reqs k p hp).2.stop (by simp)⟩
  cbs := fun k c hc => by
    refine ⟨(h.cbs k c hc).1, fun hx => ((h.cbs k c hc).2 hx).stop fun heq => ?_⟩
    obtain rfl := (Prod.mk.inj heq).2
    exact absurd (hcb.symm.trans hc) (by simp)
  waits := fun k p hp => by
    refine ⟨(h.waits k p hp).1, (h.waits k p hp).2.stop fun heq => ?_⟩
    obtain rfl := (Prod.mk.inj heq).2
    exact absurd (hwait.symm.trans hp) (by simp)

theorem settleReq (h : Timed alarms ticks x s) (hash : String) (p : Nat) (b : Bool) :
    Timed alarms ticks x (s.settleReq hash p b) where
  reqs := fun k q hq => h.reqs k q (getElem?_erase_cases hq).2
  cbs := h.cbs
  waits := h.waits

theorem settleWait (h : Timed alarms ticks x s) (key : String) (p : Nat) (b : Bool) :
    Timed alarms ticks x (s.settleWait key p b) where
  reqs := h.reqs
  cbs := h.cbs
  waits := fun k q hq => h.waits k q (getElem?_erase_cases hq).2

theorem weaken (h : Timed alarms ticks none s) (x : Option String) : Timed alarms ticks x s where
  reqs := h.reqs
  cbs := fun k c hc => ⟨(h.cbs k c hc).1, fun _ => (h.cbs k c hc).2 (by simp)⟩
  waits := h.waits

theorem forgotten {hash : String} (h : Timed alarms ticks (some hash) s) (hnone : s.nodeTxCb[hash]? = none) :
    Timed alarms ticks none s where
  reqs := h.reqs
  cbs := by
    intro k c hc
    refine ⟨(h.cbs k c hc).1, fun _ => (h.cbs k c hc).2 fun heq => ?_⟩
    obtain rfl := Option.some.inj heq
    exact absurd (hnone.symm.trans hc) (by simp)
  waits := h.waits

/-- A callback is called; if it is forgotten afterwards its alarm does not matter. -/
theorem callback (h : Timed alarms ticks x s) (c : Nat) (st : Status) {calls : List Call} (hcalls : ∀ d ∈ calls, d.Proper) :
    Timed alarms ticks x (s.callback c st calls) := by
  have htold : Timed alarms ticks x { s with called := (c, st) :: s.called } := ⟨h.1, h.2, h.3⟩
  exact htold.code hcalls

theorem eraseTxCb {hash : String} (h : Timed alarms ticks (some hash) s) : Timed alarms ticks none (s.eraseTxCb hash) where
  reqs := h.reqs
  cbs := fun k c hc => by
    obtain ⟨hne, hc⟩ := getElem?_erase_cases hc
    exact ⟨(h.cbs k c hc).1, fun _ => (h.cbs k c hc).2 fun heq => hne (Option.some.inj heq).symm⟩
  waits := h.waits

/-- No wait has a key of 32 bytes. -/
theorem wait_none (h : Timed alarms ticks x s) {key : String} (hlen : key.length = 32) : s.txWaitPromises[key]? = none := by
  cases hk : s.txWaitPromises[key]? with
  | none => rfl
  | some p => exact absurd hlen (h.waits key p hk).1

theorem cb_none (h : Timed alarms ticks x s) {key : String} (hlen : key.length ≠ 32) : s.nodeTxCb[key]? = none := by
  cases hk : s.nodeTxCb[key]? with
  | none => rfl
  | some c => exact absurd (h.cbs key c hk).1 hlen

/-- A callback is told of its end, forgotten, and its alarm stopped. -/
theorem tellEnd (h : Timed alarms ticks none s) {hash : String} (hlen : hash.length = 32) (c : Nat) (st : Status)
    {calls : List Call}
    (hcalls : ∀ d ∈ calls, d.Proper) :
    Timed alarms ticks none (((s.callback c st calls).eraseTxCb hash).sendTimer (.stopAlarm .txWaitBlock hash)) := by
  have herased := ((h.weaken (some hash)).callback c st hcalls).eraseTxCb
  refine herased.stopBlock ?_ (herased.wait_none hlen)
  unfold MtjsOpaque.eraseTxCb
  simp

end Timed

/-- The request under the hash is made by no other call. -/
theorem request_none {s : MtjsOpaque} {hash : String} (hnone : s.nodeReqPromises[hash]? = none) {calls : List Call}
    (hcalls : ∀ c ∈ calls, ¬ c.Asks hash) : (s.code calls).nodeReqPromises[hash]? = none := by
  induction calls generalizing s with
  | nil => exact hnone
  | cons c calls ih =>
    refine ih ?_ fun d hd => hcalls d (List.mem_cons_of_mem c hd)
    have hc := hcalls c List.mem_cons_self
    have hinsert : ∀ h : String, h ≠ hash → (s.nodeReqPromises.insert h s.made)[hash]? = none := fun h hne => by
      rw [StdMap.getElem?_insert, if_neg hne]
      exact hnone
    cases c with
    | request h => exact hinsert h hc
    | txSubmit h =>
      have hne : h ≠ hash := hc
      show (s.nodeReqPromises.insert h (s.made + 1))[hash]? = none
      rw [StdMap.getElem?_insert, if_neg hne]
      exact hnone
    | txWaitBlock key =>
      show (s.txWaitBlock key).nodeReqPromises[hash]? = none
      unfold MtjsOpaque.txWaitBlock
      split <;> exact hnone
    | txSubscribe => exact hnone
    | txUnsubscribe => exact hnone

/-- What a program calls is proper; and a callback that is told of the answer to its transaction does not ask for the same again. -/
def Step.Proper : Step → Prop
  | .code calls => ∀ c ∈ calls, c.Proper
  | .addTxRSP hash _ calls => ∀ n, ∀ c ∈ calls n, c.Proper ∧ ¬ c.Asks hash
  | .clientMsgReply _ _ => True
  | .clientTxSubscribeRSP _ calls onBlock => (∀ n, ∀ c ∈ calls n, c.Proper) ∧ ∀ c ∈ onBlock, c.Proper
  | .timer => True
  | .goesOff _ => True
  | .tickAlarm _ calls => ∀ n, ∀ c ∈ calls n, c.Proper

namespace Timed

variable {alarms ticks : List (Timers × String)} {s : MtjsOpaque}

theorem addTxRSP (h : Timed alarms ticks none s) {hash : String} {errcode : Bool} {calls : Nat → List Call}
    (hcalls : ∀ n, ∀ c ∈ calls n, c.Proper ∧ ¬ c.Asks hash) : Timed alarms ticks none (s.addTxRSP hash errcode calls) := by
  unfold MtjsOpaque.addTxRSP
  split
  · exact h
  · next p hp =>
    have hs := h.settleReq hash p true
    have hnone := s.settleReq_erased hash p true
    dsimp only
    split
    · exact hs.stopReq hnone
    · next c hc =>
      have hproper : ∀ d ∈ calls c, d.Proper := fun d hd => (hcalls c d hd).1
      have hcode : ∀ st, ((s.settleReq hash p true).callback c st (calls c)).nodeReqPromises[hash]? = none := by
        intro st
        have htold : MtjsOpaque.nodeReqPromises { s.settleReq hash p true with called := (c, st) :: s.called } = _ := rfl
        exact request_none (htold ▸ hnone) fun d hd => (hcalls c d hd).2
      split
      · exact (hs.tellEnd (h.reqs hash p hp).1 c .err hproper).stopReq (hcode .err)
      · exact (hs.callback c .submitted hproper).stopReq (hcode .submitted)

theorem clientMsgReply (h : Timed alarms ticks none s) (hash : String) (reply : Option Bool) :
    Timed alarms ticks none (s.clientMsgReply hash reply) := by
  unfold MtjsOpaque.clientMsgReply
  split
  · exact h
  · next p hp =>
    split
    · exact h
    · next resolved =>
      exact (h.settleReq hash p resolved).stopReq (s.settleReq_erased hash p resolved)

theorem resolveWait (h : Timed alarms ticks none s) (key : String) : Timed alarms ticks none (s.resolveWait key) := by
  unfold MtjsOpaque.resolveWait
  split
  · exact h
  · next p hp =>
    have hs := h.settleWait key p true
    exact hs.stopBlock (hs.cb_none (h.waits key p hp).1) (s.settleWait_erased key p true)

theorem finalize (h : Timed alarms ticks none s) {calls : Nat → List Call} (hcalls : ∀ n, ∀ c ∈ calls n, c.Proper)
    (txHash : String) :
    Timed alarms ticks none (s.finalize calls txHash) := by
  unfold MtjsOpaque.finalize
  have hs := h.resolveWait (base16Encode txHash)
  dsimp only
  split
  · exact hs
  · next c hc => exact hs.tellEnd (hs.cbs txHash c hc).1 c .finalized (hcalls c)

theorem clientTxSubscribeRSP (h : Timed alarms ticks none s) (txHashes : List String) {calls : Nat → List Call}
    {onBlock : List Call}
    (hcalls : ∀ n, ∀ c ∈ calls n, c.Proper) (hblock : ∀ c ∈ onBlock, c.Proper) :
    Timed alarms ticks none (s.clientTxSubscribeRSP txHashes calls onBlock) := by
  have hall : Timed alarms ticks none (txHashes.foldl (MtjsOpaque.finalize calls) s) := by
    induction txHashes generalizing s with
    | nil => exact h
    | cons z zs ih => exact ih (h.finalize hcalls z)
  unfold MtjsOpaque.clientTxSubscribeRSP
  dsimp only
  split
  · exact (hall.resolveWait "next:").code hblock
  · exact hall.resolveWait "next:"

/-- The tick of a request that is not waited for any more is handled. -/
theorem tickReq {i : Nat} {data : String} (h : Timed alarms ticks none s) (ha : ticks[i]? = some (.clientMsgTimedout, data))
    (hnone : s.nodeReqPromises[data]? = none) : Timed alarms (ticks.eraseIdx i) none s where
  reqs := by
    intro k p hp
    refine ⟨(h.reqs k p hp).1, (h.reqs k p hp).2.erase_tick ha fun heq => ?_⟩
    obtain rfl := (Prod.mk.inj heq).2
    exact absurd (hnone.symm.trans hp) (by simp)
  cbs := fun k c hc => ⟨(h.cbs k c hc).1, fun hx => ((h.cbs k c hc).2 hx).erase_tick ha (by simp)⟩
  waits := fun k p hp => ⟨(h.waits k p hp).1, (h.waits k p hp).2.erase_tick ha (by simp)⟩

/-- The tick of a block that is not waited for any more is handled, up to the callback. -/
theorem tickWait {i : Nat} {data : String} (h : Timed alarms ticks none s) (ha : ticks[i]? = some (.txWaitBlock, data))
    (hnone : s.txWaitPromises[data]? = none) : Timed alarms (ticks.eraseIdx i) (some data) s where
  reqs := fun k p hp => ⟨(h.reqs k p hp).1, (h.reqs k p hp).2.erase_tick ha (by simp)⟩
  cbs := by
    intro k c hc
    refine ⟨(h.cbs k c hc).1, fun hx => ((h.cbs k c hc).2 (by simp)).erase_tick ha fun heq => hx ?_⟩
    exact congrArg some (Prod.mk.inj heq).2
  waits := by
    intro k p hp
    refine ⟨(h.waits k p hp).1, (h.waits k p hp).2.erase_tick ha fun heq => ?_⟩
    obtain rfl := (Prod.mk.inj heq).2
    exact absurd (hnone.symm.trans hp) (by simp)

/-- A tick is handled. What its alarm was for is settled or forgotten. -/
theorem tickAlarm {i : Nat} {a : Timers × String} (h : Timed alarms ticks none s) (ha : ticks[i]? = some a)
    {calls : Nat → List Call}
    (hcalls : ∀ n, ∀ c ∈ calls n, c.Proper) : Timed alarms (ticks.eraseIdx i) none (s.tickAlarm a.1 a.2 calls) := by
  obtain ⟨tid, data⟩ := a
  unfold MtjsOpaque.tickAlarm
  cases tid with
  | clientMsgTimedout =>
    dsimp only
    split
    · next hnone => exact h.tickReq ha hnone
    · next p hp => exact (h.settleReq data p false).tickReq ha (s.settleReq_erased data p false)
  | txWaitBlock =>
    -- the promise under the data is gone, and the callback does not matter until it is forgotten
    dsimp only
    cases hw : s.txWaitPromises[data]? with
    | none =>
      have hs := h.tickWait ha hw
      dsimp only
      split
      · next hnone => exact hs.forgotten hnone
      · next c hc => exact (hs.callback c .timeout (hcalls c)).eraseTxCb
    | some p =>
      have hs := (h.settleWait data p false).tickWait ha (s.settleWait_erased data p false)
      dsimp only
      split
      · next hnone => exact hs.forgotten hnone
      · next c hc => exact (hs.callback c .timeout (hcalls c)).eraseTxCb

end Timed

/-- What is waited for has its alarm. -/
def Client.Timely (s : Client) : Prop := Timed s.alarms s.ticks none s.state

theorem timely_step {s : Client} (h : s.Timely) {st : Step} (hst : st.Proper) : (st.run s).Timely := by
  cases st with
  | code calls => exact Timed.code h hst
  | addTxRSP hash errcode calls => exact Timed.addTxRSP h hst
  | clientMsgReply hash reply => exact Timed.clientMsgReply h hash reply
  | clientTxSubscribeRSP txHashes calls onBlock => exact Timed.clientTxSubscribeRSP h txHashes hst.1 hst.2
  | timer =>
    unfold Step.run
    dsimp only
    split
    · exact h
    · next e rest he =>
      have hsame : ∀ a, Armed s.alarms s.ticks s.state.toTimer a → Armed (handleTimer s.alarms e) s.ticks rest a := fun a ha => by
        unfold Armed at ha
        rw [he] at ha
        exact ha
      exact ⟨fun k p hp => ⟨(h.reqs k p hp).1, hsame _ (h.reqs k p hp).2⟩,
        fun k c hc => ⟨(h.cbs k c hc).1, fun hx => hsame _ ((h.cbs k c hc).2 hx)⟩,
        fun k p hp => ⟨(h.waits k p hp).1, hsame _ (h.waits k p hp).2⟩⟩
  | goesOff i =>
    unfold Step.run
    dsimp only
    split
    · exact h
    · next a ha =>
      have hmoved : ∀ b, Armed s.alarms s.ticks s.state.toTimer b →
          Armed (s.alarms.eraseIdx i) (s.ticks ++ [a]) s.state.toTimer b := fun b hb => by
        rcases hb with hb | hb
        · exact .inl (List.mem_append_left _ hb)
        · rcases mem_foldl_eraseIdx i hb with hi | hb
          · rw [ha] at hi
            obtain rfl := Option.some.inj hi
            exact .inl (List.mem_append_right _ List.mem_cons_self)
          · exact .inr hb
      exact ⟨fun k p hp => ⟨(h.reqs k p hp).1, hmoved _ (h.reqs k p hp).2⟩,
        fun k c hc => ⟨(h.cbs k c hc).1, fun hx => hmoved _ ((h.cbs k c hc).2 hx)⟩,
        fun k p hp => ⟨(h.waits k p hp).1, hmoved _ (h.waits k p hp).2⟩⟩
  | tickAlarm i calls =>
    unfold Step.run
    dsimp only
    split
    · exact h
    · next a ha => exact Timed.tickAlarm h ha hst

namespace Sample

def hash : String := "the hash of one transaction here"

/-- A transaction is submitted, and the callback that is told of it waits for the next block. -/
def waiting : List Step := [.code [.txSubmit hash], .timer, .addTxRSP hash false fun _ => [.txWaitBlock "next:"]]

/-- A transaction is refused, and the callback submits it again. -/
def again : List Step := [.code [.txSubmit hash], .addTxRSP hash true fun _ => [.txSubmit hash]]

theorem proper : ∀ st ∈ waiting, st.Proper := by
  intro st hst
  simp only [waiting, List.mem_cons, List.not_mem_nil, or_false] at hst
  rcases hst with rfl | rfl | rfl
  · intro c hc
    obtain rfl := List.mem_singleton.1 hc
    exact (by decide : hash.length = 32)
  · trivial
  · intro n c hc
    obtain rfl := List.mem_singleton.1 hc
    exact ⟨(by decide : "next:".length ≠ 32), id⟩

end Sample

/-- A callback that submits its transaction again is dropped with the first, and the new promise has no alarm. -/
theorem resubmit_hangs :
    let s := run Sample.again
    s.state.nodeReqPromises[Sample.hash]? = some 3 ∧ s.state.nodeTxCb[Sample.hash]? = none ∧
      (.clientMsgTimedout, Sample.hash) ∉ s.state.toTimer.foldl handleTimer s.alarms ∧ s.ticks = [] := by
  decide +kernel

end Mtjs

end Grain
