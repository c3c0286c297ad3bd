import Grain.Contexts

/-!
# The types behind the context opaque

A contract's pointer is what the innermost activity for the contract on the C++ stack has set it to, and its `ContractContext`
if there is none (`pointer`). So it points to a `CallContext` exactly while the contract is being called (`InCall`), and a cast
is right exactly when it asks for what the phase provides.
-/

namespace Grain

namespace Contexts

/-- The activity calls the contract: it is a command's call, a call from another contract, or a frame. -/
def Act.Calls (c : String) : Act → Prop
  | .external d _ _ | .callFrom d _ _ | .frame d _ _ => d = c
  | _ => False

/-- The contract is being called. -/
def InCall (c : String) (l : List Act) : Prop := ∃ a ∈ l, a.Calls c

/-- The step casts a pointer in the phase that provides the type: functions that register only outside of calls of the contract,
the others only during them, and the hand-over of the events only if the call is made from another. -/
def Meets (a : Action) (s : Machine) : Prop :=
  match a, s.stack with
  | .host f, _ => ∀ c, s.running = some c → (f.kind = .callContext ↔ InCall c s.stack)
  | .call _, _ => ∀ c, s.running = some c → InCall c s.stack
  | .leave, .frame c _ _ :: rest => InCall c rest
  | _, _ => True

/-! ## The pointer in each phase -/

/-- The pointer that an activity has set. -/
def Act.sets : Act → Option (String × Nat)
  | .load d n => some (d, n)
  | .external d k _ => some (d, k)
  | .callFrom d self _ => some (d, self)
  | .frame d k _ => some (d, k)
  | _ => none

/-- The objects that an activity refers to. -/
def Act.objects : Act → List Nat
  | .load _ n => [n]
  | .external _ k _ => [k]
  | .callFrom _ self _ => [self]
  | .frame _ k _ => [k]
  | .calling _ _ self => [self]
  | _ => []

/-- What a contract's pointer is, by the stack. -/
def pointer (cached : String → Option Nat) : List Act → String → Option Nat
  | [], c => cached c
  | a :: l, c =>
    match a.sets with
    | some (d, p) => if c = d then some p else pointer cached l c
    | none => pointer cached l c

/-- The activity refers to objects of the right types, and will put back what the pointers were on the stack below it. -/
def Act.Good (heap : Nat → Option Obj) (cached : String → Option Nat) (l : List Act) : Act → Prop
  | .load d n =>
    pointer cached l d = none ∧ heap n = some .contractContext ∧ n ∉ l.flatMap objects ∧ ∀ c, cached c ≠ some n
  | .external c k prev =>
    (cached c).isSome ∧ (∃ v, heap k = some (.callContext v)) ∧ prev = pointer cached l c ∧ k ∉ l.flatMap objects
  | .frame c k saved =>
    (cached c).isSome ∧ (∃ v, heap k = some (.callContext v)) ∧ saved = pointer cached l c ∧ k ∉ l.flatMap objects
  | .callFrom d self prev => (cached d).isSome ∧ (∃ v, heap self = some (.callContext v)) ∧ prev = pointer cached l d
  | .calling c _ self => (∃ v, heap self = some (.callContext v)) ∧ pointer cached l c = some self
  | .viewRequest c | .read c => (cached c).isSome

/-- All activities of the stack do. -/
def Good (heap : Nat → Option Obj) (cached : String → Option Nat) : List Act → Prop
  | [] => True
  | a :: l => a.Good heap cached l ∧ Good heap cached l

/-- No activity evaluates top-level code. -/
def NoLoad (l : List Act) : Prop := ∀ b ∈ l, ∀ d n, b ≠ .load d n

/-- The invariant of the machine: top-level code calls nothing, so it is only evaluated at the top of the stack. -/
structure Inv (s : Machine) : Prop where
  alive : ∀ n o, s.heap n = some o → n < s.made
  cached : ∀ c n, s.cached c = some n → s.heap n = some .contractContext
  inj : ∀ c d n, s.cached c = some n → s.cached d = some n → c = d
  slot : ∀ c, s.slot c = pointer s.cached s.stack c
  good : Good s.heap s.cached s.stack
  loads : NoLoad s.stack.tail

section Stack

variable {heap heap' : Nat → Option Obj} {cached : String → Option Nat} {l : List Act} {a : Act} {c : String}

theorem inCall_cons : InCall c (a :: l) ↔ a.Calls c ∨ InCall c l := by
  unfold InCall
  rw [List.exists_mem_cons_iff]

theorem not_inCall_nil : ¬ InCall c [] := by
  rintro ⟨a, ha, -⟩
  exact List.not_mem_nil ha

/-- The pointer below an activity for another contract. -/
theorem pointer_cons_of_ne (h : ∀ d p, a.sets = some (d, p) → c ≠ d) : pointer cached (a :: l) c = pointer cached l c := by
  change (match a.sets with
    | some (d, p) => if c = d then some p else pointer cached l c
    | none => pointer cached l c) = pointer cached l c
  split
  · rename_i d p hs
    exact if_neg (h d p hs)
  · rfl

theorem pointer_cons_of_sets {p : Nat} (h : a.sets = some (c, p)) : pointer cached (a :: l) c = some p := by
  change (match a.sets with
    | some (d, p) => if c = d then some p else pointer cached l c
    | none => pointer cached l c) = some p
  rw [h]
  exact if_pos rfl

/-- An activity sets the pointer of a contract or does not. -/
theorem sets_cases (a : Act) (c : String) : (∃ p, a.sets = some (c, p)) ∨ ∀ d p, a.sets = some (d, p) → c ≠ d := by
  by_cases h : ∃ p, a.sets = some (c, p)
  · exact .inl h
  · refine .inr ?_
    rintro d p hs rfl
    exact h ⟨p, hs⟩

/-- A call sets the pointer of the contract. -/
theorem Act.Calls.sets (h : a.Calls c) : ∃ p, a.sets = some (c, p) := by
  cases a with
  | external d k prev | callFrom d k prev | frame d k prev => exact ⟨k, by rw [show d = c from h]; rfl⟩
  | load d n | viewRequest d | calling d e k | read d => exact h.elim

/-- Without a pointer a contract is not called. -/
theorem not_inCall_of_pointer (h : pointer cached l c = none) : ¬ InCall c l := by
  induction l with
  | nil => exact not_inCall_nil
  | cons a l ih =>
    rcases sets_cases a c with ⟨p, hs⟩ | hne
    · rw [pointer_cons_of_sets hs] at h
      nomatch h
    · rw [pointer_cons_of_ne hne] at h
      rw [inCall_cons]
      rintro (hc | hc)
      · obtain ⟨p, hs⟩ := hc.sets
        exact hne c p hs rfl
      · exact ih h hc

/-- A contract that is cached has a pointer. -/
theorem pointer_isSome (h : (cached c).isSome) : (pointer cached l c).isSome := by
  induction l with
  | nil => exact h
  | cons a l ih =>
    rcases sets_cases a c with ⟨p, hs⟩ | hne
    · rw [pointer_cons_of_sets hs]
      rfl
    · rw [pointer_cons_of_ne hne]
      exact ih

/-- The pointer that an activity has set points to a `CallContext` if the activity is a call, else to a `ContractContext`. -/
theorem Act.Good.kind {p : Nat} (h : a.Good heap cached l) (hs : a.sets = some (c, p)) :
    ∃ o, heap p = some o ∧ (o.kind = .callContext ↔ a.Calls c ∨ InCall c l) := by
  cases a with
  | load d n =>
    obtain ⟨rfl, rfl⟩ := Prod.mk.inj (Option.some.inj hs)
    obtain ⟨hnone, hn, -, -⟩ := h
    refine ⟨_, hn, ⟨fun hk => (nomatch hk), ?_⟩⟩
    rintro (hf | hi)
    · exact hf.elim
    · exact absurd hi (not_inCall_of_pointer hnone)
  | external d k prev | callFrom d k prev | frame d k prev =>
    obtain ⟨rfl, rfl⟩ := Prod.mk.inj (Option.some.inj hs)
    obtain ⟨-, ⟨v, hk⟩, -⟩ := h
    exact ⟨_, hk, ⟨fun _ => .inl rfl, fun _ => rfl⟩⟩
  | viewRequest d | calling d e k | read d => nomatch hs

/-- The pointer points to a `CallContext` while the contract is called, else to a `ContractContext`. -/
theorem kind_pointer (hg : Good heap cached l) (hc : ∀ c n, cached c = some n → heap n = some .contractContext) {p : Nat}
    (h : pointer cached l c = some p) : ∃ o, heap p = some o ∧ (o.kind = .callContext ↔ InCall c l) := by
  induction l with
  | nil =>
    refine ⟨_, hc c p h, ⟨fun hk => (nomatch hk), ?_⟩⟩
    intro hi
    exact absurd hi not_inCall_nil
  | cons a l ih =>
    rw [inCall_cons]
    rcases sets_cases a c with ⟨q, hs⟩ | hne
    · rw [pointer_cons_of_sets hs] at h
      obtain rfl := Option.some.inj h
      exact hg.1.kind hs
    · rw [pointer_cons_of_ne hne] at h
      obtain ⟨o, ho, hi⟩ := ih hg.2 h
      refine ⟨o, ho, ?_⟩
      rw [hi]
      constructor
      · exact .inr
      · rintro (hcall | hin)
        · obtain ⟨q, hs⟩ := hcall.sets
          exact absurd rfl (hne c q hs)
        · exact hin

/-- A contract that is not cached has no pointer unless it is being loaded. -/
theorem pointer_none (hg : Good heap cached l) (hl : NoLoad l) (hc : cached c = none) : pointer cached l c = none := by
  induction l with
  | nil => exact hc
  | cons a l ih =>
    have hrest := ih hg.2 fun b hb => hl b (List.mem_cons_of_mem _ hb)
    rw [pointer_cons_of_ne]
    · exact hrest
    · rintro d p hs rfl
      have ha := hg.1
      cases a with
      | load d n => exact hl _ List.mem_cons_self d n rfl
      | external d k prev | callFrom d k prev | frame d k prev =>
        rw [(Prod.mk.inj (Option.some.inj hs)).1] at ha
        have := ha.1
        rw [hc] at this
        nomatch this
      | viewRequest d | calling d e k | read d => nomatch hs

/-! ## What the stack needs of the objects and of the cache -/

theorem Act.Good.exists_obj (h : a.Good heap cached l) : ∀ m ∈ a.objects, ∃ o, heap m = some o := by
  intro m hm
  cases a with
  | load d n =>
    obtain rfl := List.mem_singleton.1 hm
    exact ⟨_, h.2.1⟩
  | external d k prev | callFrom d k prev | frame d k prev =>
    obtain rfl := List.mem_singleton.1 hm
    obtain ⟨v, hk⟩ := h.2.1
    exact ⟨_, hk⟩
  | calling d e k =>
    obtain rfl := List.mem_singleton.1 hm
    obtain ⟨v, hk⟩ := h.1
    exact ⟨_, hk⟩
  | viewRequest d | read d => exact absurd hm List.not_mem_nil

/-- The objects that the stack refers to exist. -/
theorem Good.exists_obj (h : Good heap cached l) : ∀ m ∈ l.flatMap Act.objects, ∃ o, heap m = some o := by
  induction l with
  | nil => exact fun m hm => absurd hm List.not_mem_nil
  | cons a l ih =>
    intro m hm
    rw [List.flatMap_cons, List.mem_append] at hm
    rcases hm with hm | hm
    · exact h.1.exists_obj m hm
    · exact ih h.2 m hm

theorem Act.Good.heap_congr (h : a.Good heap cached l) (hh : ∀ m ∈ a.objects, heap' m = heap m) : a.Good heap' cached l := by
  cases a with
  | load d n =>
    obtain ⟨h1, h2, h3⟩ := h
    exact ⟨h1, (hh n (List.mem_singleton.2 rfl)).trans h2, h3⟩
  | external d k prev | callFrom d k prev | frame d k prev =>
    obtain ⟨h1, ⟨v, h2⟩, h3⟩ := h
    exact ⟨h1, ⟨v, (hh k (List.mem_singleton.2 rfl)).trans h2⟩, h3⟩
  | calling d e k =>
    obtain ⟨⟨v, h1⟩, h2⟩ := h
    exact ⟨⟨v, (hh k (List.mem_singleton.2 rfl)).trans h1⟩, h2⟩
  | viewRequest d | read d => exact h

/-- Other objects do not matter. -/
theorem Good.heap_congr (h : Good heap cached l) (hh : ∀ m ∈ l.flatMap Act.objects, heap' m = heap m) :
    Good heap' cached l := by
  induction l with
  | nil => trivial
  | cons a l ih =>
    rw [List.flatMap_cons] at hh
    exact ⟨h.1.heap_congr fun m hm => hh m (List.mem_append_left _ hm),
      ih h.2 fun m hm => hh m (List.mem_append_right _ hm)⟩

/-- The cache with a contract entered. -/
def enter (cached : String → Option Nat) (c : String) (n : Nat) : String → Option Nat :=
  fun d => if d = c then some n else cached d

theorem isSome_enter {n : Nat} {d : String} (h : (cached d).isSome) : (enter cached c n d).isSome := by
  unfold enter
  split
  · rfl
  · exact h

/-- The pointers of the other contracts are the same, and that of a contract without one is the new object. -/
theorem pointer_enter {n : Nat} (h : pointer cached l c = none) (d : String) :
    pointer (enter cached c n) l d = if d = c then some n else pointer cached l d := by
  induction l with
  | nil => rfl
  | cons a l ih =>
    rcases sets_cases a c with ⟨p, hs⟩ | hnc
    · rw [pointer_cons_of_sets hs] at h
      nomatch h
    · rw [pointer_cons_of_ne hnc] at h
      rcases sets_cases a d with ⟨p, hs⟩ | hnd
      · rw [pointer_cons_of_sets hs, pointer_cons_of_sets hs, if_neg]
        rintro rfl
        exact hnc d p hs rfl
      · rw [pointer_cons_of_ne hnd, pointer_cons_of_ne hnd]
        exact ih h

theorem pointer_enter_of_ne {n : Nat} {d : String} (h : pointer cached l c = none) (hd : c ≠ d) :
    pointer (enter cached c n) l d = pointer cached l d := by
  rw [pointer_enter h, if_neg (Ne.symm hd)]

theorem Act.Good.enter {n : Nat} (h : a.Good heap cached l) (hp : pointer cached l c = none)
    (hne : ∀ d p, a.sets = some (d, p) → c ≠ d) (hn : n ∉ a.objects) : a.Good heap (enter cached c n) l := by
  cases a with
  | load d k =>
    obtain ⟨h1, h2, h3, h4⟩ := h
    refine ⟨(pointer_enter_of_ne hp (hne d k rfl)).trans h1, h2, h3, ?_⟩
    intro e
    unfold Contexts.enter
    split
    · intro hk
      exact hn (List.mem_singleton.2 (Option.some.inj hk))
    · exact h4 e
  | external d k prev | frame d k prev =>
    obtain ⟨h1, h2, h3, h4⟩ := h
    exact ⟨isSome_enter h1, h2, h3.trans (pointer_enter_of_ne hp (hne d k rfl)).symm, h4⟩
  | callFrom d k prev =>
    obtain ⟨h1, h2, h3⟩ := h
    exact ⟨isSome_enter h1, h2, h3.trans (pointer_enter_of_ne hp (hne d k rfl)).symm⟩
  | calling d e k =>
    obtain ⟨h1, h2⟩ := h
    refine ⟨h1, (pointer_enter_of_ne hp ?_).trans h2⟩
    rintro rfl
    rw [hp] at h2
    nomatch h2
  | viewRequest d | read d => exact isSome_enter h

/-- A contract that the stack is not concerned with may be entered in the cache. -/
theorem Good.enter {n : Nat} (hg : Good heap cached l) (hp : pointer cached l c = none) (hn : n ∉ l.flatMap Act.objects) :
    Good heap (enter cached c n) l := by
  induction l with
  | nil => trivial
  | cons a l ih =>
    rw [List.flatMap_cons, List.mem_append] at hn
    rcases sets_cases a c with ⟨p, hs⟩ | hne
    · rw [pointer_cons_of_sets hs] at hp
      nomatch hp
    · rw [pointer_cons_of_ne hne] at hp
      exact ⟨hg.1.enter hp hne fun h => hn (.inl h), ih hg.2 hp fun h => hn (.inr h)⟩

end Stack

/-! ## The steps -/

variable {s s' : Machine} {c : String} {a : Act} {rest : List Act}

theorem Inv.not_mem (h : Inv s) : s.made ∉ s.stack.flatMap Act.objects := by
  intro hm
  obtain ⟨o, ho⟩ := h.good.exists_obj _ hm
  have := h.alive _ o ho
  omega

/-- A new activity sets the pointer of a contract to a new object. -/
theorem Inv.push {o : Obj} (h : Inv s) (hl : NoLoad s.stack) (hs : a.sets = some (c, s.made))
    (ha : a.Good (s.alloc o).heap s.cached s.stack) :
    Inv (((s.alloc o).setSlot c (some s.made)).withStack (a :: s.stack)) := by
  have hold : ∀ n p, s.heap n = some p → (s.alloc o).heap n = some p := by
    intro n p hn
    have := h.alive n p hn
    exact (if_neg (by omega)).trans hn
  refine ⟨?_, fun d n hd => hold n _ (h.cached d n hd), h.inj, ?_, ⟨ha, ?_⟩, hl⟩
  · intro n p hn
    change n < s.made + 1
    by_cases hnm : n = s.made
    · omega
    · have := h.alive n p ((if_neg hnm).symm.trans hn)
      omega
  · intro d
    change (if d = c then some s.made else s.slot d) = pointer s.cached (a :: s.stack) d
    by_cases hd : d = c
    · subst hd
      rw [if_pos rfl, pointer_cons_of_sets hs]
    · rw [if_neg hd, pointer_cons_of_ne, h.slot]
      intro e p he
      rw [hs] at he
      rw [← (Prod.mk.inj (Option.some.inj he)).1]
      exact hd
  · refine h.good.heap_congr ?_
    intro m hm
    obtain ⟨p, hp⟩ := h.good.exists_obj m hm
    exact (hold m p hp).trans hp.symm

/-- An activity that sets no pointer. -/
theorem Inv.push_quiet (h : Inv s) (hl : NoLoad s.stack) (hs : a.sets = none) (ha : a.Good s.heap s.cached s.stack) :
    Inv (s.withStack (a :: s.stack)) := by
  refine ⟨h.alive, h.cached, h.inj, ?_, ⟨ha, h.good⟩, hl⟩
  intro d
  change s.slot d = pointer s.cached (a :: s.stack) d
  rw [pointer_cons_of_ne, h.slot]
  intro e p he
  rw [hs] at he
  nomatch he

theorem NoLoad.tail {l : List Act} (h : NoLoad l) : NoLoad l.tail := fun b hb => h b (List.mem_of_mem_tail hb)

theorem Inv.noLoad_rest (h : Inv s) (hst : s.stack = a :: rest) : NoLoad rest := by
  have := h.loads
  rwa [hst] at this

theorem Inv.noLoad (h : Inv s) (hst : s.stack = a :: rest) (ha : ∀ d n, a ≠ .load d n) : NoLoad s.stack := by
  rw [hst]
  intro b hb
  rcases List.mem_cons.1 hb with rfl | hb
  · exact ha
  · exact h.noLoad_rest hst b hb

theorem noLoad_nil (hst : s.stack = []) : NoLoad s.stack := by
  rw [hst]
  exact fun b hb => absurd hb List.not_mem_nil

/-- The innermost activity ends, and the pointer is what it was below it. -/
theorem Inv.pop (h : Inv s) (hst : s.stack = a :: rest) {p : Option Nat}
    (hp : ∀ d, (if d = c then p else s.slot d) = pointer s.cached rest d) : Inv ((s.setSlot c p).withStack rest) := by
  have hg := h.good
  rw [hst] at hg
  exact ⟨h.alive, h.cached, h.inj, hp, hg.2, (h.noLoad_rest hst).tail⟩

/-- What the pointers are when an activity has put one back. -/
theorem Inv.slot_rest (h : Inv s) (hst : s.stack = a :: rest) {p : Option Nat}
    (ha : ∀ d q, a.sets = some (d, q) → d = c) (hp : p = pointer s.cached rest c) (d : String) :
    (if d = c then p else s.slot d) = pointer s.cached rest d := by
  by_cases hd : d = c
  · rw [if_pos hd, hp, hd]
  · rw [if_neg hd, h.slot, hst, pointer_cons_of_ne]
    intro e q he
    rw [ha e q he]
    exact hd

/-- An object that nothing refers to is destroyed. -/
theorem Inv.free {n : Nat} (h : Inv s) (hc : ∀ d, s.cached d ≠ some n) (hn : n ∉ s.stack.flatMap Act.objects) :
    Inv (s.free n) := by
  have hold : ∀ m, m ≠ n → (s.free n).heap m = s.heap m := fun m hm => if_neg hm
  refine ⟨?_, ?_, h.inj, h.slot, ?_, h.loads⟩
  · intro m o hm
    by_cases hmn : m = n
    · subst hmn
      rw [show (s.free m).heap m = none from if_pos rfl] at hm
      nomatch hm
    · exact h.alive m o ((hold m hmn).symm.trans hm)
  · intro d m hd
    rw [hold m (fun hmn => hc d (hmn ▸ hd))]
    exact h.cached d m hd
  · refine h.good.heap_congr ?_
    intro m hm
    exact hold m fun hmn => hn (hmn ▸ hm)

/-- A context of a call is not a contract's object. -/
theorem Inv.cached_ne {k : Nat} (h : Inv s) (hk : ∃ v, s.heap k = some (.callContext v)) (d : String) :
    s.cached d ≠ some k := by
  intro hd
  obtain ⟨v, hv⟩ := hk
  rw [h.cached d k hd] at hv
  nomatch hv

/-- A contract is loaded: it had no pointer. -/
theorem Inv.load (h : Inv s) (hl : NoLoad s.stack) (hc : s.cached c = none) :
    Inv (((s.alloc .contractContext).setSlot c (some s.made)).withStack (.load c s.made :: s.stack)) := by
  refine h.push hl rfl ⟨pointer_none h.good hl hc, if_pos rfl, h.not_mem, ?_⟩
  intro d hd
  have := h.alive _ _ (h.cached d _ hd)
  omega

/-- A call gets a context of its own. -/
theorem Inv.enterFrame (h : Inv s) (hl : NoLoad s.stack) (hc : (s.cached c).isSome) (inView : Bool) :
    Inv (((s.alloc (.callContext inView)).setSlot c (some s.made)).withStack (.frame c s.made (s.slot c) :: s.stack)) :=
  h.push hl rfl ⟨hc, ⟨inView, if_pos rfl⟩, h.slot c, h.not_mem⟩

/-- The top-level code has been evaluated. -/
theorem Inv.loaded {n : Nat} (h : Inv s) (hst : s.stack = .load c n :: rest) :
    Inv ((s.setCached c (some n)).withStack rest) := by
  have hg := h.good
  rw [hst] at hg
  obtain ⟨⟨hp, hn, hmem, hfresh⟩, hrest⟩ := hg
  refine ⟨h.alive, ?_, ?_, ?_, hrest.enter hp hmem, (h.noLoad_rest hst).tail⟩
  · intro d m hd
    change (if d = c then some n else s.cached d) = some m at hd
    split at hd
    · obtain rfl := Option.some.inj hd
      exact hn
    · exact h.cached d m hd
  · intro d e m hd he
    change (if d = c then some n else s.cached d) = some m at hd
    change (if e = c then some n else s.cached e) = some m at he
    split at hd <;> split at he
    · rename_i h1 h2
      rw [h1, h2]
    · obtain rfl := Option.some.inj hd
      exact absurd he (hfresh e)
    · obtain rfl := Option.some.inj he
      exact absurd hd (hfresh d)
    · exact h.inj d e m hd he
  · intro d
    change s.slot d = pointer (enter s.cached c n) rest d
    rw [pointer_enter hp, h.slot, hst]
    by_cases hd : d = c
    · subst hd
      rw [if_pos rfl, pointer_cons_of_sets rfl]
    · rw [if_neg hd, pointer_cons_of_ne]
      intro e p he
      rw [← (Prod.mk.inj (Option.some.inj he)).1]
      exact hd

/-- The top-level code has thrown: the context is destroyed. -/
theorem Inv.loadFailed {n : Nat} (h : Inv s) (hst : s.stack = .load c n :: rest) :
    Inv (((s.free n).setSlot c none).withStack rest) := by
  have hg := h.good
  rw [hst] at hg
  obtain ⟨⟨hp, -, hmem, hfresh⟩, -⟩ := hg
  have hpop : Inv ((s.setSlot c none).withStack rest) := by
    refine h.pop hst (h.slot_rest hst ?_ hp.symm)
    intro d q he
    exact (Prod.mk.inj (Option.some.inj he)).1.symm
  exact hpop.free hfresh hmem

/-- The contract is taken out of the cache while nothing runs. -/
theorem Inv.unload {n : Nat} (h : Inv s) (hst : s.stack = []) (hc : s.cached c = some n) :
    Inv (((s.free n).setSlot c none).setCached c none) := by
  have hother : ∀ d m, (if d = c then none else s.cached d) = some m → s.cached d = some m ∧ m ≠ n := by
    intro d m hd
    split at hd
    · nomatch hd
    · rename_i hdc
      refine ⟨hd, ?_⟩
      rintro rfl
      exact hdc (h.inj d c m hd hc)
  refine ⟨?_, ?_, ?_, ?_, ?_, h.loads⟩
  · intro m o hm
    change (if m = n then none else s.heap m) = some o at hm
    split at hm
    · nomatch hm
    · exact h.alive m o hm
  · intro d m hd
    obtain ⟨hd, hm⟩ := hother d m hd
    exact (if_neg hm).trans (h.cached d m hd)
  · intro d e m hd he
    exact h.inj d e m (hother d m hd).1 (hother e m he).1
  · intro d
    change (if d = c then none else s.slot d) = pointer _ s.stack d
    have hslot := h.slot d
    rw [hst] at hslot ⊢
    change (if d = c then none else s.slot d) = if d = c then none else s.cached d
    rw [hslot]
    rfl
  · change Good _ _ s.stack
    rw [hst]
    trivial

/-- A frame is left: the pointer is put back and the context destroyed. -/
theorem Inv.leave {k : Nat} {saved : Option Nat} (h : Inv s) (hst : s.stack = .frame c k saved :: rest) :
    Inv (((s.setSlot c saved).free k).withStack rest) := by
  have hg := h.good
  rw [hst] at hg
  obtain ⟨⟨-, hk, hs, hmem⟩, -⟩ := hg
  have hpop : Inv ((s.setSlot c saved).withStack rest) := by
    refine h.pop hst (h.slot_rest hst ?_ hs)
    intro d q he
    exact (Prod.mk.inj (Option.some.inj he)).1.symm
  exact hpop.free (h.cached_ne hk) hmem

/-- The code around a call puts the pointer back, and reads the result. -/
theorem Inv.backExternal {k : Nat} {prev : Option Nat} (h : Inv s) (hst : s.stack = .external c k prev :: rest) :
    Inv (((s.setSlot c prev).free k).withStack (.read c :: rest)) := by
  have hg := h.good
  rw [hst] at hg
  obtain ⟨⟨hc, hk, hs, hmem⟩, -⟩ := hg
  have hpop : Inv ((s.setSlot c prev).withStack rest) := by
    refine h.pop hst (h.slot_rest hst ?_ hs)
    intro d q he
    exact (Prod.mk.inj (Option.some.inj he)).1.symm
  exact (hpop.free (h.cached_ne hk) hmem).push_quiet (a := .read c) (h.noLoad_rest hst) rfl hc

theorem Inv.backCallFrom {self : Nat} {prev : Option Nat} (h : Inv s) (hst : s.stack = .callFrom c self prev :: rest) :
    Inv ((s.setSlot c prev).withStack (.read c :: rest)) := by
  have hg := h.good
  rw [hst] at hg
  obtain ⟨⟨hc, -, hs⟩, -⟩ := hg
  have hpop : Inv ((s.setSlot c prev).withStack rest) := by
    refine h.pop hst (h.slot_rest hst ?_ hs)
    intro d q he
    exact (Prod.mk.inj (Option.some.inj he)).1.symm
  exact hpop.push_quiet (a := .read c) (h.noLoad_rest hst) rfl hc

/-- An activity that sets no pointer ends. -/
theorem Inv.pop_quiet (h : Inv s) (hst : s.stack = a :: rest) (hs : a.sets = none) : Inv (s.withStack rest) := by
  have hg := h.good
  rw [hst] at hg
  refine ⟨h.alive, h.cached, h.inj, ?_, hg.2, (h.noLoad_rest hst).tail⟩
  intro d
  change s.slot d = pointer s.cached rest d
  rw [h.slot, hst, pointer_cons_of_ne]
  intro e p he
  rw [hs] at he
  nomatch he

/-- The callee's pointer is set to the caller's context. -/
theorem Inv.enterCall {b d : String} {self : Nat} (h : Inv s) (hst : s.stack = .calling b d self :: rest)
    (hd : (s.cached d).isSome) : Inv ((s.setSlot d (some self)).withStack (.callFrom d self (s.slot d) :: rest)) := by
  have hpop := h.pop_quiet hst rfl
  have hg := h.good
  rw [hst] at hg
  refine ⟨h.alive, h.cached, h.inj, ?_, ⟨⟨hd, hg.1.1, hpop.slot d⟩, hg.2⟩, h.noLoad_rest hst⟩
  intro e
  change (if e = d then some self else s.slot e) = pointer s.cached (.callFrom d self (s.slot d) :: rest) e
  by_cases he : e = d
  · subst he
    rw [if_pos rfl, pointer_cons_of_sets rfl]
  · rw [if_neg he, pointer_cons_of_ne]
    · exact hpop.slot e
    · intro f p hf
      rw [← (Prod.mk.inj (Option.some.inj hf)).1]
      exact he

/-- The contract whose code is running has a pointer. -/
theorem Inv.exists_slot (h : Inv s) (hr : s.running = some c) : ∃ p, s.slot c = some p := by
  have hg := h.good
  unfold Machine.running at hr
  split at hr
  · rename_i d n rest hst
    obtain rfl := Option.some.inj hr
    exact ⟨n, by rw [h.slot, hst, pointer_cons_of_sets rfl]⟩
  · rename_i d k saved rest hst
    obtain rfl := Option.some.inj hr
    exact ⟨k, by rw [h.slot, hst, pointer_cons_of_sets rfl]⟩
  · rename_i d rest hst
    obtain rfl := Option.some.inj hr
    rw [hst] at hg
    rw [h.slot]
    exact Option.isSome_iff_exists.1 (pointer_isSome hg.1)
  · rename_i d e k rest hst
    obtain rfl := Option.some.inj hr
    rw [hst] at hg
    refine ⟨k, ?_⟩
    rw [h.slot, hst, pointer_cons_of_ne]
    · exact hg.1.2
    · intro f p (hf : none = some (f, p))
      nomatch hf
  · nomatch hr

/-- Code whose contract has a `CallContext` is not top-level code that is being evaluated. -/
theorem Inv.noLoad_of_self {p : Nat} (h : Inv s) (hr : s.running = some c) (hp : s.slot c = some p)
    (hself : ∃ v, s.heap p = some (.callContext v)) : NoLoad s.stack := by
  have hg := h.good
  rcases hst : s.stack with _ | ⟨a, rest⟩
  · exact fun b hb => absurd hb List.not_mem_nil
  · rw [← hst]
    refine h.noLoad hst ?_
    rintro d n rfl
    unfold Machine.running at hr
    rw [hst] at hr hg
    obtain rfl : d = c := Option.some.inj hr
    rw [h.slot, hst, pointer_cons_of_sets rfl] at hp
    obtain rfl := Option.some.inj hp
    obtain ⟨v, hv⟩ := hself
    rw [hg.1.2.1] at hv
    nomatch hv

/-- Every step keeps the invariant. -/
theorem Inv.step {x : Action} (h : Inv s) (hs : step x s = some s') : Inv s' := by
  have hg := h.good
  unfold Contexts.step at hs
  split at hs
  · -- load, while nothing runs
    rename_i hst
    split at hs
    · rename_i hc
      obtain rfl := Option.some.inj hs
      have := h.load (noLoad_nil hst) hc
      rwa [hst] at this
    · nomatch hs
  · -- load, inside a call
    rename_i hst
    split at hs
    · rename_i hc
      obtain rfl := Option.some.inj hs
      have := h.load (h.noLoad hst fun _ _ => Act.noConfusion) hc.1
      rwa [hst] at this
    · nomatch hs
  · rename_i hst
    obtain rfl := Option.some.inj hs
    exact h.loaded hst
  · rename_i hst
    obtain rfl := Option.some.inj hs
    exact h.loadFailed hst
  · rename_i hst
    split at hs
    · rename_i hc
      obtain rfl := Option.some.inj hs
      exact h.unload hst hc
    · nomatch hs
  · -- execute
    rename_i hst
    split at hs
    · rename_i hc
      obtain rfl := Option.some.inj hs
      have := h.push (o := .callContext false) (a := .external _ s.made _) (noLoad_nil hst) rfl
        ⟨hc, ⟨false, if_pos rfl⟩, h.slot _, h.not_mem⟩
      rwa [hst] at this
    · nomatch hs
  · -- callViewREQ
    rename_i hst
    split at hs
    · rename_i hc
      obtain rfl := Option.some.inj hs
      have := h.push_quiet (a := .viewRequest _) (noLoad_nil hst) rfl hc
      rwa [hst] at this
    · nomatch hs
  · -- enter
    rename_i hst
    rw [hst] at hg
    split at hs
    · split at hs
      · obtain rfl := Option.some.inj hs
        have := h.enterFrame (h.noLoad hst fun _ _ => Act.noConfusion) hg.1.1 (by assumption)
        rwa [hst] at this
      · nomatch hs
    · split at hs
      · obtain rfl := Option.some.inj hs
        have := h.enterFrame (h.noLoad hst fun _ _ => Act.noConfusion) hg.1.1 (by assumption)
        rwa [hst] at this
      · nomatch hs
    · split at hs
      · obtain rfl := Option.some.inj hs
        have := h.enterFrame (h.noLoad hst fun _ _ => Act.noConfusion) hg.1 (by assumption)
        rwa [hst] at this
      · nomatch hs
    · nomatch hs
  · rename_i hst
    obtain rfl := Option.some.inj hs
    exact h.leave hst
  · rename_i hst
    obtain rfl := Option.some.inj hs
    exact h.leave hst
  · rename_i hst
    obtain rfl := Option.some.inj hs
    exact h.backExternal hst
  · rename_i hst
    obtain rfl := Option.some.inj hs
    exact h.backCallFrom hst
  · -- back, of a view request
    rename_i hst
    rw [hst] at hg
    obtain rfl := Option.some.inj hs
    exact (h.pop_quiet hst rfl).push_quiet (a := .read _) (h.noLoad_rest hst) rfl hg.1
  · rename_i hst
    obtain rfl := Option.some.inj hs
    exact h.pop_quiet hst rfl
  · split at hs
    · obtain rfl := Option.some.inj hs
      exact h
    · nomatch hs
  · -- call
    split at hs
    · rename_i c hr
      split at hs
      · rename_i p hp
        split at hs
        · rename_i hself
          obtain rfl := Option.some.inj hs
          have hl : NoLoad s.stack := h.noLoad_of_self hr hp ⟨_, hself.1⟩
          exact h.push_quiet (a := .calling c _ p) hl rfl ⟨⟨_, hself.1⟩, by rw [← h.slot, hp]⟩
        · obtain rfl := Option.some.inj hs
          exact h
      · obtain rfl := Option.some.inj hs
        exact h
    · nomatch hs
  · rename_i hst
    split at hs
    · rename_i hd
      obtain rfl := Option.some.inj hs
      exact h.enterCall hst hd
    · nomatch hs
  · rename_i hst
    obtain rfl := Option.some.inj hs
    exact h.pop_quiet hst rfl
  · nomatch hs

theorem inv_init : Inv {} where
  alive := fun _ _ h => nomatch h
  cached := fun _ _ h => nomatch h
  inj := fun _ _ _ h => nomatch h
  slot := fun _ => rfl
  good := trivial
  loads := fun _ hb => absurd hb List.not_mem_nil

theorem Run.inv {P : Action → Machine → Prop} (h : Run P s) : Inv s := by
  induction h with
  | init => exact inv_init
  | step _ _ hs ih => exact ih.step hs

/-! ## The casts -/

/-- A cast of the running code's pointer is right exactly if the contract is in the phase for it. -/
theorem Inv.cast_ok {p : Nat} (kind : Kind) (h : Inv s) (hp : pointer s.cached rest c = some p)
    (hg : Good s.heap s.cached rest) : Cast.Ok s ⟨p, kind⟩ ↔ (kind = .callContext ↔ InCall c rest) := by
  obtain ⟨o, ho, hi⟩ := kind_pointer hg h.cached hp
  unfold Cast.Ok
  rw [ho, ← hi]
  cases kind <;> cases o <;> simp [Obj.kind]

/-- The casts of the functions of the interface. -/
theorem Inv.casts_running (kind : Kind) (h : Inv s) (hr : s.running.isSome) :
    (∀ y ∈ ((s.running.bind s.slot).map fun p => (⟨p, kind⟩ : Cast)).toList, y.Ok s) ↔
      ∀ c, s.running = some c → (kind = .callContext ↔ InCall c s.stack) := by
  obtain ⟨c, hc⟩ := Option.isSome_iff_exists.1 hr
  obtain ⟨p, hp⟩ := h.exists_slot hc
  have hcasts : ((s.running.bind s.slot).map fun p => (⟨p, kind⟩ : Cast)).toList = [⟨p, kind⟩] := by
    rw [hc, Option.bind_some, hp]
    rfl
  have hok := h.cast_ok kind (by rw [← h.slot, hp]) h.good
  rw [hcasts, List.forall_mem_singleton, hok]
  constructor
  · intro hk d hd
    obtain rfl : c = d := Option.some.inj (hc.symm.trans hd)
    exact hk
  · intro hm
    exact hm c hc

/-- The hand-over of the events casts what was saved when the call began. -/
theorem Inv.casts_leave {k : Nat} {saved : Option Nat} (h : Inv s) (hst : s.stack = .frame c k saved :: rest) :
    (∀ y ∈ casts .leave s, y.Ok s) ↔ InCall c rest := by
  have hg := h.good
  rw [hst] at hg
  obtain ⟨⟨hc, -, hsaved, -⟩, hgood⟩ := hg
  obtain ⟨p, hp⟩ := Option.isSome_iff_exists.1 (pointer_isSome (l := rest) hc)
  have hcasts : casts .leave s = [⟨p, .callContext⟩] := by
    unfold casts
    rw [hst, hsaved, hp]
    rfl
  rw [hcasts, List.forall_mem_singleton, h.cast_ok .callContext hp hgood]
  constructor
  · intro hk
    exact hk.1 rfl
  · intro hm
    exact ⟨fun _ => hm, fun _ => rfl⟩

/-- In every run whose steps all cast in the right phase, the casts of a further step find objects of the types they ask for if
and only if that step does so too. -/
theorem casts_typed {x : Action} (h : Run Meets s) (hs : step x s = some s') : (∀ y ∈ casts x s, y.Ok s) ↔ Meets x s := by
  have hinv := h.inv
  cases x with
  | host f =>
    refine hinv.casts_running f.kind ?_
    by_contra hr
    change (if s.running.isSome then some s else none) = some s' at hs
    rw [if_neg hr] at hs
    nomatch hs
  | call d =>
    have hr : s.running.isSome := by
      unfold step at hs
      cases hr : s.running with
      | some c => rfl
      | none =>
        simp only [hr] at hs
        nomatch hs
    refine (hinv.casts_running .callContext hr).trans ?_
    exact forall_congr' fun c => imp_congr_right fun _ => ⟨fun hk => hk.1 rfl, fun hm => ⟨fun _ => hm, fun _ => rfl⟩⟩
  | leave =>
    rcases hst : s.stack with _ | ⟨a, rest⟩
    · unfold step at hs
      rw [hst] at hs
      nomatch hs
    · cases a with
      | frame c k saved =>
        rw [hinv.casts_leave hst]
        unfold Meets
        rw [hst]
      | load | external | viewRequest | calling | callFrom | read =>
        unfold step at hs
        rw [hst] at hs
        nomatch hs
  | load | loaded | loadFailed | unload | execute | callViewREQ | enter | abort | back | endRead | enterCall | cancelCall =>
    exact ⟨fun _ => trivial, fun _ y hy => absurd hy List.not_mem_nil⟩

/-- A command calls a method of a contract, which reads a granule: the pointer leads to the `CallContext` of the call. -/
theorem casts_typed_sample : ∃ s s' : Machine, Run Meets s ∧ step (.host .getGranule) s = some s' ∧
    casts (.host .getGranule) s = [⟨2, .callContext⟩] ∧ ((∀ y ∈ casts (.host .getGranule) s, y.Ok s) ↔
      Meets (.host .getGranule) s) := by
  have h0 : Run Meets {} := .init
  have h1 := h0.step (a := .load "token") trivial rfl
  have h2 := h1.step (a := .loaded) trivial rfl
  have h3 := h2.step (a := .execute "token") trivial rfl
  have h4 := h3.step (a := .enter false) trivial rfl
  exact ⟨_, _, h4, rfl, rfl, casts_typed h4 rfl⟩

/-- A view that the reader asks for ends: the events are handed over to the contract's `ContractContext` as to a
`CallContext`. -/
theorem casts_typed_false : ¬ ∀ (x : Action) (s s' : Machine), Run (fun _ _ => True) s → step x s = some s' →
    ∀ y ∈ casts x s, y.Ok s := by
  intro h
  have h0 : Run (fun _ _ => True) {} := .init
  have h1 := h0.step (a := .load "token") trivial rfl
  have h2 := h1.step (a := .loaded) trivial rfl
  have h3 := h2.step (a := .callViewREQ "token") trivial rfl
  have h4 := h3.step (a := .enter true) trivial rfl
  have hbad := h .leave _ _ h4 rfl ⟨0, .callContext⟩ (List.mem_singleton.2 rfl)
  nomatch hbad

end Contexts

end Grain
