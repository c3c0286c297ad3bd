import Grain.Lemmas.Gym

/-!
# The ledger of the gym

Every effect keeps the shape of the store and the two sums, so a run of calls does: the visits issued and bought are held, left in
passes or marked used, and the contract's balance is what was paid and not withdrawn.
-/

namespace Grain

namespace Gym

open Grain.Convert (Jsi)

/-! ## The shape of the store -/

/-- The part of the ledger that is about the stored granules alone; a user with an entry has a balance too. -/
structure Shape (now : Int) (s : Store) : Prop where
  kinds : ∀ (key : String) (g : Granule), s.granules[key]? = some g → g.Fits key
  balances : ∀ u v, s.visits u = some v → 0 ≤ v
  entries : ∀ u e, s.entry u = some e → e.Sound
  active : ∀ u e, s.entry u = some e → (e.active now).length ≤ 1
  backed : ∀ u e, s.entry u = some e → ∃ v, s.visits u = some v

theorem Granule.Fits.put {s : Store} (h : ∀ (key : String) (g : Granule), s.granules[key]? = some g → g.Fits key) {key : String} {g : Granule}
    (hg : g.Fits key) : ∀ (a : String) (f : Granule), (s.put key g).granules[a]? = some f → f.Fits a := by
  intro a f hf
  rw [Store.getElem?_put] at hf
  split at hf
  · rename_i ha
    cases ha
    cases hf
    exact hg
  · exact h a f hf

namespace Shape

variable {now : Int} {s : Store}

/-- Entries only stop being active as time goes on. -/
theorem later {now' : Int} (h : Shape now s) (hle : now ≤ now') : Shape now' s := by
  refine { h with active := ?_ }
  intro u e he
  have hsub : (e.active now').Sublist (e.active now) := by
    refine List.monotone_filter_right e.passes ?_
    intro x hx
    simp only [Pass.active, Bool.and_eq_true, decide_eq_true_eq] at hx ⊢
    exact ⟨hx.1, Int.le_trans hle hx.2⟩
  exact Nat.le_trans hsub.length_le (h.active u e he)

theorem putAdmin (h : Shape now s) (a : String) : Shape now (s.put adminKey (.admin a)) where
  kinds := Granule.Fits.put h.kinds rfl
  balances := by
    intro u v hv
    rw [Store.visits_put_admin] at hv
    exact h.balances u v hv
  entries := by
    intro u e he
    rw [Store.entry_put_admin] at he
    exact h.entries u e he
  active := by
    intro u e he
    rw [Store.entry_put_admin] at he
    exact h.active u e he
  backed := by
    intro u e he
    rw [Store.entry_put_admin] at he
    rw [Store.visits_put_admin]
    exact h.backed u e he

theorem putVisits (h : Shape now s) (u : String) {n : Int} (hn : 0 ≤ n) : Shape now (s.put (passKey u) (.abonement n)) where
  kinds := Granule.Fits.put h.kinds ⟨u, rfl⟩
  balances := by
    intro w v hv
    rw [Store.visits_put_visits] at hv
    split at hv
    · cases hv
      exact hn
    · exact h.balances w v hv
  entries := by
    intro w e he
    rw [Store.entry_put_visits] at he
    exact h.entries w e he
  active := by
    intro w e he
    rw [Store.entry_put_visits] at he
    exact h.active w e he
  backed := by
    intro w e he
    rw [Store.entry_put_visits] at he
    rw [Store.visits_put_visits]
    split
    · exact ⟨n, rfl⟩
    · exact h.backed w e he

theorem putEntry (h : Shape now s) {u : String} {e : Entry} (hs : e.Sound) (ha : (e.active now).length ≤ 1)
    (hb : ∃ v, s.visits u = some v) : Shape now (s.put (entryKey u) (.entry e)) where
  kinds := Granule.Fits.put h.kinds ⟨u, rfl⟩
  balances := by
    intro w v hv
    rw [Store.visits_put_entry] at hv
    exact h.balances w v hv
  entries := by
    intro w e' he
    rw [Store.entry_put_entry] at he
    split at he
    · cases he
      exact hs
    · exact h.entries w e' he
  active := by
    intro w e' he
    rw [Store.entry_put_entry] at he
    split at he
    · cases he
      exact ha
    · exact h.active w e' he
  backed := by
    intro w e' he
    rw [Store.visits_put_entry]
    rw [Store.entry_put_entry] at he
    split at he
    · rename_i hw
      cases hw
      exact hb
    · exact h.backed w e' he

end Shape

/-! ## The passes of an entry -/

namespace Entry

variable {e : Entry} {l r : List Pass} {x y : Pass}

theorem sound_empty : ({} : Entry).Sound where
  partly := by simp
  unique := List.nodup_nil
  below := by simp

/-- A new pass takes the next id. -/
theorem Sound.push (h : e.Sound) (hid : x.id = e.nextId) (hx : 0 ≤ x.used ∧ x.used < x.M) :
    Entry.Sound { nextId := e.nextId + 1, passes := e.passes ++ [x] } where
  partly := by
    intro p hp
    obtain hp | hp := List.mem_append.1 hp
    · exact h.partly p hp
    · rw [List.mem_singleton.1 hp]
      exact hx
  unique := by
    rw [List.map_append, List.nodup_append]
    refine ⟨h.unique, by simp, ?_⟩
    intro i hi j hj hij
    obtain ⟨p, hp, rfl⟩ := List.mem_map.1 hi
    simp only [List.map_cons, List.map_nil, List.mem_singleton] at hj
    have := h.below p hp
    omega
  below := by
    intro p hp
    obtain hp | hp := List.mem_append.1 hp
    · have := h.below p hp
      dsimp only
      omega
    · rw [List.mem_singleton.1 hp]
      dsimp only
      omega

/-- A pass changes and keeps its id. -/
theorem Sound.replace (h : e.Sound) (he : e.passes = l ++ x :: r) (hid : y.id = x.id) (hy : 0 ≤ y.used ∧ y.used < y.M) :
    Entry.Sound { e with passes := l ++ y :: r } where
  partly := by
    intro p hp
    obtain hp | hp := List.mem_append.1 hp
    · exact h.partly p (he ▸ List.mem_append_left _ hp)
    · obtain rfl | hp := List.mem_cons.1 hp
      · exact hy
      · exact h.partly p (he ▸ List.mem_append_right _ (List.mem_cons_of_mem _ hp))
  unique := by
    have hu := h.unique
    rw [he] at hu
    simpa [hid] using hu
  below := by
    intro p hp
    obtain hp | hp := List.mem_append.1 hp
    · exact h.below p (he ▸ List.mem_append_left _ hp)
    · obtain rfl | hp := List.mem_cons.1 hp
      · rw [hid]
        exact h.below x (he ▸ List.mem_append_right _ List.mem_cons_self)
      · exact h.below p (he ▸ List.mem_append_right _ (List.mem_cons_of_mem _ hp))

/-- A pass is taken out. -/
theorem Sound.remove (h : e.Sound) (he : e.passes = l ++ x :: r) : Entry.Sound { e with passes := l ++ r } := by
  have hsub : (l ++ r).Sublist e.passes := by
    rw [he]
    exact List.Sublist.append_left (List.sublist_cons_self x r) l
  constructor
  · intro p hp
    exact h.partly p (hsub.subset hp)
  · exact h.unique.sublist (hsub.map _)
  · intro p hp
    exact h.below p (hsub.subset hp)

/-- A pass that is not active when it was not before adds nothing to the active ones. -/
theorem active_replace {now : Int} (he : e.passes = l ++ x :: r) (hy : y.active now = true → x.active now = true) :
    (Entry.active now { e with passes := l ++ y :: r }).length ≤ (e.active now).length := by
  simp only [Entry.active, he, List.filter_append, List.length_append, List.filter_cons]
  by_cases hx : x.active now = true
  · by_cases hy' : y.active now = true <;> simp [hx, hy']
  · have hy' : ¬ y.active now = true := by
      intro hy'
      exact hx (hy hy')
    simp [hx, hy']

theorem active_remove {now : Int} (he : e.passes = l ++ x :: r) :
    (Entry.active now { e with passes := l ++ r }).length ≤ (e.active now).length := by
  simp only [Entry.active, he, List.filter_append, List.length_append, List.filter_cons]
  split
  · simp
  · simp

end Entry

/-! ## One effect -/

section Effect

variable {now : Int} {s s' : Store} {t d : Totals}

/-- Every effect keeps the shape. -/
theorem Effect.shape (h : Effect now s s' d) (hs : Shape now s) : Shape now s' := by
  cases h with
  | admin addr => exact hs.putAdmin addr
  | issue u n old hn hu =>
    refine hs.putVisits u ?_
    cases old with
    | none => exact Int.le_of_lt (by simpa using hn)
    | some v =>
      have := hs.balances u v (by simp [Store.visits, hu])
      simp only [Option.getD_some]
      omega
  | buy u n old hn hu =>
    have hb : Shape now { s with balance := s.balance + 10 * n } := ⟨hs.kinds, hs.balances, hs.entries, hs.active, hs.backed⟩
    refine hb.putVisits u ?_
    cases old with
    | none => exact Int.le_of_lt (by simpa using hn)
    | some v =>
      have := hs.balances u v (by simp [Store.visits, hu])
      simp only [Option.getD_some]
      omega
  | enter u v M old x hM hv hu he hactive hx =>
    obtain ⟨hid, hxM, hused⟩ := hx
    have hold : (old.getD {}).Sound := by
      cases old with
      | none => exact Entry.sound_empty
      | some e => exact hs.entries u e (by simp [Store.entry, he])
    refine (hs.putVisits u (by omega)).putEntry (hold.push hid (by omega)) ?_ ⟨v - M, ?_⟩
    · simp only [Entry.active] at hactive ⊢
      rw [List.filter_append, hactive, List.nil_append]
      exact List.length_filter_le _ [x]
    · rw [Store.visits_put_visits, if_pos rfl]
  | use u e l r x n he hx hn hM =>
    have hsound := hs.entries u e he
    have hpartly := hsound.partly x (by simp [hx])
    refine hs.putEntry (hsound.replace hx rfl ⟨?_, hM⟩) ?_ (hs.backed u e he)
    · dsimp only
      omega
    · refine Nat.le_trans (Entry.active_replace hx ?_) (hs.active u e he)
      intro ha
      simp only [Pass.active, Bool.and_eq_true, decide_eq_true_eq] at ha ⊢
      exact ⟨⟨ha.1.1, hpartly.2⟩, ha.2⟩
  | close u e l r x n he hx hM =>
    exact hs.putEntry ((hs.entries u e he).remove hx) (Nat.le_trans (Entry.active_remove hx) (hs.active u e he))
      (hs.backed u e he)
  | cancel u e v l r x he hx hu =>
    have hpartly := (hs.entries u e he).partly x (by simp [hx])
    have hv := hs.balances u v hu
    refine (hs.putVisits u (by omega)).putEntry ((hs.entries u e he).remove hx) ?_ ⟨v + (x.M - x.used), ?_⟩
    · exact Nat.le_trans (Entry.active_remove hx) (hs.active u e he)
    · rw [Store.visits_put_visits, if_pos rfl]
  | disable u e l r x he hx =>
    have hsound := hs.entries u e he
    refine hs.putEntry (hsound.replace hx rfl (hsound.partly x (by simp [hx]))) ?_ (hs.backed u e he)
    refine Nat.le_trans (Entry.active_replace hx ?_) (hs.active u e he)
    intro ha
    simp [Pass.active] at ha
  | withdraw a => exact ⟨hs.kinds, hs.balances, hs.entries, hs.active, hs.backed⟩

/-- A granule that is written takes the place of what was under its key in both sums. -/
theorem Store.sums_put {key : String} {g : Granule} {o : Option Granule} (h : s.granules[key]? = o) :
    (s.put key g).held = s.held + g.held - (o.map fun g => g.held).getD 0 ∧
      (s.put key g).remaining = s.remaining + g.remaining - (o.map fun g => g.remaining).getD 0 := by
  have h1 := MapSum.total_insert (fun _ g => g.held) s.granules key g
  have h2 := MapSum.total_insert (fun _ g => g.remaining) s.granules key g
  simp only [MapSum.under, h] at h1 h2
  simp only [Store.held, Store.remaining, Store.put]
  exact ⟨by omega, by omega⟩

theorem Store.sums_put_admin (a : String)
    (hk : ∀ (key : String) (g : Granule), s.granules[key]? = some g → g.Fits key) :
    (s.put adminKey (.admin a)).held = s.held ∧ (s.put adminKey (.admin a)).remaining = s.remaining := by
  cases hg : s.granules[adminKey]? with
  | none => simpa [Granule.held, Granule.remaining] using sums_put (g := .admin a) hg
  | some g =>
    cases g with
    | admin b => simpa [Granule.held, Granule.remaining] using sums_put (g := .admin a) hg
    | abonement v =>
      obtain ⟨u, hu⟩ := hk adminKey _ hg
      exact (passKey_ne_adminKey u hu.symm).elim
    | entry e =>
      obtain ⟨u, hu⟩ := hk adminKey _ hg
      exact (entryKey_ne_adminKey u hu.symm).elim

theorem Store.sums_put_visits {u : String} {o : Option Int} (n : Int) (hu : s.granules[passKey u]? = o.map .abonement) :
    (s.put (passKey u) (.abonement n)).held = s.held + n - o.getD 0 ∧
      (s.put (passKey u) (.abonement n)).remaining = s.remaining := by
  cases o <;> simpa [Granule.held, Granule.remaining] using sums_put (g := .abonement n) hu

theorem Store.sums_put_entry {u : String} {o : Option Entry} (e : Entry) (he : s.granules[entryKey u]? = o.map .entry) :
    (s.put (entryKey u) (.entry e)).held = s.held ∧
      (s.put (entryKey u) (.entry e)).remaining = s.remaining + e.left - (o.getD {}).left := by
  cases o <;> simpa [Granule.held, Granule.remaining, Entry.left] using sums_put (g := .entry e) he

theorem Entry.left_of_passes {e : Entry} {l r : List Pass} {x : Pass} (h : e.passes = l ++ x :: r) :
    e.left = Entry.left { e with passes := l ++ r } + (x.M - x.used) := by
  simp only [Entry.left, h, List.map_append, List.map_cons, List.sum_append, List.sum_cons]
  omega

/-- What an effect adds to the totals is what it adds to the balances and the passes. -/
theorem Effect.visits (h : Effect now s s' d) (hk : ∀ (key : String) (g : Granule), s.granules[key]? = some g → g.Fits key)
    (ht : t.issued + t.bought = s.held + s.remaining + t.used) :
    (t + d).issued + (t + d).bought = s'.held + s'.remaining + (t + d).used := by
  rw [Totals.add_def]
  cases h with
  | admin addr =>
    obtain ⟨h1, h2⟩ := Store.sums_put_admin addr hk
    dsimp only
    omega
  | issue u n old hn hu =>
    obtain ⟨h1, h2⟩ := Store.sums_put_visits (old.getD 0 + n) hu
    dsimp only
    omega
  | buy u n old hn hu =>
    obtain ⟨h1, h2⟩ := Store.sums_put_visits (s := { s with balance := s.balance + 10 * n }) (old.getD 0 + n) hu
    change _ = s.held + _ - _ at h1
    change _ = s.remaining at h2
    dsimp only
    omega
  | enter u v M old x hM hv hu he hactive hx =>
    obtain ⟨h1, h2⟩ := Store.sums_put_visits (o := some v) (v - M) (Store.granules_of_visits hu)
    have he' : (s.put (passKey u) (.abonement (v - M))).granules[entryKey u]? = old.map .entry := by
      rw [Store.getElem?_put, if_neg (passKey_ne_entryKey u u), he]
    obtain ⟨h3, h4⟩ := Store.sums_put_entry
      { nextId := (old.getD {}).nextId + 1, passes := (old.getD {}).passes ++ [x] } he'
    have h5 : Entry.left { nextId := (old.getD {}).nextId + 1, passes := (old.getD {}).passes ++ [x] } =
        (old.getD {}).left + M := by
      simp [Entry.left, hx.2.1, hx.2.2]
    rw [Option.getD_some] at h1
    dsimp only
    omega
  | use u e l r x n he hx hn hM =>
    obtain ⟨h1, h2⟩ := Store.sums_put_entry (o := some e) { e with passes := l ++ { x with used := x.used + n } :: r }
      (Store.granules_of_entry he)
    have h3 := Entry.left_of_passes hx
    have h4 := Entry.left_of_passes (e := { e with passes := l ++ { x with used := x.used + n } :: r }) rfl
    rw [Option.getD_some] at h2
    dsimp only at h4 ⊢
    omega
  | close u e l r x n he hx hM =>
    obtain ⟨h1, h2⟩ := Store.sums_put_entry (o := some e) { e with passes := l ++ r } (Store.granules_of_entry he)
    have h3 := Entry.left_of_passes hx
    rw [Option.getD_some] at h2
    dsimp only
    omega
  | cancel u e v l r x he hx hu =>
    obtain ⟨h1, h2⟩ := Store.sums_put_visits (o := some v) (v + (x.M - x.used)) (Store.granules_of_visits hu)
    have he' : (s.put (passKey u) (.abonement (v + (x.M - x.used)))).granules[entryKey u]? = (some e).map .entry := by
      rw [Store.getElem?_put, if_neg (passKey_ne_entryKey u u), Store.granules_of_entry he]
      rfl
    obtain ⟨h3, h4⟩ := Store.sums_put_entry { e with passes := l ++ r } he'
    have h5 := Entry.left_of_passes hx
    rw [Option.getD_some] at h1 h4
    dsimp only
    omega
  | disable u e l r x he hx =>
    obtain ⟨h1, h2⟩ := Store.sums_put_entry (o := some e) { e with passes := l ++ { x with disabled := true } :: r }
      (Store.granules_of_entry he)
    have h3 := Entry.left_of_passes hx
    have h4 := Entry.left_of_passes (e := { e with passes := l ++ { x with disabled := true } :: r }) rfl
    rw [Option.getD_some] at h2
    dsimp only at h4 ⊢
    omega
  | withdraw a =>
    change _ = s.held + s.remaining + _
    dsimp only
    omega

/-- The balance moves by what is bought and withdrawn. -/
theorem Effect.tokens (h : Effect now s s' d) (ht : s.balance = 10 * t.bought - t.withdrawn) :
    s'.balance = 10 * (t + d).bought - (t + d).withdrawn := by
  rw [Totals.add_def]
  cases h <;> simp only [Store.put] <;> omega

end Effect

/-! ## Runs -/

/-- What holds after every call of a run. -/
structure Inv (now : Int) (x : Store × Totals) : Prop where
  shape : Shape now x.1
  visits : x.2.issued + x.2.bought = x.1.held + x.1.remaining + x.2.used
  tokens : x.1.balance = 10 * x.2.bought - x.2.withdrawn

theorem inv_deploy (now : Int) : Inv now ({}, {}) where
  shape := by
    constructor <;> simp [Store.visits, Store.entry]
  visits := by simp [Store.held, Store.remaining]
  tokens := rfl

theorem Inv.later {now now' : Int} {x : Store × Totals} (h : Inv now x) (hle : now ≤ now') : Inv now' x :=
  ⟨h.shape.later hle, h.visits, h.tokens⟩

/-- A call keeps the invariant. -/
theorem Inv.step {E : Engine} {x : Store × Totals} {c : Call} (h : Inv c.msg.blockTimestamp x) :
    Inv c.msg.blockTimestamp (step E x c) := by
  unfold Gym.step
  cases ho : outcome E c x.1 with
  | none => exact h
  | some s' =>
    have he := effect_of_outcome h.shape.entries h.shape.backed ho
    exact ⟨he.shape h.shape, he.visits h.shape.kinds h.visits, he.tokens h.tokens⟩

/-- The calls of a run, block by block. -/
def InOrder (cs : List Call) : Prop := cs.Pairwise fun a b => a.msg.blockTimestamp ≤ b.msg.blockTimestamp

/-- A run keeps the invariant, at every time from its last block on. -/
theorem Inv.run {E : Engine} {now : Int} {cs : List Call} (h : InOrder cs) (hnow : ∀ c ∈ cs, c.msg.blockTimestamp ≤ now) :
    Inv now (run E cs) := by
  induction cs using List.reverseRecOn generalizing now with
  | nil => exact inv_deploy now
  | append_singleton cs c ih =>
    obtain ⟨hcs, -, hlast⟩ := List.pairwise_append.1 h
    have hi : Inv c.msg.blockTimestamp (Gym.run E cs) := by
      refine ih hcs ?_
      intro b hb
      exact hlast b hb c (List.mem_singleton_self c)
    have hstep : Gym.run E (cs ++ [c]) = Gym.step E (Gym.run E cs) c := by
      simp only [Gym.run, List.foldl_append, List.foldl_cons, List.foldl_nil]
    rw [hstep]
    exact hi.step.later (hnow c (List.mem_append_right _ (List.mem_singleton_self c)))

/-- After every call of a run with blocks in order, at any time from then on, the ledger is sound: no negative balances, only
partly used passes with unique ids, at most one of a user's passes active, every visit accounted for, and every token. -/
theorem ledger_kept (E : Engine) (cs : List Call) (h : InOrder cs) (now : Int) (hnow : ∀ c ∈ cs, c.msg.blockTimestamp ≤ now) :
    Ledger now (run E cs).1 (run E cs).2 := by
  obtain ⟨hs, hv, ht⟩ := Inv.run (E := E) h hnow
  exact ⟨hs.kinds, hs.balances, hs.entries, hs.active, hv, ht⟩

/-- An engine on the arguments that need no conversion. -/
def plainEngine : Engine where
  number
    | .int n => .ok (some n)
    | _ => .ok none
  string
    | .str s => .ok (String.ofList s)
    | _ => .ok ""

/-- An object with these members. -/
def members (l : List (String × Jsi)) : Jsi := .obj (l.map fun f => (f.1.toList, f.2))

/-- A season: visits are issued and bought, a pass of three is entered, two of its visits are used, and the admin withdraws. -/
def season : List Call :=
  [{ method := .init, params := members [("admin", str "a")], msg := ⟨"a", 0, 1⟩ },
   { method := .issuePass, params := members [("visits", int 5), ("user", str "u")], msg := ⟨"a", 0, 1⟩ },
   { method := .buyVisits, params := members [("visits", int 2)], msg := ⟨"u", 20, 2⟩ },
   { method := .createEntry, params := members [("M", int 3), ("ttl", int 10)], msg := ⟨"u", 0, 3⟩ },
   { method := .markUsed, params := members [("user", str "u"), ("entry_id", int 0), ("count", int 2)], msg := ⟨"a", 0, 4⟩ },
   { method := .withdraw, params := members [("amount", int 15)], msg := ⟨"a", 0, 5⟩ }]

theorem ledger_kept_sample :
    (run plainEngine season).2 = { issued := 5, bought := 2, used := 2, withdrawn := 15 } ∧
      Ledger 5 (run plainEngine season).1 (run plainEngine season).2 := by
  refine ⟨by decide +kernel, ledger_kept plainEngine season ?_ 5 ?_⟩
  · simp [InOrder, season]
  · simp [season]

end Gym

end Grain
