import Grain.Gym

/-!
# What the methods of the gym do

The code of a method ends without an exception in a few ways only: these lemmas read them off, and `Effect` names what a method
then does to the store.
-/

namespace Grain

namespace Gym

open Grain.Convert (Jsi)

/-! ## The code of a method -/

section Code

variable {α β : Type} {x : Code α} {f : α → Code β} {h : Host}

theorem bind_ok {z : β × Host} : (x >>= f) h = .ok z ↔ ∃ a k, x h = .ok (a, k) ∧ f a k = .ok z := by
  constructor
  · intro hz
    cases hx : x h with
    | error e =>
      have hb : (x >>= f) h = .error e := by
        simp only [bind, StateT.bind, hx, Except.bind]
      rw [hb] at hz
      cases hz
    | ok y =>
      have hb : (x >>= f) h = f y.1 y.2 := by
        simp only [bind, StateT.bind, hx, Except.bind]
      exact ⟨y.1, y.2, rfl, hb ▸ hz⟩
  · rintro ⟨a, k, hx, hf⟩
    simp only [bind, StateT.bind, hx, Except.bind, hf]

theorem pure_ok {a : α} {z : α × Host} : (pure a : Code α) h = .ok z ↔ z = (a, h) := by
  constructor
  · intro hz
    exact (Except.ok.inj hz).symm
  · rintro rfl
    rfl

theorem throw_ok {e : String} {z : α × Host} : (throw e : Code α) h = .ok z ↔ False := by
  constructor
  · intro hz
    cases hz
  · exact False.elim

theorem ite_ok {c : Prop} [Decidable c] {y : Code α} {z : α × Host} :
    (if c then x else y) h = .ok z ↔ (c ∧ x h = .ok z) ∨ (¬ c ∧ y h = .ok z) := by
  by_cases hc : c <;> simp [hc]

theorem throwIf_ok {c : Prop} [Decidable c] {e : String} {z : Unit × Host} :
    throwIf c e h = .ok z ↔ ¬ c ∧ z = ((), h) := by
  simp only [throwIf, ite_ok, throw_ok, pure_ok, and_false, false_or]

theorem orThrow_ok {o : Option α} {e : String} {z : α × Host} : orThrow o e h = .ok z ↔ ∃ a, o = some a ∧ z = (a, h) := by
  cases o with
  | none => simp [orThrow, throw_ok]
  | some a => simp [orThrow, pure_ok]

theorem checked_ok {op : String} {n : Int} {z : Int × Host} : checked op n h = .ok z ↔ InI64 n ∧ z = (n, h) := by
  simp only [checked, ite_ok, throw_ok, pure_ok, and_false, or_false]

theorem positive_ok {o : Option Int} {e : String} {z : Int × Host} :
    positive o e h = .ok z ↔ ∃ n, o = some n ∧ 0 < n ∧ z = (n, h) := by
  cases o with
  | none => simp [positive, throw_ok]
  | some n => simp [positive, ite_ok, throw_ok, pure_ok]

theorem string_ok {E : Engine} {v : Jsi} {z : String × Host} : string E v h = .ok z ↔ ∃ s, E.string v = .ok s ∧ z = (s, h) := by
  unfold string
  cases hs : E.string v with
  | error e => simp [liftM, monadLift, MonadLift.monadLift, StateT.lift, bind, Except.bind]
  | ok s => simp [liftM, monadLift, MonadLift.monadLift, StateT.lift, bind, Except.bind, pure, Except.pure, eq_comm]

theorem number_ok {E : Engine} {v : Jsi} {z : Option Int × Host} :
    number E v h = .ok z ↔ ∃ n, E.number v = .ok n ∧ z = (n.map Int64.toInt, h) := by
  unfold number
  cases hn : E.number v with
  | error e => simp [liftM, monadLift, MonadLift.monadLift, StateT.lift, bind, StateT.bind, Except.bind]
  | ok n => simp [liftM, monadLift, MonadLift.monadLift, StateT.lift, bind, StateT.bind, Except.bind, pure, StateT.pure,
      Except.pure, eq_comm]

theorem prop_ok {p v : Jsi} {name : String} {k : Host} (hp : prop p name h = .ok (v, k)) : v = propOf p name ∧ k = h := by
  cases p with
  | undefined => exact (throw_ok.1 hp).elim
  | null => exact (throw_ok.1 hp).elim
  | _ => exact Prod.mk.inj (pure_ok.1 hp)

end Code

/-! ## The interface -/

section Interface

variable {h k : Host} {key : String}

/-- The store with a granule. -/
def Store.put (s : Store) (key : String) (g : Granule) : Store := { s with granules := s.granules.insert key g }

/-- The state of a call with another store. -/
def Host.withStore (h : Host) (s : Store) : Host := { h with toStore := s }

theorem createGranule_ok {g : Granule} (hc : createGranule key g h = .ok ((), k)) :
    h.granules[key]? = none ∧ k = h.withStore (h.toStore.put key g) := by
  simp only [createGranule, bind_ok, ite_ok, throw_ok, and_false, false_or] at hc
  obtain ⟨a, k1, hg, hn, hs⟩ := hc
  cases hg
  cases hs
  exact ⟨by simpa using hn, rfl⟩

theorem setGranule_ok {g : Granule} (hc : setGranule key g h = .ok ((), k)) : k = h.withStore (h.toStore.put key g) := by
  simp only [setGranule, bind_ok, ite_ok, throw_ok, and_false, false_or] at hc
  obtain ⟨a, k1, hg, hn, hs⟩ := hc
  cases hg
  cases hs
  rfl

theorem emit_ok {name : String} {fields : List (String × Jsi)} (he : emit name fields h = .ok ((), k)) :
    k.toStore = h.toStore ∧ k.overflow = h.overflow := by
  cases he
  exact ⟨rfl, rfl⟩

theorem getAdmin_ok {a : Option String} (hc : getAdmin h = .ok (a, k)) : a = h.admin ∧ k = h := by
  cases hc
  exact ⟨rfl, rfl⟩

theorem getVisits_ok {u : String} {v : Option Int} (hc : getVisits u h = .ok (v, k)) : v = h.visits u ∧ k = h := by
  cases hc
  exact ⟨rfl, rfl⟩

theorem getEntry_ok {u : String} {e : Option Entry} (hc : getEntry u h = .ok (e, k)) : e = h.entry u ∧ k = h := by
  cases hc
  exact ⟨rfl, rfl⟩

theorem adminOnly_ok {m : Msg} (hc : adminOnly m h = .ok ((), k)) : k = h := by
  simp only [adminOnly, isAdmin, bind_ok, throwIf_ok] at hc
  obtain ⟨b, k1, ⟨a, k2, ha, hb⟩, -, hk⟩ := hc
  cases hk
  cases hb
  exact (getAdmin_ok ha).2

theorem addContractBalance_ok {d : Int} (hc : addContractBalance d h = .ok ((), k)) :
    k = { h with
      balance := wrap64 (h.balance + d), overflow := h.overflow || decide (¬ InI64 (h.balance + d)) } := by
  cases hc
  rfl

end Interface

/-! ## Keys -/

theorem passKey_inj {u v : String} (h : passKey u = passKey v) : u = v := by
  have := congrArg String.toList h
  simpa [passKey, String.ext_iff] using this

theorem entryKey_inj {u v : String} (h : entryKey u = entryKey v) : u = v := by
  have := congrArg String.toList h
  simpa [entryKey, String.ext_iff] using this

theorem passKey_ne_entryKey (u v : String) : passKey u ≠ entryKey v := by
  intro h
  have := congrArg String.toList h
  simp [passKey, entryKey] at this

theorem passKey_ne_adminKey (u : String) : passKey u ≠ adminKey := by
  intro h
  have := congrArg String.toList h
  simp [passKey, adminKey] at this

theorem entryKey_ne_adminKey (u : String) : entryKey u ≠ adminKey := by
  intro h
  have := congrArg String.toList h
  simp [entryKey, adminKey] at this

/-! ## The store -/

namespace Store

variable {s : Store} {u : String}

theorem granules_of_visits {v : Int} (h : s.visits u = some v) : s.granules[passKey u]? = some (.abonement v) := by
  unfold visits at h
  split at h
  · rename_i w hw
    cases h
    exact hw
  · cases h

theorem granules_of_entry {e : Entry} (h : s.entry u = some e) : s.granules[entryKey u]? = some (.entry e) := by
  unfold entry at h
  split at h
  · rename_i w hw
    cases h
    exact hw
  · cases h

theorem getElem?_put (key a : String) (g : Granule) :
    (s.put key g).granules[a]? = if key = a then some g else s.granules[a]? :=
  StdMap.getElem?_insert ..

theorem visits_put_admin (a : String) (v : String) : (s.put adminKey (.admin a)).visits v = s.visits v := by
  unfold visits
  rw [getElem?_put, if_neg (passKey_ne_adminKey v).symm]

theorem entry_put_admin (a : String) (v : String) : (s.put adminKey (.admin a)).entry v = s.entry v := by
  unfold entry
  rw [getElem?_put, if_neg (entryKey_ne_adminKey v).symm]

theorem visits_put_visits (u v : String) (n : Int) :
    (s.put (passKey u) (.abonement n)).visits v = if u = v then some n else s.visits v := by
  unfold visits
  rw [getElem?_put]
  by_cases huv : u = v
  · simp [huv]
  · have hk : passKey u ≠ passKey v := by
      intro hk
      exact huv (passKey_inj hk)
    simp [huv, hk]

theorem entry_put_visits (u v : String) (n : Int) : (s.put (passKey u) (.abonement n)).entry v = s.entry v := by
  unfold entry
  rw [getElem?_put, if_neg (passKey_ne_entryKey u v)]

theorem visits_put_entry (u v : String) (e : Entry) : (s.put (entryKey u) (.entry e)).visits v = s.visits v := by
  unfold visits
  rw [getElem?_put, if_neg (passKey_ne_entryKey v u).symm]

theorem entry_put_entry (u v : String) (e : Entry) :
    (s.put (entryKey u) (.entry e)).entry v = if u = v then some e else s.entry v := by
  unfold entry
  rw [getElem?_put]
  by_cases huv : u = v
  · simp [huv]
  · have hk : entryKey u ≠ entryKey v := by
      intro hk
      exact huv (entryKey_inj hk)
    simp [huv, hk]

/-- Of two writes to one key the second stays, whatever is written between them elsewhere. -/
theorem put_put_put (a b : String) (g g' g'' : Granule) :
    ((s.put a g).put b g').put a g'' = (s.put b g').put a g'' := by
  have hm : ((s.granules.insert a g).insert b g').insert a g'' = (s.granules.insert b g').insert a g'' := by
    apply Std.ExtTreeMap.ext_getElem?
    intro k
    simp only [StdMap.getElem?_insert]
    by_cases hk : a = k
    · simp [hk]
    · simp [hk]
  simp only [put, hm]

end Store

/-! ## What a call does to the store -/

/-- What a call that goes through does to the store, and what it adds to the totals. -/
inductive Effect (now : Int) (s : Store) : Store → Totals → Prop
  | admin (addr : String) : Effect now s (s.put adminKey (.admin addr)) {}
  | issue (u : String) (n : Int) (old : Option Int) (hn : 0 < n) (hu : s.granules[passKey u]? = old.map .abonement) :
      Effect now s (s.put (passKey u) (.abonement (old.getD 0 + n))) { issued := n }
  | buy (u : String) (n : Int) (old : Option Int) (hn : 0 < n) (hu : s.granules[passKey u]? = old.map .abonement) :
      Effect now s ({ s with balance := s.balance + 10 * n }.put (passKey u) (.abonement (old.getD 0 + n))) { bought := n }
  | enter (u : String) (v M : Int) (old : Option Entry) (x : Pass) (hM : 0 < M) (hv : M ≤ v) (hu : s.visits u = some v)
      (he : s.granules[entryKey u]? = old.map .entry) (hactive : (old.getD {}).active now = [])
      (hx : x.id = (old.getD {}).nextId ∧ x.M = M ∧ x.used = 0) :
      Effect now s ((s.put (passKey u) (.abonement (v - M))).put (entryKey u)
        (.entry { nextId := (old.getD {}).nextId + 1, passes := (old.getD {}).passes ++ [x] })) {}
  | use (u : String) (e : Entry) (l r : List Pass) (x : Pass) (n : Int) (he : s.entry u = some e)
      (hx : e.passes = l ++ x :: r) (hn : 0 < n) (hM : x.used + n < x.M) :
      Effect now s (s.put (entryKey u) (.entry { e with passes := l ++ { x with used := x.used + n } :: r })) { used := n }
  | close (u : String) (e : Entry) (l r : List Pass) (x : Pass) (n : Int) (he : s.entry u = some e)
      (hx : e.passes = l ++ x :: r) (hM : x.used + n = x.M) :
      Effect now s (s.put (entryKey u) (.entry { e with passes := l ++ r })) { used := n }
  | cancel (u : String) (e : Entry) (v : Int) (l r : List Pass) (x : Pass) (he : s.entry u = some e)
      (hx : e.passes = l ++ x :: r) (hu : s.visits u = some v) :
      Effect now s ((s.put (passKey u) (.abonement (v + (x.M - x.used)))).put (entryKey u)
        (.entry { e with passes := l ++ r })) {}
  | disable (u : String) (e : Entry) (l r : List Pass) (x : Pass) (he : s.entry u = some e) (hx : e.passes = l ++ x :: r) :
      Effect now s (s.put (entryKey u) (.entry { e with passes := l ++ { x with disabled := true } :: r })) {}
  | withdraw (a : Int) : Effect now s { s with balance := s.balance - a } { withdrawn := a }

section Methods

variable {E : Engine} {p : Jsi} {m : Msg} {h k : Host}

theorem numberOf_eq {v : Jsi} {n : Option Int64} {i : Int} (hn : E.number v = .ok n) (hi : n.map Int64.toInt = some i) :
    numberOf E v = i := by
  obtain ⟨j, rfl, rfl⟩ := Option.map_eq_some_iff.1 hi
  simp only [numberOf, hn]

/-- An argument that is a number above 0. -/
theorem positive_arg {v : Jsi} {o : Option Int} {k' : Host} {text : String} {n : Int} (hv : number E v h = .ok (o, k))
    (hn : positive o text k = .ok (n, k')) : n = numberOf E v ∧ 0 < n ∧ k' = h := by
  obtain ⟨i, hi, hz⟩ := number_ok.1 hv
  cases hz
  obtain ⟨n', hn', hpos, hz⟩ := positive_ok.1 hn
  cases hz
  exact ⟨(numberOf_eq hi hn').symm, hpos, rfl⟩

/-- A property that is converted to a number above 0. -/
theorem positive_prop {name : String} {o : Option Int} {k' : Host} {text : String} {n : Int}
    (hv : (prop p name >>= number E) h = .ok (o, k)) (hn : positive o text k = .ok (n, k')) :
    n = numberOf E (propOf p name) ∧ 0 < n ∧ k' = h := by
  obtain ⟨v, k1, hp, hnum⟩ := bind_ok.1 hv
  obtain ⟨rfl, rfl⟩ := prop_ok hp
  exact positive_arg hnum hn

theorem number_prop {name : String} {o : Option Int} (hv : (prop p name >>= number E) h = .ok (o, k)) : k = h := by
  obtain ⟨v, k1, hp, hn⟩ := bind_ok.1 hv
  obtain ⟨n, -, hz⟩ := number_ok.1 hn
  cases hz
  exact (prop_ok hp).2

theorem string_prop {name s : String} (hv : (prop p name >>= string E) h = .ok (s, k)) : k = h := by
  obtain ⟨v, k1, hp, hs⟩ := bind_ok.1 hv
  obtain ⟨s', -, hz⟩ := string_ok.1 hs
  cases hz
  exact (prop_ok hp).2

theorem credit_ok {u : String} {n : Int} (hc : credit u n h = .ok ((), k)) :
    ∃ old : Option Int, h.granules[passKey u]? = old.map .abonement ∧
      k = h.withStore (h.toStore.put (passKey u) (.abonement (old.getD 0 + n))) := by
  simp only [credit, bind_ok] at hc
  obtain ⟨o, k1, ho, hc⟩ := hc
  obtain ⟨rfl, rfl⟩ := getVisits_ok ho
  cases hv : k1.visits u with
  | none =>
    simp only [hv] at hc
    obtain ⟨hn, hk⟩ := createGranule_ok hc
    refine ⟨none, hn, ?_⟩
    rw [hk]
    simp
  | some v =>
    simp only [hv, bind_ok, checked_ok] at hc
    obtain ⟨w, k2, ⟨-, hw⟩, hs⟩ := hc
    cases hw
    exact ⟨some v, Store.granules_of_visits hv, setGranule_ok hs⟩

theorem consumeValue_ok {a : Int} (hc : consumeValue a h = .ok ((), k)) :
    k.toStore = { h.toStore with balance := wrap64 (h.balance + a) } ∧
      k.overflow = (h.overflow || decide (¬ InI64 (h.balance + a))) := by
  simp only [consumeValue, bind_ok, ite_ok, throw_ok, and_false, false_or] at hc
  obtain ⟨h1, k1, hg, -, -, _, k2, hs, ha⟩ := hc
  cases hg
  cases hs
  rw [addContractBalance_ok ha]
  exact ⟨rfl, rfl⟩

theorem refundValue_ok {a : Int} (hc : refundValue a h = .ok ((), k)) (ho : k.overflow = false) :
    k.toStore = { h.toStore with balance := h.balance - a } := by
  simp only [refundValue, bind_ok, ite_ok, throw_ok, and_false, false_or] at hc
  obtain ⟨h1, k1, hg, -, -, _, k2, hs, ha⟩ := hc
  cases hg
  cases addContractBalance_ok hs
  cases ha
  simp only [Bool.or_eq_false_iff, decide_eq_false_iff_not, not_not] at ho
  simp only [wrap64_eq ho.1.2, Int.sub_eq_add_neg]

theorem init_ok (hc : init E p m h = .ok ((), k)) : Effect m.blockTimestamp h.toStore k.toStore {} := by
  simp only [init, bind_ok (x := getAdmin), bind_ok (x := throwIf _ _), bind_ok (x := prop p _ >>= _)] at hc
  obtain ⟨a, k1, ha, _, k2, ht, addr, k3, hs, hc⟩ := hc
  cases (getAdmin_ok ha).2
  cases (throwIf_ok.1 ht).2
  cases string_prop hs
  rw [(createGranule_ok hc).2]
  exact Effect.admin addr

theorem setAdmin_ok (hc : setAdmin E p m h = .ok ((), k)) : Effect m.blockTimestamp h.toStore k.toStore {} := by
  obtain ⟨_, k1, ha, hc⟩ := bind_ok.1 hc
  obtain ⟨addr, k2, hs, hc⟩ := bind_ok.1 hc
  cases adminOnly_ok ha
  cases string_prop hs
  rw [setGranule_ok hc]
  exact Effect.admin addr

theorem userOf_ok {u : Jsi} {user : String} (hc : userOf E u m h = .ok (user, k)) : k = h := by
  simp only [userOf, ite_ok, string_ok, pure_ok] at hc
  obtain ⟨-, s, -, hz⟩ | ⟨-, hz⟩ := hc
  · cases hz
    rfl
  · cases hz
    rfl

theorem issuePass_ok (hc : issuePass E p m h = .ok ((), k)) :
    Effect m.blockTimestamp h.toStore k.toStore { issued := numberOf E (propOf p "visits") } := by
  obtain ⟨_, k1, ha, hc⟩ := bind_ok.1 hc
  obtain ⟨u, k2, hu, hc⟩ := bind_ok.1 hc
  obtain ⟨user, k3, huser, hc⟩ := bind_ok.1 hc
  obtain ⟨o, k4, ho, hc⟩ := bind_ok.1 hc
  obtain ⟨n, k5, hn, hc⟩ := bind_ok.1 hc
  obtain ⟨_, k6, hcredit, he⟩ := bind_ok.1 hc
  cases adminOnly_ok ha
  cases (prop_ok hu).2
  cases userOf_ok huser
  obtain ⟨rfl, hpos, rfl⟩ := positive_prop ho hn
  obtain ⟨old, hold, rfl⟩ := credit_ok hcredit
  rw [(emit_ok he).1]
  exact Effect.issue user _ old hpos hold

theorem buyVisits_ok (hc : buyVisits E p m h = .ok ((), k)) (hk : k.overflow = false) :
    Effect m.blockTimestamp h.toStore k.toStore { bought := numberOf E (propOf p "visits") } := by
  obtain ⟨o, k1, ho, hc⟩ := bind_ok.1 hc
  obtain ⟨n, k2, hn, hc⟩ := bind_ok.1 hc
  obtain ⟨total, k3, ht, hc⟩ := bind_ok.1 hc
  obtain ⟨_, k4, hv, hc⟩ := bind_ok.1 hc
  obtain ⟨_, k5, hcredit, he⟩ := bind_ok.1 hc
  obtain ⟨rfl, hpos, rfl⟩ := positive_prop ho hn
  obtain ⟨-, hz⟩ := checked_ok.1 ht
  cases hz
  obtain ⟨hs, hov⟩ := consumeValue_ok hv
  obtain ⟨old, hold, rfl⟩ := credit_ok hcredit
  obtain ⟨he, heo⟩ := emit_ok he
  have hfit : InI64 (k2.balance + numberOf E (propOf p "visits") * pricePerVisit) := by
    have h1 : k4.overflow = false := heo.symm.trans hk
    rw [hov] at h1
    simpa using (Bool.or_eq_false_iff.1 h1).2
  rw [wrap64_eq hfit, pricePerVisit, Int.mul_comm] at hs
  rw [he]
  change Effect _ k2.toStore (k4.toStore.put _ _) _
  rw [hs] at hold ⊢
  exact Effect.buy m.sender _ old hpos hold

theorem withdraw_ok (hc : withdraw E p m h = .ok ((), k)) (hk : k.overflow = false) :
    Effect m.blockTimestamp h.toStore k.toStore { withdrawn := numberOf E (propOf p "amount") } := by
  obtain ⟨_, k1, ha, hc⟩ := bind_ok.1 hc
  obtain ⟨o, k2, ho, hc⟩ := bind_ok.1 hc
  obtain ⟨n, k3, hn, hc⟩ := bind_ok.1 hc
  obtain ⟨_, k4, hr, he⟩ := bind_ok.1 hc
  cases adminOnly_ok ha
  obtain ⟨rfl, -, rfl⟩ := positive_prop ho hn
  obtain ⟨he, heo⟩ := emit_ok he
  rw [he, refundValue_ok hr (heo.symm.trans hk)]
  exact Effect.withdraw _

/-- The loop over the passes ends at the first pass with the id. -/
theorem findPass_ok {user : String} {e : Entry} {idx : Nat} {x : Pass} (hc : findPass E p user h = .ok ((e, idx, x), k)) :
    h.entry user = some e ∧ k = h ∧ ∃ l r, e.passes = l ++ x :: r ∧ l.length = idx := by
  obtain ⟨e', k1, he, hc⟩ := bind_ok.1 hc
  obtain ⟨id, k2, hid, hc⟩ := bind_ok.1 hc
  obtain ⟨i, k3, hi, hc⟩ := bind_ok.1 hc
  obtain ⟨y, k4, hy, hc⟩ := bind_ok.1 hc
  obtain ⟨o, k5, ho, he⟩ := bind_ok.1 he
  obtain ⟨rfl, rfl⟩ := getEntry_ok ho
  obtain ⟨e'', he', hz⟩ := orThrow_ok.1 he
  cases hz
  obtain ⟨v, k6, hv, hn⟩ := bind_ok.1 hid
  cases (prop_ok hv).2
  obtain ⟨n, -, hz⟩ := number_ok.1 hn
  cases hz
  obtain ⟨i', -, hz⟩ := orThrow_ok.1 hi
  cases hz
  obtain ⟨y', hy', hz⟩ := orThrow_ok.1 hy
  cases hz
  cases pure_ok.1 hc
  obtain ⟨hlt, hget⟩ := List.getElem?_eq_some_iff.1 hy'
  refine ⟨he', rfl, e.passes.take idx, e.passes.drop (idx + 1), ?_, ?_⟩
  · rw [← hget, List.cons_getElem_drop_succ, List.take_append_drop]
  · rw [List.length_take]
    omega

theorem markUsed_ok (hc : markUsed E p m h = .ok ((), k)) :
    Effect m.blockTimestamp h.toStore k.toStore { used := numberOf E (countOf p) } := by
  obtain ⟨_, k1, ha, hc⟩ := bind_ok.1 hc
  obtain ⟨u, k2, hu, hc⟩ := bind_ok.1 hc
  obtain ⟨_, k3, hreq, hc⟩ := bind_ok.1 hc
  obtain ⟨user, k4, huser, hc⟩ := bind_ok.1 hc
  obtain ⟨⟨e, idx, x⟩, k5, hfind, hc⟩ := bind_ok.1 hc
  obtain ⟨_, k6, hdis, hc⟩ := bind_ok.1 hc
  obtain ⟨_, k7, hexp, hc⟩ := bind_ok.1 hc
  obtain ⟨o, k8, ho, hc⟩ := bind_ok.1 hc
  obtain ⟨cnt, k9, hcnt, hc⟩ := bind_ok.1 hc
  obtain ⟨used, k10, hused, hc⟩ := bind_ok.1 hc
  obtain ⟨_, k11, hM, hc⟩ := bind_ok.1 hc
  cases adminOnly_ok ha
  cases (prop_ok hu).2
  cases (throwIf_ok.1 hreq).2
  obtain ⟨s, -, hz⟩ := string_ok.1 huser
  cases hz
  obtain ⟨he, rfl, l, r, hx, rfl⟩ := findPass_ok hfind
  cases (throwIf_ok.1 hdis).2
  cases (throwIf_ok.1 hexp).2
  obtain ⟨rfl, hpos, rfl⟩ := positive_arg ho hcnt
  obtain ⟨-, hz⟩ := checked_ok.1 hused
  cases hz
  obtain ⟨hM, hz⟩ := throwIf_ok.1 hM
  cases hz
  obtain ⟨heq, hc⟩ | ⟨hne, hc⟩ := ite_ok.1 hc
  · obtain ⟨_, k12, hset, hem⟩ := bind_ok.1 hc
    rw [(emit_ok hem).1, setGranule_ok hset, hx, List.eraseIdx_append_of_length_le (Nat.le_refl _), Nat.sub_self,
      List.eraseIdx_cons_zero]
    exact Effect.close user e l r x _ he hx heq
  · obtain ⟨_, k12, hset, hem⟩ := bind_ok.1 hc
    rw [(emit_ok hem).1, setGranule_ok hset, hx, List.set_append_right _ _ (Nat.le_refl _), Nat.sub_self, List.set_cons_zero]
    exact Effect.use user e l r x _ he hx hpos (by omega)

theorem disableEntry_ok (hc : disableEntry E p m h = .ok ((), k)) : Effect m.blockTimestamp h.toStore k.toStore {} := by
  obtain ⟨user, k1, hu, hc⟩ := bind_ok.1 hc
  obtain ⟨⟨e, idx, x⟩, k2, hfind, hc⟩ := bind_ok.1 hc
  obtain ⟨_, k3, hown, hc⟩ := bind_ok.1 hc
  obtain ⟨_, k4, hset, hem⟩ := bind_ok.1 hc
  cases string_prop hu
  obtain ⟨he, rfl, l, r, hx, rfl⟩ := findPass_ok hfind
  cases (throwIf_ok.1 hown).2
  rw [(emit_ok hem).1, setGranule_ok hset, hx, List.set_append_right _ _ (Nat.le_refl _), Nat.sub_self, List.set_cons_zero]
  exact Effect.disable user e l r x he hx

theorem giveBack_ok {user : String} {n v : Int} (hn : 0 < n) (hv : h.visits user = some v)
    (hc : giveBack user n h = .ok ((), k)) : k = h.withStore (h.toStore.put (passKey user) (.abonement (v + n))) := by
  rw [giveBack, if_pos hn] at hc
  obtain ⟨o, k1, ho, hc⟩ := bind_ok.1 hc
  obtain ⟨rfl, rfl⟩ := getVisits_ok ho
  simp only [hv, bind_ok, checked_ok] at hc
  obtain ⟨w, k2, ⟨-, hz⟩, hset⟩ := hc
  cases hz
  exact setGranule_ok hset

/-- A pass with visits left goes back to the balance, which the user of a pass has. -/
theorem cancelEntry_ok (hsound : ∀ u e, h.entry u = some e → e.Sound)
    (hback : ∀ u e, h.entry u = some e → ∃ v, h.visits u = some v)
    (hc : cancelEntry E p m h = .ok ((), k)) : Effect m.blockTimestamp h.toStore k.toStore {} := by
  obtain ⟨user, k1, hu, hc⟩ := bind_ok.1 hc
  obtain ⟨⟨e, idx, x⟩, k2, hfind, hc⟩ := bind_ok.1 hc
  obtain ⟨_, k3, hown, hc⟩ := bind_ok.1 hc
  obtain ⟨_, k4, hdis, hc⟩ := bind_ok.1 hc
  obtain ⟨refund, k5, href, hc⟩ := bind_ok.1 hc
  obtain ⟨_, k6, hgive, hc⟩ := bind_ok.1 hc
  obtain ⟨_, k7, hset, hem⟩ := bind_ok.1 hc
  cases string_prop hu
  obtain ⟨he, rfl, l, r, hx, rfl⟩ := findPass_ok hfind
  cases (throwIf_ok.1 hown).2
  cases (throwIf_ok.1 hdis).2
  obtain ⟨-, hz⟩ := checked_ok.1 href
  cases hz
  obtain ⟨v, hv⟩ := hback user e he
  have hleft := ((hsound user e he).partly x (by simp [hx])).2
  cases giveBack_ok (by omega) hv hgive
  rw [(emit_ok hem).1, setGranule_ok hset, hx, List.eraseIdx_append_of_length_le (Nat.le_refl _), Nat.sub_self,
    List.eraseIdx_cons_zero]
  exact Effect.cancel user e v l r x he hx hv

theorem entryOrCreate_ok {user : String} {e : Entry} (hc : entryOrCreate user h = .ok (e, k)) :
    ∃ old : Option Entry, h.granules[entryKey user]? = old.map .entry ∧ e = old.getD {} ∧
      (k = h ∨ k = h.withStore (h.toStore.put (entryKey user) (.entry {}))) := by
  obtain ⟨o, k1, ho, hc⟩ := bind_ok.1 hc
  obtain ⟨rfl, rfl⟩ := getEntry_ok ho
  cases he : k1.entry user with
  | none =>
    simp only [he, bind_ok] at hc
    obtain ⟨_, k2, hcreate, hz⟩ := hc
    cases pure_ok.1 hz
    obtain ⟨hn, hk⟩ := createGranule_ok hcreate
    exact ⟨none, hn, rfl, .inr hk⟩
  | some e' =>
    simp only [he] at hc
    cases pure_ok.1 hc
    exact ⟨some e, Store.granules_of_entry he, rfl, .inl rfl⟩

theorem createEntry_ok (hc : createEntry E p m h = .ok ((), k)) : Effect m.blockTimestamp h.toStore k.toStore {} := by
  obtain ⟨o, k1, ho, hc⟩ := bind_ok.1 hc
  obtain ⟨o', k2, ho', hc⟩ := bind_ok.1 hc
  obtain ⟨M, k3, hM, hc⟩ := bind_ok.1 hc
  obtain ⟨ttl, k4, httl, hc⟩ := bind_ok.1 hc
  obtain ⟨v, k5, hv, hc⟩ := bind_ok.1 hc
  obtain ⟨_, k6, hle, hc⟩ := bind_ok.1 hc
  obtain ⟨e, k7, he, hc⟩ := bind_ok.1 hc
  obtain ⟨_, k8, hact, hc⟩ := bind_ok.1 hc
  obtain ⟨rest, k9, hrest, hc⟩ := bind_ok.1 hc
  obtain ⟨_, k10, hset, hc⟩ := bind_ok.1 hc
  obtain ⟨nextId, k11, hnext, hc⟩ := bind_ok.1 hc
  obtain ⟨expiresAt, k12, hexp, hc⟩ := bind_ok.1 hc
  obtain ⟨_, k13, hset', hem⟩ := bind_ok.1 hc
  cases number_prop ho
  cases number_prop ho'
  obtain ⟨M', -, hpos, hz⟩ := positive_ok.1 hM
  cases hz
  obtain ⟨ttl', -, -, hz⟩ := positive_ok.1 httl
  cases hz
  obtain ⟨o'', k14, ho'', hv⟩ := bind_ok.1 hv
  obtain ⟨rfl, rfl⟩ := getVisits_ok ho''
  obtain ⟨v', hv, hz⟩ := orThrow_ok.1 hv
  cases hz
  obtain ⟨hle, hz⟩ := throwIf_ok.1 hle
  cases hz
  obtain ⟨old, hold, rfl, hk⟩ := entryOrCreate_ok he
  obtain ⟨hfree, hz⟩ := throwIf_ok.1 hact
  cases hz
  obtain ⟨-, hz⟩ := checked_ok.1 hrest
  cases hz
  cases setGranule_ok hset
  obtain ⟨-, hz⟩ := checked_ok.1 hnext
  cases hz
  obtain ⟨-, hz⟩ := checked_ok.1 hexp
  cases hz
  have hnone : (old.getD {}).active m.blockTimestamp = [] := by
    rw [Entry.active, List.filter_eq_nil_iff]
    intro x hx ha
    exact hfree (List.any_eq_true.2 ⟨x, hx, ha⟩)
  rw [(emit_ok hem).1, setGranule_ok hset']
  obtain rfl | rfl := hk
  · exact Effect.enter m.sender v M old _ hpos (by omega) hv hold hnone ⟨rfl, rfl, rfl⟩
  · change Effect _ _ (((Store.put _ _ _).put _ _).put _ _) _
    rw [Store.put_put_put]
    exact Effect.enter m.sender v M old _ hpos (by omega) hv hold hnone ⟨rfl, rfl, rfl⟩

end Methods

/-- A call that goes through has one of the effects, and adds to the totals what the effect says. -/
theorem effect_of_outcome {E : Engine} {c : Call} {s s' : Store} (hsound : ∀ u e, s.entry u = some e → e.Sound)
    (hback : ∀ u e, s.entry u = some e → ∃ v, s.visits u = some v) (h : outcome E c s = some s') :
    Effect c.msg.blockTimestamp s s' (c.totals E) := by
  obtain ⟨method, p, m, stopped⟩ := c
  unfold outcome at h
  dsimp only at h
  split at h
  · rename_i u k hc
    split at h
    · cases h
    · rename_i hov
      cases h
      have hk : k.overflow = false := by
        cases hb : k.overflow with
        | false => rfl
        | true => exact (hov (.inl hb)).elim
      cases method with
      | init => exact init_ok hc
      | issuePass => exact issuePass_ok hc
      | buyVisits => exact buyVisits_ok hc hk
      | createEntry => exact createEntry_ok hc
      | markUsed => exact markUsed_ok hc
      | cancelEntry => exact cancelEntry_ok hsound hback hc
      | disableEntry => exact disableEntry_ok hc
      | setAdmin => exact setAdmin_ok hc
      | withdraw => exact withdraw_ok hc hk
  · cases h

end Gym

end Grain
