import Grain.Governance
import Grain.Lemmas.Views
import Grain.Lemmas.Traps

/-!
# What votes can do to the chain

A parameter can be voted to any number. The chain goes on working as long as every vote keeps the parameters in bounds; a vote
for a `ttl_seconds_per_gas` of zero makes the next deployment divide by it.
-/

namespace Grain

open Prog Eff Store

variable {Γ : Ctx} {s t : St} {v v' : BcValues} {bytes : Nat}

/-! ## Numbers -/

/-- What is stored of a number is its residue. -/
theorem stoull_eq (text : String) : stoull text = (stoullU text).map fun (u : Nat) => wrap64 (u : Int) := by
  unfold stoull stoullU
  rcases splitNumeral text with ⟨neg, _ | ⟨c, cs⟩⟩
  · rfl
  · dsimp only
    split
    · rfl
    · rename_i hlt
      cases neg
      · rfl
      · have hmod : (((2 ^ 64 - digitsVal (c :: cs)) % 2 ^ 64 : Nat) : Int) = -(digitsVal (c :: cs) : Int) % 2 ^ 64 := by
          omega
        have hw : wrap64 (((2 ^ 64 - digitsVal (c :: cs)) % 2 ^ 64 : Nat) : Int) = wrap64 (-(digitsVal (c :: cs) : Int)) := by
          unfold wrap64
          rw [hmod]
          exact Int.emod_bmod ..
        exact congrArg Except.ok hw.symm

/-- A number below `2^63` is stored as it is. -/
theorem stoull_of_lt {text : String} {n : Int} (h : stoull text = .ok n) (hlt : ∀ u, stoullU text = .ok u → u < 2 ^ 63) :
    ∃ u, stoullU text = .ok u ∧ n = u := by
  rw [stoull_eq] at h
  rcases hu : stoullU text with e | u <;> rw [hu] at h
  · cases h
  · have hb := hlt u hu
    have hin : InI64 (u : Int) := by
      unfold InI64
      omega
    exact ⟨u, rfl, (Except.ok.inj h).symm.trans (wrap64_eq hin)⟩

/-! ## The leaf of the values -/

/-- A lookup of the path shows the object at the pointer. -/
def Shows (s : Store) (p : Path) (d : DataPtr) (o : DataObj) : Prop := ∃ i, s.look p = .ok (some (i, some (d, o)))

/-- A typed lookup that finds a leaf. -/
theorem getNoCreate_some {τ : Type} {n : Name} {cast : Payload → Option τ} {l : Leaf τ} :
    (runEff Γ (getNoCreate Γ n cast) s).1 = .ok (some l) ↔
      Shows s.store (Γ.path n.text) l.ptr l.obj ∧ cast l.obj.payload = some l.val := by
  have hrun : (runEff Γ (getNoCreate Γ n cast) s).1 =
      (s.lookup (s.store.look (Γ.path n.text))).1.map fun r => r.bind fun z => castTo cast z.2 := by
    unfold runEff getNoCreate Eff.look
    simp only [Prog.run_bind, Prog.run_ask, Eff.op, exec]
    rcases s.store.look (Γ.path n.text) with e | r <;> rfl
  rw [hrun]
  unfold Shows
  rcases s.store.look (Γ.path n.text) with e | r
  · simp [St.lookup, Except.map]
  · simp only [St.lookup, Except.map, Except.ok.injEq, bind_castTo]
    constructor
    · rintro ⟨i, h, hc⟩
      exact ⟨⟨i, h⟩, hc⟩
    · rintro ⟨⟨i, h⟩, hc⟩
      exact ⟨i, h, hc⟩

theorem hasValues_iff : HasValues Γ s v ↔ ∃ d o, Shows s.store (Γ.path Name.values.text) d o ∧ o.payload = .values v := by
  have hcast : ∀ p : Payload, p.values? = some v ↔ p = .values v := by
    intro p
    cases p <;> simp [Payload.values?]
  unfold HasValues getValuesNoCreate
  constructor
  · intro h
    rcases hr : (runEff Γ (getNoCreate Γ .values Payload.values?) s).1 with e | r
    · rw [hr] at h
      cases h
    · rw [hr] at h
      rcases r with _ | l
      · cases h
      · obtain ⟨hs, hc⟩ := getNoCreate_some.1 hr
        obtain rfl : l.val = v := Option.some.inj (Except.ok.inj h)
        exact ⟨l.ptr, l.obj, hs, (hcast _).1 hc⟩
  · rintro ⟨d, o, hs, hp⟩
    have hr := (getNoCreate_some (l := ⟨d, o, v⟩)).2 ⟨hs, (hcast _).2 hp⟩
    rw [hr]
    rfl

/-- The second store has more cells in memory, and is otherwise the same for the lookups. -/
structure Widens (a b : Store) : Prop where
  db : b.db = a.db
  deref : b.deref = a.deref
  gens : ∀ c, (b.cell c).gens = (a.cell c).gens
  hashes : ∀ c, (b.cell c).hashes = (a.cell c).hashes
  leaf : ∀ c, (b.cell c).idx = (a.cell c).idx ∧ (b.cell c).data = (a.cell c).data
  ptrs : ∀ c id, id ∈ (a.cell c).ptrs → id ∈ (b.cell c).ptrs

namespace Widens

variable {a b c : Store}

theorem refl (a : Store) : Widens a a := ⟨rfl, rfl, fun _ => rfl, fun _ => rfl, fun _ => ⟨rfl, rfl⟩, fun _ _ h => h⟩

theorem trans (h : Widens a b) (h' : Widens b c) : Widens a c where
  db := h'.db.trans h.db
  deref := h'.deref.trans h.deref
  gens x := (h'.gens x).trans (h.gens x)
  hashes x := (h'.hashes x).trans (h.hashes x)
  leaf x := ⟨(h'.leaf x).1.trans (h.leaf x).1, (h'.leaf x).2.trans (h.leaf x).2⟩
  ptrs x id hid := h'.ptrs x id (h.ptrs x id hid)

/-- A cell is replaced by one that differs in its flag and has more children in memory. -/
theorem setCell (a : Store) (p : CellPtr) {k : Cell} (hg : k.gens = (a.cell p).gens) (hh : k.hashes = (a.cell p).hashes)
    (hl : k.idx = (a.cell p).idx ∧ k.data = (a.cell p).data) (hp : ∀ id, id ∈ (a.cell p).ptrs → id ∈ k.ptrs) :
    Widens a (a.setCell p k) := by
  refine ⟨rfl, rfl, ?_, ?_, ?_, ?_⟩ <;> intro x <;> rw [cell_setCell] <;> split
  all_goals first
    | (rename_i he; subst he; assumption)
    | simp

theorem mark {k : Kind} (h : Change k a b) (hk : k = .mark) : Widens a b := by
  subst hk
  cases h with
  | snapshot => exact ⟨by simp, by simp, by simp, by simp, by simp, by simp⟩
  | dirty => exact setCell a _ rfl rfl ⟨rfl, rfl⟩ fun _ h => h
  | enter =>
    refine setCell a _ rfl rfl ⟨rfl, rfl⟩ fun id hid => ?_
    simp [hid]

theorem setDirty (a : Store) (roll : Bool) (p : CellPtr) : Widens a (a.setDirty roll p) :=
  (setDirty_changes a roll p).inv (I := Widens a) (fun _ _ _ hk hc h => h.trans (mark hc hk)) (refl a)

theorem child (h : Widens a b) (p : CellPtr) (id : Nat) : b.child p id = a.child p id := by
  unfold Store.child Cell.gen
  rw [h.gens]

theorem replaceLeafNoCreate (h : Widens a b) {p q : CellPtr} {id : Nat} (hr : a.replaceLeafNoCreate p id = .ok (some q)) :
    b.replaceLeafNoCreate p id = .ok (some q) := by
  have hq := replaceLeafNoCreate_some hr
  unfold Store.replaceLeafNoCreate at hr ⊢
  by_cases hb : id ∈ (b.cell p).ptrs
  · rw [if_pos hb, h.child, hq]
  · have ha : id ∉ (a.cell p).ptrs := fun ha => hb (h.ptrs p id ha)
    rw [if_neg ha] at hr
    rw [if_neg hb, h.hashes, h.db, h.child]
    exact hr

/-- A lookup that finds a cell finds it again. -/
theorem resolve (h : Widens a b) {ids : Path} {p q : CellPtr} (hr : a.resolve ids p = .ok (some q)) :
    b.resolve ids p = .ok (some q) := by
  induction ids generalizing p with
  | nil => exact hr
  | cons id ids ih =>
    unfold Store.resolve at hr ⊢
    rcases hl : a.replaceLeafNoCreate p id with e | _ | p' <;> rw [hl] at hr
    · cases hr
    · cases hr
    · rw [h.replaceLeafNoCreate hl]
      exact ih hr

theorem shows (h : Widens a b) {p : Path} {d : DataPtr} {o : DataObj} (hs : Shows a p d o) : Shows b p d o := by
  obtain ⟨i, hl⟩ := hs
  unfold Shows
  unfold Store.look getByPathNoCreate at hl ⊢
  rcases hr : a.resolve p [] with e | _ | q <;> rw [hr] at hl
  · cases hl
  · cases hl
  · rw [h.resolve hr]
    have hview : b.view q = a.view q := by
      unfold view Store.leaf
      rw [(h.leaf q).1, (h.leaf q).2, h.deref]
    refine ⟨i, ?_⟩
    change Except.ok (some (b.view q)) = _
    rw [hview]
    exact hl

end Widens

theorem Shows.deref {a : Store} {p : Path} {d : DataPtr} {o : DataObj} (hs : Shows a p d o) : a.deref d = o := by
  obtain ⟨i, hl⟩ := hs
  unfold Store.look at hl
  rcases hr : a.getByPathNoCreate p with e | _ | q <;> rw [hr] at hl
  · cases hl
  · cases hl
  · have hv := Option.some.inj (Except.ok.inj hl)
    unfold view Store.leaf at hv
    simp only [Prod.mk.injEq, Option.map_eq_some_iff] at hv
    obtain ⟨-, g, -, rfl, rfl⟩ := hv
    rfl

/-- A replaced object is shown where it was shown before. -/
theorem Shows.setObj {a : Store} {p : Path} {d d' : DataPtr} {o o' : DataObj} (hs : Shows a p d o) :
    Shows (a.setObj d' o') p d (if d = d' then o' else o) := by
  obtain ⟨i, hl⟩ := hs
  have hres : ∀ ids c, (a.setObj d' o').resolve ids c = a.resolve ids c := by
    intro ids
    induction ids with
    | nil => exact fun _ => rfl
    | cons id ids ih =>
      intro c
      unfold Store.resolve
      have hr : (a.setObj d' o').replaceLeafNoCreate c id = a.replaceLeafNoCreate c id := rfl
      rw [hr]
      rcases a.replaceLeafNoCreate c id with e | _ | q
      · rfl
      · rfl
      · exact ih q
  refine ⟨i, ?_⟩
  unfold Store.look getByPathNoCreate at hl ⊢
  rw [hres]
  rcases hr : a.resolve p [] with e | _ | q <;> rw [hr] at hl
  · cases hl
  · cases hl
  · have hv := Option.some.inj (Except.ok.inj hl)
    change Except.ok (some ((a.setObj d' o').view q)) = _
    unfold view Store.leaf at hv ⊢
    simp only [Prod.mk.injEq, Option.map_eq_some_iff] at hv
    obtain ⟨hi, g, hg, rfl, rfl⟩ := hv
    simp only [cell_setObj, hi, hg, Option.map_some, deref_setObj]

/-! ## Applying a vote -/

/-- The writes of a vote to the table of votes and to the values. -/
def Write.Ballot : Write → Prop
  | .setVote _ _ => True
  | .eraseVote _ => True
  | .setValue _ _ => True
  | _ => False

/-- The state after a write that does not raise. -/
def St.write (s : St) (d : DataPtr) (w : Write) : St :=
  { s with store := s.store.setObj d (w.apply (s.store.deref d)), overflow := s.overflow || w.overflows (s.store.deref d) }

theorem run_ballot {w : Write} (hw : w.Ballot) (d : DataPtr) (s : St) : runEff Γ (assign d w) s = (.ok (), s.write d w) := by
  have hraise : w.raises (s.store.deref d) = false := by
    cases w <;> first | exact hw.elim | rfl
  unfold runEff assign Eff.op
  rw [run_bind_ok _ (run_ask _ _ _)]
  simp only [exec, hraise]
  rfl

/-- The state after a leaf was marked. -/
def St.mark (s : St) (d : DataPtr) : St := { s with store := s.store.setDirty true d.parent }

theorem run_markDirty (d : DataPtr) (s : St) : runEff Γ (markDirty d) s = (.ok (), s.mark d) := rfl

theorem HasValues.mark (h : HasValues Γ s v) (d : DataPtr) : HasValues Γ (s.mark d) v := by
  obtain ⟨e, o, hs, hp⟩ := hasValues_iff.1 h
  exact hasValues_iff.2 ⟨e, o, (Widens.setDirty s.store true d.parent).shows hs, hp⟩

theorem HasValues.congr (h : HasValues Γ s v) (hst : t.store = s.store) : HasValues Γ t v := by
  rw [hasValues_iff] at h ⊢
  rw [hst]
  exact h

/-- A write to the table of votes leaves the values. -/
theorem HasValues.writeVote (h : HasValues Γ s v) {w : Write} (hw : w.Ballot) (hv : ∀ p n, w ≠ .setValue p n) (d : DataPtr) :
    HasValues Γ (s.write d w) v := by
  obtain ⟨e, o, hs, hp⟩ := hasValues_iff.1 h
  refine hasValues_iff.2 ⟨e, _, hs.setObj, ?_⟩
  split
  · rename_i he
    subst he
    rw [hs.deref]
    cases w with
    | setVote k z => simp [Write.apply, Write.payload, Payload.mapVotes, hp]
    | eraseVote k => simp [Write.apply, Write.payload, Payload.mapVotes, hp]
    | setValue p n => exact absurd rfl (hv p n)
    | _ => exact hw.elim
  · exact hp

/-- A value is set through the pointer that the lookup gave. -/
theorem HasValues.writeValue {d : DataPtr} {o : DataObj} (hs : Shows s.store (Γ.path Name.values.text) d o)
    (hp : o.payload = .values v) (param : String) (n : Int) :
    HasValues Γ (s.write d (.setValue param n)) { v with values := v.values.insert param n } ∧
      ∃ o', Shows (s.write d (.setValue param n)).store (Γ.path Name.values.text) d o' ∧
        o'.payload = .values { v with values := v.values.insert param n } := by
  have hshown := @Shows.setObj _ _ _ d _ ((Write.setValue param n).apply (s.store.deref d)) hs
  rw [if_pos rfl] at hshown
  have hpay : ((Write.setValue param n).apply (s.store.deref d)).payload = .values { v with values := v.values.insert param n } := by
    rw [hs.deref]
    simp [Write.apply, Write.payload, Payload.mapValues, hp]
  exact ⟨hasValues_iff.2 ⟨d, _, hshown, hpay⟩, _, hshown, hpay⟩

theorem run_emitCommand (tp : TParams) (i : Nat) (command body : String) (s : St) : ∃ t,
    runEff Γ (emitCommand tp i command body) s = (.ok (), t) ∧ t.store = s.store := ⟨_, rfl, rfl⟩

/-- Setting a value, and the flag that goes with one of them. -/
theorem run_setValue {d : DataPtr} {o : DataObj} (hs : Shows s.store (Γ.path Name.values.text) d o) (hp : o.payload = .values v)
    (param : String) (n : Int) : ∃ t, runEff Γ (assign d (.setValue param n) >>= fun _ =>
      doIf (param = "validator_min_stake") (assign d (.setValue "validator_min_stake_activated" 1))) s = (.ok (), t) ∧
      HasValues Γ t (v.setValue param n) := by
  obtain ⟨h1, o', hs', hp'⟩ := HasValues.writeValue hs hp param n
  have hset := run_ballot (Γ := Γ) (w := .setValue param n) trivial d s
  unfold runEff at hset ⊢
  rw [run_bind_ok _ hset]
  unfold doIf BcValues.setValue
  by_cases hm : param = "validator_min_stake"
  · rw [if_pos hm, if_pos hm]
    exact ⟨_, run_ballot (w := .setValue "validator_min_stake_activated" 1) trivial d _,
      (HasValues.writeValue hs' hp' "validator_min_stake_activated" 1).1⟩
  · rw [if_neg hm, if_neg hm]
    exact ⟨_, rfl, h1⟩

/-- With the stake behind it counted, a vote sets the value if the stake is enough, and leaves the values otherwise. -/
theorem run_applyVote (b : BParams) (tp : TParams) (i : Nat) (votes : DataPtr) (vhash param : String) {value : String}
    {voted : StdSet String} {stake n : Int} (hv : HasValues Γ s v)
    (hstake : (runEff Γ (votedStake Γ voted.toList 0) (s.mark votes)).1 = .ok stake)
    (hfull : b.fullStake ≠ 0) (hn : (wrap64 (stake * 100)).tdiv b.fullStake > quorum → stoull value = .ok n) :
    ∃ t, runEff Γ (applyVote Γ b tp i votes vhash param value voted) s = (.ok (), t) ∧
      HasValues Γ t (if (wrap64 (stake * 100)).tdiv b.fullStake > quorum then v.setValue param n else v) := by
  have hmark := hv.mark votes
  have hreads : runEff Γ (votedStake Γ voted.toList 0) (s.mark votes) = (.ok stake, s.mark votes) :=
    Prod.ext hstake ((reads_votedStake _ _).state_eq hstake)
  have hquot : runEff Γ (quot (wrap64 (stake * 100)) b.fullStake) (s.mark votes) =
      (.ok ((wrap64 (stake * 100)).tdiv b.fullStake), s.mark votes) := by
    unfold quot
    rw [if_neg hfull]
    rfl
  unfold runEff applyVote at *
  rw [run_bind_ok _ (run_markDirty votes s), run_bind_ok _ hreads, run_bind_ok _ hquot]
  by_cases hq : (wrap64 (stake * 100)).tdiv b.fullStake > quorum
  · rw [if_pos hq]
    unfold doIf
    rw [if_pos hq]
    obtain ⟨d, o, hs, hp⟩ := hasValues_iff.1 hmark
    have hget : Prog.run (exec Γ) (getValuesNoCreate Γ >>= need) (s.mark votes) = (.ok ⟨d, o, v⟩, s.mark votes) := by
      have hl := (@getNoCreate_some Γ _ BcValues .values Payload.values? ⟨d, o, v⟩).2 ⟨hs, by rw [hp]; rfl⟩
      exact (run_bind_ok _ (Prod.ext hl ((Reads.getNoCreate .values Payload.values?).state_eq hl))).trans rfl
    obtain ⟨t, ht, hvt⟩ := run_setValue hs hp param n
    have herase := run_ballot (Γ := Γ) (w := .eraseVote vhash) trivial votes t
    unfold runEff at ht herase
    rw [run_bind_ok _ hget, hn hq]
    change ∃ u, Prog.run (exec Γ) (assign d (.setValue param n) >>= fun _ =>
      doIf (param = "validator_min_stake") (assign d (.setValue "validator_min_stake_activated" 1)) >>= fun _ =>
      assign votes (.eraseVote vhash) >>= fun _ => markDirty votes >>= fun _ => markDirty d >>= fun _ =>
      emitCommand tp i "vote_applied" (jsonText [("param", param), ("value", value)])) (s.mark votes) = (.ok (), u) ∧ _
    rw [← Prog.bind_bind, run_bind_ok _ ht, run_bind_ok _ herase, run_bind_ok _ (run_markDirty votes _),
      run_bind_ok _ (run_markDirty d _)]
    obtain ⟨u, hu, hst⟩ := run_emitCommand (Γ := Γ) tp i "vote_applied" (jsonText [("param", param), ("value", value)])
      (((t.write votes (.eraseVote vhash)).mark votes).mark d)
    exact ⟨u, hu, (((hvt.writeVote (w := .eraseVote vhash) trivial (by simp) votes).mark votes).mark d).congr hst⟩
  · rw [if_neg hq]
    unfold doIf
    rw [if_neg hq]
    exact ⟨_, rfl, hmark⟩

/-! ## A vote -/

/-- What the code did that returned no text: one step of a run without an error. -/
theorem run_failIf_ok {c : Prop} [Decidable c] {msg : String} (h : Prog.run (exec Γ) (failIf c msg) s = (.ok (), t)) :
    ¬ c ∧ s = t := by
  unfold failIf err at h
  split at h <;> rename_i hc
  · cases h
  · cases h
    exact ⟨hc, rfl⟩

/-- Code that reads and goes on leaves the state. -/
theorem Reads.run_ok {α : Type} {m : Eff α} (hm : Reads Γ m) {a : α} (h : Prog.run (exec Γ) m s = (.ok a, t)) : s = t := by
  have hok : (runEff Γ m s).1 = .ok a := congrArg Prod.fst h
  exact (hm.state_eq hok).symm.trans (congrArg Prod.snd h)

/-- A vote that was counted has set the value or left the values as they were. -/
theorem values_of_applyVote {b : BParams} {tp : TParams} {i : Nat} {votes : DataPtr} {vhash param value : String}
    {voted : StdSet String} (hv : HasValues Γ s v)
    (h : Prog.run (exec Γ) (applyVote Γ b tp i votes vhash param value voted) s = (.ok (), t)) :
    HasValues Γ t v ∨ ∃ n, stoull value = .ok n ∧ HasValues Γ t (v.setValue param n) := by
  have hrun := h
  unfold applyVote at h
  obtain ⟨_, s₁, h₁, h⟩ := run_bind_eq_ok _ h
  obtain rfl : s.mark votes = s₁ := congrArg Prod.snd h₁
  obtain ⟨stake, s₂, h₂, h⟩ := run_bind_eq_ok _ h
  obtain rfl := (reads_votedStake _ _).run_ok h₂
  have hstake : (runEff Γ (votedStake Γ voted.toList 0) (s.mark votes)).1 = .ok stake := congrArg Prod.fst h₂
  obtain ⟨q, s₃, h₃, h⟩ := run_bind_eq_ok _ h
  have hfull : b.fullStake ≠ 0 := by
    intro h0
    unfold quot at h₃
    rw [if_pos h0] at h₃
    cases h₃
  by_cases hq : (wrap64 (stake * 100)).tdiv b.fullStake > quorum
  · -- the conversion of the value did not raise
    obtain ⟨n, hn⟩ : ∃ n, stoull value = .ok n := by
      unfold quot at h₃
      rw [if_neg hfull] at h₃
      cases h₃
      unfold doIf at h
      rw [if_pos hq] at h
      obtain ⟨_, _, -, h⟩ := run_bind_eq_ok _ h
      obtain ⟨n, _, hn, -⟩ := run_bind_eq_ok _ h
      rw [lift, run_ofExcept] at hn
      exact ⟨n, congrArg Prod.fst hn⟩
    obtain ⟨u, hu, hvu⟩ := run_applyVote b tp i votes vhash param hv hstake hfull fun _ => hn
    rw [if_pos hq] at hvu
    have he := hrun.symm.trans hu
    cases he
    exact .inr ⟨n, hn, hvu⟩
  · obtain ⟨u, hu, hvu⟩ := @run_applyVote _ _ _ b tp i votes vhash param value voted stake 0 hv hstake hfull
      fun hq' => absurd hq' hq
    rw [if_neg hq] at hvu
    have he := hrun.symm.trans hu
    cases he
    exact .inl hvu

/-- An accepted vote has set the parameter to its number, or left the values as they were. -/
theorem values_of_executeVote {params : Json} {b : BParams} {tp : TParams} {i : Nat} (hv : HasValues Γ s v)
    (h : runEff Γ (executeVote Γ params b tp i) s = (.ok (), t)) :
    HasValues Γ t v ∨ ∃ param value n, yyGetString params "param" = .ok param ∧ yyGetString params "value" = .ok value ∧
      stoull value = .ok n ∧ HasValues Γ t (v.setValue param n) := by
  unfold runEff executeVote at h
  obtain ⟨_, s₁, h₁, h⟩ := run_bind_eq_ok _ h
  obtain rfl := (Reads.getNoCreate .values Payload.values?).run_ok h₁
  obtain ⟨votesPtr, s₂, h₂, h⟩ := run_bind_eq_ok _ h
  obtain rfl := (Reads.getNoCreate .votes Payload.votes?).run_ok h₂
  obtain ⟨node, s₃, h₃, h⟩ := run_bind_eq_ok _ h
  obtain rfl := (Reads.lift _).run_ok h₃
  obtain ⟨param, s₄, h₄, h⟩ := run_bind_eq_ok _ h
  obtain rfl := (Reads.lift _).run_ok h₄
  obtain ⟨value, s₅, h₅, h⟩ := run_bind_eq_ok _ h
  obtain rfl := (Reads.lift _).run_ok h₅
  obtain ⟨ttl, s₆, h₆, h⟩ := run_bind_eq_ok _ h
  obtain rfl := (Reads.lift _).run_ok h₆
  have hparam : yyGetString params "param" = .ok param := by
    rw [lift, run_ofExcept] at h₄
    exact congrArg Prod.fst h₄
  have hvalue : yyGetString params "value" = .ok value := by
    rw [lift, run_ofExcept] at h₅
    exact congrArg Prod.fst h₅
  obtain ⟨n, s₇, h₇, h⟩ := run_bind_eq_ok _ h
  obtain rfl := ((Reads.getNodeNoCreate node).bind fun _ => reads_orErr _ _).run_ok h₇
  obtain ⟨_, s₈, h₈, h⟩ := run_bind_eq_ok _ h
  obtain rfl := (run_failIf_ok h₈).2
  obtain ⟨votes, s₉, h₉, h⟩ := run_bind_eq_ok _ h
  obtain rfl := (Reads.need _).run_ok h₉
  -- whatever has been filed, the values are still there when the stake is counted
  have key : ∀ {u w : St} {voted : StdSet String}, HasValues Γ u v →
      Prog.run (exec Γ) (applyVote Γ b tp i votes.ptr (param ++ value) param value voted >>= fun _ =>
        emitCommand tp i "vote_counted" (jsonText [("node", node), ("param", param), ("value", value)])) u = (.ok (), w) →
      HasValues Γ w v ∨ ∃ param value n, yyGetString params "param" = .ok param ∧ yyGetString params "value" = .ok value ∧
        stoull value = .ok n ∧ HasValues Γ w (v.setValue param n) := by
    intro u w voted hu hr
    obtain ⟨_, u₁, hr₁, hr⟩ := run_bind_eq_ok _ hr
    have hw : w.store = u₁.store := congrArg (fun x => x.2.store) hr.symm
    rcases values_of_applyVote hu hr₁ with h1 | ⟨n, hn, h1⟩
    · exact .inl (h1.congr hw)
    · exact .inr ⟨param, value, n, hparam, hvalue, hn, h1.congr hw⟩
  have hballot : ∀ (u : St) (k : String) (z : Vote), HasValues Γ u v → HasValues Γ (u.write votes.ptr (.setVote k z)) v :=
    fun u k z hu => hu.writeVote (w := .setVote k z) trivial (by simp) _
  rcases hz : votes.val[param ++ value]? with _ | z
  · simp only [hz] at h
    obtain ⟨_, u₁, k₁, h⟩ := run_bind_eq_ok _ h
    obtain rfl := (run_failIf_ok k₁).2
    obtain ⟨_, u₂, k₂, h⟩ := run_bind_eq_ok _ h
    have e₂ := k₂.symm.trans (run_ballot (Γ := Γ) (w := .setVote _ _) trivial votes.ptr _)
    cases e₂
    obtain ⟨n', u₃, k₃, h⟩ := run_bind_eq_ok _ h
    obtain rfl := (Reads.lift _).run_ok k₃
    obtain ⟨_, u₄, k₄, h⟩ := run_bind_eq_ok _ h
    have e₄ := k₄.symm.trans (run_ballot (Γ := Γ) (w := .setVote _ _) trivial votes.ptr _)
    cases e₄
    exact key (hballot _ _ _ (hballot _ _ _ hv)) h
  · simp only [hz] at h
    by_cases he : wrap64 (b.blockTs - z.createTime) > z.ttl
    · rw [if_pos he] at h
      obtain ⟨_, u₁, k₁, h⟩ := run_bind_eq_ok _ h
      have hst : u₁.store = s.store := congrArg (fun x => x.2.store) k₁.symm
      obtain ⟨_, u₂, k₂, h⟩ := run_bind_eq_ok _ h
      have e₂ := k₂.symm.trans (run_ballot (Γ := Γ) (w := .eraseVote (param ++ value)) trivial votes.ptr _)
      cases e₂
      have e₃ := h.symm.trans (run_markDirty (Γ := Γ) votes.ptr _)
      cases e₃
      exact .inl (((hv.congr hst).writeVote (w := .eraseVote (param ++ value)) trivial (by simp) votes.ptr).mark votes.ptr)
    · rw [if_neg he] at h
      obtain ⟨_, u₁, k₁, h⟩ := run_bind_eq_ok _ h
      have e₁ := k₁.symm.trans (run_ballot (Γ := Γ) (w := .setVote _ _) trivial votes.ptr _)
      cases e₁
      exact key (hballot _ _ _ hv) h

theorem HasValues.unique (h : HasValues Γ s v) (h' : HasValues Γ s v') : v = v' :=
  Option.some.inj (Except.ok.inj (h.symm.trans h'))

/-- One accepted vote. -/
theorem Voted.cases {param value : String} (h : Voted Γ param value v v') :
    v' = v ∨ ∃ n, stoull value = .ok n ∧ v' = v.setValue param n := by
  obtain ⟨params, b, tp, i, s, t, hp, hx, hv, hrun, hv'⟩ := h
  rcases values_of_executeVote hv hrun with h1 | ⟨param', value', n, hp', hx', hn, h1⟩
  · exact .inl (hv'.unique h1)
  · obtain rfl : param = param' := Except.ok.inj (hp.symm.trans hp')
    obtain rfl : value = value' := Except.ok.inj (hx.symm.trans hx')
    exact .inr ⟨n, hn, hv'.unique h1⟩

/-- A vote in bounds stores the number that its text denotes, and keeps the values in bounds. -/
theorem Voted.inBounds {param value : String} (h : Voted Γ param value v v') (hv : v.InBounds bytes)
    (hc : VoteInBounds bytes v param value) :
    v'.InBounds bytes ∧ (v' = v ∨ ∃ u : Nat, stoullU value = .ok u ∧ v' = v.setValue param u) := by
  rcases h.cases with rfl | ⟨n, hn, rfl⟩
  · exact ⟨hv, .inl rfl⟩
  · obtain ⟨u, hu, rfl⟩ := stoull_of_lt hn fun u hu => (hc u hu).1
    exact ⟨(hc u hu).2, .inr ⟨u, hu, rfl⟩⟩

/-- The bounds are kept by a run of votes in bounds. -/
theorem VoteRun.inBounds {v₀ : BcValues} (h : VoteRun Γ (VoteInBounds bytes) v₀ v) (hv : v₀.InBounds bytes) : v.InBounds bytes := by
  induction h with
  | refl => exact hv
  | tail _ hc hs ih => exact (hs.inBounds ih hc).1

/-! ## The fees -/

/-- A value that the code reads is the one in the leaf. -/
theorem result_committeeValue (h : HasValues Γ s v) (name : String) : (runEff Γ (committeeValue Γ name) s).1 = v.getValue name := by
  have hcast : ∃ l, (runEff Γ (getValuesNoCreate Γ) s).1 = .ok (some l) ∧ l.val = v := by
    unfold HasValues at h
    rcases hr : (runEff Γ (getValuesNoCreate Γ) s).1 with e | _ | l <;> rw [hr] at h
    · cases h
    · cases h
    · exact ⟨l, rfl, Option.some.inj (Except.ok.inj h)⟩
  obtain ⟨l, hl, rfl⟩ := hcast
  have hreads : Reads Γ (getValuesNoCreate Γ) := Reads.getNoCreate .values Payload.values?
  unfold committeeValue
  rw [(hreads.bind fun _ => Reads.need _).result_bind, hreads.result_bind, hl]
  exact result_lift _ _

theorem result_committeeValue_bind {β : Type} (h : HasValues Γ s v) (name : String) (k : Int → Eff β) :
    (runEff Γ (committeeValue Γ name >>= k) s).1 = v.getValue name >>= fun a => (runEff Γ (k a) s).1 := by
  rw [(Reads.committeeValue name).result_bind, result_committeeValue h]

/-- The fees of a block are those of the values. -/
theorem result_feesSnapshot (h : HasValues Γ s v) : (runEff Γ (feesSnapshot Γ) s).1 = v.fees := by
  unfold feesSnapshot BcValues.fees
  simp only [result_committeeValue_bind h]
  rfl

/-! ### Their arithmetic -/

variable {f : FeesSnapshot}

/-- The gas of a time to live lies between one and that of the longest. -/
theorem ttlQuot_bounds {d ttl : Int} (hd : 1 ≤ d) (h0 : 0 < ttl) (hm : ttl ≤ maxGranuleTtl) :
    1 ≤ (ttl + d - 1).tdiv d ∧ (ttl + d - 1).tdiv d ≤ (maxGranuleTtl + d - 1).tdiv d := by
  have hm0 : 0 ≤ maxGranuleTtl := by decide
  rw [Int.tdiv_eq_ediv_of_nonneg (by omega), Int.tdiv_eq_ediv_of_nonneg (by omega)]
  refine ⟨?_, Int.ediv_le_ediv (by omega) (by omega)⟩
  rw [Int.le_ediv_iff_mul_le (by omega)]
  omega

theorem FeesSnapshot.InBounds.exact (h : f.InBounds bytes) {n : Int} (hn : n ∈ f.arithmetic bytes) : InI64 n := by
  unfold InI64
  rcases hn with ⟨ttl, h0, hm, rfl | rfl | rfl⟩ | rfl | ⟨p, hp0, hp, rfl⟩ | ⟨k, hk, rfl⟩
  · have := h.ttl
    omega
  · have h1 := ttlQuot_bounds h.ttl.1 h0 hm
    have h2 := h.deploy
    omega
  · have h1 := ttlQuot_bounds h.ttl.1 h0 hm
    have h2 := h.create
    omega
  · exact h.call
  · have h1 := h.token
    constructor
    · have : 0 ≤ f.gasPerToken * (100 - p) := Int.mul_nonneg (by omega) (by omega)
      omega
    · have : f.gasPerToken * (100 - p) ≤ f.gasPerToken * 100 := Int.mul_le_mul_of_nonneg_left (by omega) (by omega)
      omega
  · have h1 := h.byte
    have h2 := h.token
    have hk0 : 0 ≤ (k : Int) * f.gasPerByte := Int.mul_nonneg (by omega) h1.1
    have hle : (k : Int) * f.gasPerByte ≤ bytes * f.gasPerByte := Int.mul_le_mul_of_nonneg_right (by omega) h1.1
    omega

/-- The gas that a token buys at no priority. -/
theorem FeesSnapshot.InBounds.gasPerToken_eq (h : f.InBounds bytes) : Grain.gasPerToken 0 f.gasPerToken = .ok f.gasPerToken := by
  have ht := h.token
  have hin : InI64 (f.gasPerToken * (100 - 0)) := by
    unfold InI64
    omega
  have hrate : (wrap64 (f.gasPerToken * (100 - 0))).tdiv 100 = f.gasPerToken := by
    rw [wrap64_eq hin]
    exact Int.mul_tdiv_cancel _ (by decide)
  unfold Grain.gasPerToken
  rw [if_neg (by omega)]
  dsimp only
  rw [hrate, if_neg (by omega)]

/-- The gas of the bytes can be paid: with the tokens it costs as the limit. -/
theorem FeesSnapshot.InBounds.pays (h : f.InBounds bytes) {k : Nat} (hk : k ≤ bytes) : f.Pays (k * f.gasPerByte) := by
  have ht := h.token
  have hb := h.byte
  have hk0 : 0 ≤ (k : Int) * f.gasPerByte := Int.mul_nonneg (by omega) hb.1
  have hle : (k : Int) * f.gasPerByte ≤ bytes * f.gasPerByte := Int.mul_le_mul_of_nonneg_right (by omega) hb.1
  set g := f.gasPerToken with hg
  set gas := (k : Int) * f.gasPerByte with hgas
  set limit := max 1 ((gas + g - 1) / g) with hlimit
  have hmod := Int.emod_add_mul_ediv (gas + g - 1) g
  have hmod0 := Int.emod_nonneg (gas + g - 1) (show g ≠ 0 by omega)
  have hmodlt := Int.emod_lt_of_pos (gas + g - 1) (show 0 < g by omega)
  -- the limit buys the gas, and less than one token more
  have hbuys : gas ≤ limit * g ∧ limit * g ≤ max g (gas + g - 1) := by
    rw [hlimit]
    rcases le_total 1 ((gas + g - 1) / g) with h1 | h1
    · rw [max_eq_right h1]
      constructor
      · nlinarith
      · exact le_max_of_le_right (by nlinarith)
    · rw [max_eq_left h1]
      constructor
      · nlinarith
      · exact le_max_of_le_left (by omega)
  have hin : InI64 (gas + g - 1) := by
    unfold InI64
    omega
  refine ⟨limit, limit * g, limit, ?_, hbuys.1, ?_, le_refl _⟩
  · unfold token2Gas
    rw [if_neg (by omega), if_neg (by omega), h.gasPerToken_eq]
    change (if limit * g > 2 ^ 63 - 1 then _ else _) = _
    rw [if_neg (by omega)]
  · unfold gas2Token
    rw [if_neg (by omega), if_neg (by omega), h.gasPerToken_eq]
    change Except.ok (max 1 ((wrap64 (gas + g - 1)).tdiv g)) = _
    rw [wrap64_eq hin, Int.tdiv_eq_ediv_of_nonneg (by omega)]

/-! ## The committee -/

/-- The first loop ends, if the nodes can be looked up. -/
theorem strictChoice_ok {look : String → Except Stop (Option BcNode)} (count answeredMin minStake : Int) {l : List NodeElement}
    (h : ∀ n ∈ l, ∃ r, look n.name = .ok r) (c : List NodeElement) :
    ∃ c', strictChoice look count answeredMin minStake l c = .ok c' := by
  induction l generalizing c with
  | nil => exact ⟨c, rfl⟩
  | cons x l ih =>
    have ih' := ih fun n hn => h n (List.mem_cons_of_mem _ hn)
    obtain ⟨r, hr⟩ := h x List.mem_cons_self
    unfold strictChoice
    split
    · rw [hr]
      dsimp only [Except.bind]
      split
      · exact ih' _
      · exact ih' _
    · exact ⟨c, rfl⟩

/-- Values in bounds choose a committee from every adequate network. -/
theorem computeMeta_ok {Γ : NodeCtx} {s : NodeSt} {ns : List BcNode} (hb : v.InBounds bytes) (hv : HasValues Γ.ctx s.st v)
    (hns : (runEff Γ.ctx (enabledNodes Γ.ctx) s.st).1 = .ok ns)
    (h : ∀ n ∈ ns, ∃ r, (runEff Γ.ctx (getNodeNoCreate Γ.ctx n.name) s.st).1 = .ok r) (ha : Adequate v ns) (root : String)
    (win : Int) :
    (∃ m, (runNode (computeMeta Γ root win) s).1 = .ok m) ∧
      ∃ pct, v.getValue "validator_count_percent" = .ok pct ∧ InI64 (ns.length * pct) ∧ 0 ≤ ns.length * pct := by
  obtain ⟨pct, hpct, hlo, hhi⟩ := hb.share
  obtain ⟨minStake, hmin⟩ := hb.minStake
  obtain ⟨answeredMin, hans⟩ := hb.answeredMin
  have hperm := rank_perm (s.weightOf Γ win) ha.apart
  have henough := ha.enough pct hpct
  have hfew := ha.few
  have hprod : (ns.length : Int) * pct ≤ ns.length * 99 := Int.mul_le_mul_of_nonneg_left hhi (by omega)
  have hin : InI64 (ns.length * pct) := by
    unfold InI64
    omega
  have hcount : (wrap64 (ns.length * pct)).tdiv 100 = ns.length * pct / 100 := by
    rw [wrap64_eq hin, Int.tdiv_eq_ediv_of_nonneg (by omega)]
  have hpos : 0 < (wrap64 (ns.length * pct)).tdiv 100 := by omega
  -- the candidates, one of which has the stake
  set elements := (rank (s.weightOf Γ win) ns).map (·.getElement) with helements
  have hstake : ∃ x ∈ elements, minStake ≤ x.stakeA := by
    obtain ⟨n, hn, hle⟩ := ha.stake minStake hmin
    exact ⟨n.getElement, List.mem_map_of_mem (hperm.mem_iff.2 hn), hle⟩
  have hlook : ∀ x ∈ elements, ∃ r, nodeOf Γ.ctx s.st x.name = .ok r := by
    intro x hx
    obtain ⟨n, hn, rfl⟩ := List.mem_map.1 hx
    obtain ⟨r, hr⟩ := h n (hperm.mem_iff.1 hn)
    exact ⟨r.map (·.val), by unfold nodeOf; rw [show n.getElement.name = n.name from rfl, hr]; rfl⟩
  have hsome : elements ≠ [] := by
    obtain ⟨x, hx, -⟩ := hstake
    exact List.ne_nil_of_mem hx
  obtain ⟨all, hall⟩ := buildTree_ok hsome
  obtain ⟨strict, hstrict⟩ := strictChoice_ok ((wrap64 (ns.length * pct)).tdiv 100) answeredMin minStake hlook []
  have hne : (relaxedCommittee ((wrap64 (ns.length * pct)).tdiv 100) minStake elements
      (strict.foldl .enrol { rankMeta ns (rank (s.weightOf Γ win) ns) with treeAllNodes := all }) strict).2 ≠ [] := by
    refine relaxedCommittee_ne_nil hpos ?_ (.inr hstake)
    intro a hmem
    rcases mem_foldl_enrol.1 hmem with hmem | ⟨x, hx, -⟩
    · exact absurd hmem (by simp [rankMeta])
    · exact List.ne_nil_of_mem hx
  obtain ⟨committe, hcommitte⟩ := buildTree_ok hne
  obtain ⟨m, hrun⟩ : ∃ m, MetaRun Γ s win m ⟨ns, pct, all, minStake, answeredMin, strict, committe⟩ := by
    refine ⟨_, hns, (result_committeeValue hv _).trans hpct, hall, ?_, (result_committeeValue hv _).trans hmin,
      (result_committeeValue hv _).trans hans, hstrict, hne, hcommitte, rfl⟩
    unfold MetaParts.count MetaParts.vne
    rw [hperm.length_eq]
    dsimp only
    omega
  obtain ⟨mm, hmm, -⟩ := hrun.run root
  exact ⟨⟨m, by rw [hmm]⟩, pct, hpct, hin, by omega⟩

/-- Values in bounds work. -/
theorem BcValues.InBounds.works (hb : v.InBounds bytes) : ∃ f, Works bytes v f := by
  obtain ⟨f, hf, hfb⟩ := hb.fees
  have httl : ∀ {b : BParams}, b.fees = f → b.fees.ttlSecondsPerGas ≠ 0 := by
    intro b hfees
    have := hfb.ttl
    rw [hfees]
    omega
  refine ⟨f, ⟨fun Γ s hv => (result_feesSnapshot hv).trans hf, ?_, ?_, fun n hn => hfb.exact hn, fun k hk => hfb.pays hk, ?_⟩⟩
  · intro Γ b tp jtx s hfees hs
    exact executeTxCommands_ne_divTrap (httl hfees) hs tp jtx s
  · intro Γ b newEpoch txs s hfees hs
    exact executeBlock_ne_divTrap (httl hfees) hs newEpoch txs s
  · intro Γ s win root ns hv hns h ha
    exact computeMeta_ok hb hv hns h ha root win

/-! ## Bringing a value back -/

/-- The tree has the table of votes. -/
def HasVotes (Γ : Ctx) (s : St) (m : StdMap String Vote) : Prop :=
  (runEff Γ (getVotesNoCreate Γ) s).1.map (Option.map (·.val)) = .ok (some m)

/-- The vote is of a node of the sender, and with it these nodes have voted for the text: they have not, and it says how long the
vote goes on, or they have, and it goes on. -/
structure Ballot (Γ : Ctx) (s : St) (params : Json) (b : BParams) (tp : TParams) (node param value : String)
    (voted : StdSet String) : Prop where
  names : yyGetString params "node" = .ok node ∧ yyGetString params "param" = .ok param ∧ yyGetString params "value" = .ok value
  owner : ∃ n, IsNode Γ s node n ∧ n.ownerAddress = tp.senderAddress
  table : ∃ m ttl, HasVotes Γ s m ∧ voteTtl params = .ok ttl ∧
    (m[param ++ value]? = none ∧ ttl.getD 0 ≠ 0 ∧ voted = (∅ : StdSet String).insert node ∨
      ∃ z, m[param ++ value]? = some z ∧ wrap64 (b.blockTs - z.createTime) ≤ z.ttl ∧ voted = z.nodes.insert node)

/-- The nodes that voted have more than the quorum of the full stake. -/
def Quorum (Γ : Ctx) (s : St) (b : BParams) (voted : StdSet String) : Prop :=
  ∃ ns, List.Forall₂ (IsNode Γ s) voted.toList ns ∧
    quorum < (wrap64 (sumStakes (ns.map (·.getFullStake)) * 100)).tdiv b.fullStake

/-- A leaf that is neither the table of votes nor the values is shown as it was after a vote has written to these. -/
theorem Shows.writeVote {p : Path} {e : DataPtr} {o : DataObj} (hs : Shows s.store p e o) {w : Write} (hw : w.Ballot)
    (hv : ∀ p n, w ≠ .setValue p n) (ho : o.payload.votes? = none) (d : DataPtr) :
    ∃ o', Shows (s.write d w).store p e o' ∧ o'.payload = o.payload := by
  refine ⟨_, hs.setObj, ?_⟩
  split
  · rename_i he
    subst he
    rw [hs.deref]
    have hmap : ∀ f, o.payload.mapVotes f = o.payload := by
      intro f
      cases hp : o.payload with
      | votes m =>
        rw [hp] at ho
        cases ho
      | _ => rfl
    cases w with
    | setVote k z => exact hmap _
    | eraseVote k => exact hmap _
    | setValue p n => exact absurd rfl (hv p n)
    | _ => exact hw.elim
  · rfl

/-- A typed lookup gave the value. -/
theorem map_val_eq_some {τ : Type} {r : Except Stop (Option (Leaf τ))} {x : τ} (h : r.map (Option.map (·.val)) = .ok (some x)) :
    ∃ l, r = .ok (some l) ∧ l.val = x := by
  rcases r with e | _ | l
  · cases h
  · cases h
  · exact ⟨l, rfl, Option.some.inj (Except.ok.inj h)⟩

theorem isNode_shows {name : String} {n : BcNode} :
    IsNode Γ s name n ↔ ∃ d o, Shows s.store (Γ.path (Name.node name).text) d o ∧ o.payload = .node n := by
  have hcast : ∀ p : Payload, p.node? = some n ↔ p = .node n := by
    intro p
    cases p <;> simp [Payload.node?]
  rw [isNode_iff]
  unfold getNodeNoCreate
  constructor
  · rintro ⟨l, hl, rfl⟩
    obtain ⟨hs, hc⟩ := getNoCreate_some.1 hl
    exact ⟨l.ptr, l.obj, hs, (hcast _).1 hc⟩
  · rintro ⟨d, o, hs, hp⟩
    exact ⟨⟨d, o, n⟩, getNoCreate_some.2 ⟨hs, (hcast _).2 hp⟩, rfl⟩

theorem IsNode.writeVote {name : String} {n : BcNode} (h : IsNode Γ s name n) {w : Write} (hw : w.Ballot)
    (hv : ∀ p n, w ≠ .setValue p n) (d : DataPtr) : IsNode Γ (s.write d w) name n := by
  obtain ⟨e, o, hs, hp⟩ := isNode_shows.1 h
  obtain ⟨o', hs', ho'⟩ := hs.writeVote hw hv (by rw [hp]; rfl) d
  exact isNode_shows.2 ⟨e, o', hs', ho'.trans hp⟩

theorem IsNode.mark {name : String} {n : BcNode} (h : IsNode Γ s name n) (d : DataPtr) : IsNode Γ (s.mark d) name n := by
  obtain ⟨e, o, hs, hp⟩ := isNode_shows.1 h
  exact isNode_shows.2 ⟨e, o, (Widens.setDirty s.store true d.parent).shows hs, hp⟩

theorem Quorum.writeVote {b : BParams} {voted : StdSet String} (h : Quorum Γ s b voted) {w : Write} (hw : w.Ballot)
    (hv : ∀ p n, w ≠ .setValue p n) (d : DataPtr) : Quorum Γ (s.write d w) b voted := by
  obtain ⟨ns, hns, hq⟩ := h
  exact ⟨ns, hns.imp fun _ _ hn => hn.writeVote hw hv d, hq⟩

/-- A filed vote with the quorum behind it sets the value. -/
theorem run_applyVote_quorum {b : BParams} (tp : TParams) (i : Nat) (vhash param : String) {value : String} {voted : StdSet String}
    {n : Int} (hv : HasValues Γ s v) (hq : Quorum Γ s b voted) (hfull : b.fullStake ≠ 0) (hn : stoull value = .ok n) (votes : DataPtr) :
    ∃ t, runEff Γ (applyVote Γ b tp i votes vhash param value voted) s = (.ok (), t) ∧ HasValues Γ t (v.setValue param n) := by
  obtain ⟨ns, hns, hlt⟩ := hq
  have hstake := result_votedStake (hns.imp fun _ _ hn => hn.mark votes) 0
  obtain ⟨t, ht, hvt⟩ := run_applyVote b tp i votes vhash param hv hstake hfull fun _ => hn
  unfold sumStakes at hlt
  rw [if_pos hlt] at hvt
  exact ⟨t, ht, hvt⟩

/-- The run of code that reads. -/
theorem Reads.run_eq {α : Type} {m : Eff α} (hm : Reads Γ m) {a : α} (h : (runEff Γ m s).1 = .ok a) :
    Prog.run (exec Γ) m s = (.ok a, s) :=
  Prod.ext h (hm.state_eq h)

theorem run_failIf {c : Prop} [Decidable c] (hc : ¬ c) (msg : String) (s : St) :
    Prog.run (exec Γ) (failIf c msg) s = (.ok (), s) := by
  unfold failIf
  rw [if_neg hc]
  rfl

theorem run_lift {α : Type} {x : Except Stop α} {a : α} (h : x = .ok a) (s : St) :
    Prog.run (exec Γ) (lift x) s = (.ok a, s) := by
  subst h
  rfl

/-- A vote that completes the quorum is executed and sets the value. -/
theorem run_executeVote {params : Json} {b : BParams} {tp : TParams} {i : Nat} {node param value : String} {voted : StdSet String}
    {n : Int} (hv : HasValues Γ s v) (hb : Ballot Γ s params b tp node param value voted) (hq : Quorum Γ s b voted)
    (hfull : b.fullStake ≠ 0) (hn : stoull value = .ok n) :
    ∃ t, runEff Γ (executeVote Γ params b tp i) s = (.ok (), t) ∧ HasValues Γ t (v.setValue param n) := by
  obtain ⟨hnode, hparam, hvalue⟩ := hb.names
  obtain ⟨m, ttl, hm, httl, hentry⟩ := hb.table
  obtain ⟨x, hx, howner⟩ := hb.owner
  obtain ⟨y, hy, rfl⟩ := isNode_iff.1 hx
  obtain ⟨lv, hlv, -⟩ := map_val_eq_some hv
  obtain ⟨lm, hlm, rfl⟩ := map_val_eq_some hm
  have hread : (runEff Γ (getNodeNoCreate Γ node >>= orErr "node not exists") s).1 = .ok y := by
    rw [(Reads.getNodeNoCreate node).result_bind, hy]
    rfl
  -- with the vote filed it is counted, and then announced
  have key : ∀ {u : St}, HasValues Γ u v → Quorum Γ u b voted → ∃ t,
      Prog.run (exec Γ) (applyVote Γ b tp i lm.ptr (param ++ value) param value voted >>= fun _ =>
        emitCommand tp i "vote_counted" (jsonText [("node", node), ("param", param), ("value", value)])) u = (.ok (), t) ∧
      HasValues Γ t (v.setValue param n) := by
    intro u hu hqu
    obtain ⟨t, ht, hvt⟩ := run_applyVote_quorum tp i (param ++ value) param hu hqu hfull hn lm.ptr
    obtain ⟨w, hw, hst⟩ := run_emitCommand (Γ := Γ) tp i "vote_counted"
      (jsonText [("node", node), ("param", param), ("value", value)]) t
    unfold runEff at ht hw
    rw [run_bind_ok _ ht]
    exact ⟨w, hw, hvt.congr hst⟩
  have hvalues : Prog.run (exec Γ) (getValuesNoCreate Γ) s = _ := (Reads.getNoCreate .values Payload.values?).run_eq hlv
  have hvotes : Prog.run (exec Γ) (getVotesNoCreate Γ) s = _ := (Reads.getNoCreate .votes Payload.votes?).run_eq hlm
  unfold runEff executeVote
  rw [run_bind_ok _ hvalues, run_bind_ok _ hvotes, run_bind_ok _ (run_lift hnode s),
    run_bind_ok _ (run_lift hparam s), run_bind_ok _ (run_lift hvalue s), run_bind_ok _ (run_lift httl s),
    run_bind_ok _ (((Reads.getNodeNoCreate node).bind fun _ => reads_orErr _ _).run_eq hread),
    run_bind_ok _ (run_failIf (fun h => h howner) _ s), run_bind_ok _ ((Reads.need (some lm)).run_eq rfl)]
  rcases hentry with ⟨hnone, h0, rfl⟩ | ⟨z, hz, hle, rfl⟩
  · simp only [hnone]
    have hw : ∀ z, (Write.setVote (param ++ value) z).Ballot := fun _ => trivial
    have hnv : ∀ z p n, Write.setVote (param ++ value) z ≠ .setValue p n := by simp
    rw [run_bind_ok _ (run_failIf h0 _ s), run_bind_ok _ (run_ballot (hw _) lm.ptr s), run_bind_ok _ (run_lift hn _),
      run_bind_ok _ (run_ballot (hw _) lm.ptr _)]
    exact key ((hv.writeVote (hw _) (hnv _) _).writeVote (hw _) (hnv _) _) ((hq.writeVote (hw _) (hnv _) _).writeVote (hw _) (hnv _) _)
  · simp only [hz]
    have hw : ∀ z, (Write.setVote (param ++ value) z).Ballot := fun _ => trivial
    have hnv : ∀ z p n, Write.setVote (param ++ value) z ≠ .setValue p n := by simp
    rw [if_neg (not_lt.2 hle), run_bind_ok _ (run_ballot (hw _) lm.ptr s)]
    exact key (hv.writeVote (hw _) (hnv _) _) (hq.writeVote (hw _) (hnv _) _)

/-! ## The chain goes on -/

theorem voted_of_run {params : Json} {b : BParams} {tp : TParams} {i : Nat} {param value : String}
    (hp : yyGetString params "param" = .ok param) (hx : yyGetString params "value" = .ok value) (hg : HasValues Γ s v)
    (hr : (runEff Γ (executeVote Γ params b tp i) s).1 = .ok ()) (hv : HasValues Γ (runEff Γ (executeVote Γ params b tp i) s).2 v') :
    Voted Γ param value v v' :=
  ⟨params, b, tp, i, s, _, hp, hx, hg, Prod.ext hr rfl, hv⟩

namespace Sample

/-- The parameters of a vote of the node. -/
def ballot (param value : String) : Json :=
  .obj [("node", .str "n"), ("param", .str param), ("value", .str value), ("ttl", .uint 10)]

/-- The world of the small network without documents and scripts. -/
def world : Ctx := ctx [] fun _ => none

/-- A transaction of the owner of the node. -/
def ownerParams : TParams :=
  { tx := { txBody := "", pkEdBin := key 'l', sigEdBin := sign 'l' }, chainId := 1, nonce := 0, senderAddress := "b",
    gasLimitGas := 1000000, blockTimestamp := 5 }

/-- The state after the node has voted for a text, at the beginning. -/
def votedState (param value : String) : St :=
  (runEff world (executeVote world (ballot param value) params ownerParams 0) (genesis world file)).2

/-- The values after it. -/
def votedValues (param : String) (n : Int) : BcValues := file.values.setValue param n

theorem vote_byte : HasValues world (genesis world file) file.values ∧
    (runEff world (executeVote world (ballot "gas_per_byte" "2") params ownerParams 0) (genesis world file)).1 = .ok () ∧
    HasValues world (votedState "gas_per_byte" "2") (votedValues "gas_per_byte" 2) := by
  decide +kernel

theorem vote_ttl : HasValues world (genesis world file) file.values ∧
    (runEff world (executeVote world (ballot "ttl_seconds_per_gas" "0") params ownerParams 0) (genesis world file)).1 = .ok () ∧
    HasValues world (votedState "ttl_seconds_per_gas" "0") (votedValues "ttl_seconds_per_gas" 0) := by
  decide +kernel

/-- The commands of a transaction that deploys a contract. -/
def deploy : Json := .arr [command "contract_deploy" [("name", .str "c"), ("ttl", .uint 7), ("src", .str "")]]

/-- With the fees that were voted it divides by zero. -/
theorem deploy_trap : (runEff world (executeTxCommands world { params with fees := { ttlSecondsPerGas := 0 } } ownerParams deploy)
    (votedState "ttl_seconds_per_gas" "0")).1 = .error (.exn .divByZero) := by
  decide +kernel

/-- Values whose fees are in bounds, with the other parameters as they are by default. -/
theorem inBounds_of {v : BcValues} {f : FeesSnapshot} (h : v.fees = .ok f ∧ v.getValue "validator_count_percent" = .ok 50 ∧
    v.getValue "validator_min_stake" = .ok 50 ∧ v.getValue "answered_committee_min" = .ok 10) (hb : f.InBounds 1000) :
    v.InBounds 1000 :=
  ⟨⟨f, h.1, hb⟩, ⟨50, h.2.1, by decide, by decide⟩, ⟨50, h.2.2.1⟩, ⟨10, h.2.2.2⟩⟩

theorem inBounds_file : file.values.InBounds 1000 :=
  @inBounds_of _ {} (by decide +kernel) ⟨by decide, by decide, by decide, by decide, by decide, by decide⟩

theorem inBounds_byte : (votedValues "gas_per_byte" 2).InBounds 1000 :=
  @inBounds_of _ { gasPerByte := 2 } (by decide +kernel) ⟨by decide, by decide, by decide, by decide, by decide, by decide⟩

theorem fees_ttl : (votedValues "ttl_seconds_per_gas" 0).fees = .ok { ttlSecondsPerGas := 0 } := by decide +kernel

end Sample

open Sample

end Grain
